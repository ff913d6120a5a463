import Catena.Action
import Catena.Value

/-!
# What is in an array

An array keeps the type of its items beside them. The two agree in every array that the operations
make (`TypedArray.Homogeneous`): without items there is no type, and otherwise it is one that literals
can have, and all items have it. The values that can be made into an array are those that share such a
type (`exists_ofValues_iff`).

The operations give the array that there is after them. As steps on an array in place (`appending`,
`replacing`, `dropping`) they check before they write, so that what they refuse leaves the array as it
was (`run_appending`, `run_replacing`).
-/

namespace Catena

/-- A type that literals have. -/
def ValueType.isPrimitive : ValueType → Bool
  | number => true
  | boolean => true
  | string => true
  | _ => false

theorem Literal.isPrimitive_type (l : Literal) : l.type.isPrimitive = true := by
  cases l <;> rfl

/-- Values are literals if their types are those of literals. -/
theorem Value.exists_literals {values : List Value}
    (h : ∀ v ∈ values, v.type.isPrimitive = true) :
    ∃ literals : List Literal, literals.map .literal = values := by
  induction values with
  | nil => exact ⟨[], rfl⟩
  | cons value rest ih =>
    obtain ⟨hvalue, hrest⟩ := List.forall_mem_cons.1 h
    obtain ⟨literals, rfl⟩ := ih hrest
    cases value with
    | literal l => exact ⟨l :: literals, rfl⟩
    | sequence s => cases hvalue
    | array a => cases hvalue

namespace TypedArray

/-! ## Items of one type -/

/-- The items are of the type that the array has. -/
def Uniform (a : TypedArray) : Prop :=
  ∀ l ∈ a.items.toList, l.type = a.elementType

theorem mapM_literal? (literals : List Literal) :
    (literals.map Value.literal).mapM Value.literal? = some literals := by
  induction literals with
  | nil => rfl
  | cons l rest ih => simp [List.mapM_cons, ih, Value.literal?]

theorem ofLiterals_cons (first : Literal) (rest : List Literal) :
    ofLiterals (first :: rest) =
      if (first :: rest).any (·.type != first.type) then .error .mixedArray
      else .ok { element := some first.type, items := (first :: rest).toArray } := by
  unfold ofLiterals ofValues
  rw [mapM_literal?]
  simp [Value.type, List.any_map, Function.comp_def]

theorem ofLiterals_error {literals : List Literal} {e : RuntimeError}
    (h : ofLiterals literals = .error e) : e = .mixedArray := by
  cases literals with
  | nil => cases h
  | cons first rest =>
    rw [ofLiterals_cons] at h
    split at h <;> cases h
    rfl

theorem uniform_ofLiterals {literals : List Literal} {a : TypedArray}
    (h : ofLiterals literals = .ok a) : a.Uniform := by
  cases literals with
  | nil =>
    cases h
    intro l hl
    cases hl
  | cons first rest =>
    rw [ofLiterals_cons] at h
    split at h
    · cases h
    · next hany =>
      cases h
      intro l hl
      simp only [Bool.not_eq_true, List.any_eq_false, bne_iff_ne, ne_eq, Decidable.not_not] at hany
      exact hany l hl

/-- Writing a uniform array down and reading it again cannot fail. -/
theorem Uniform.exists_ofLiterals {a : TypedArray} (h : a.Uniform) :
    ∃ b, ofLiterals a.items.toList = .ok b := by
  unfold Uniform at h
  generalize a.items.toList = literals at h
  cases literals with
  | nil => exact ⟨_, rfl⟩
  | cons first rest =>
    refine ⟨_, (ofLiterals_cons first rest).trans (if_neg ?_)⟩
    simp only [Bool.not_eq_true, List.any_eq_false, bne_iff_ne, ne_eq, Decidable.not_not]
    intro l hl
    exact (h l hl).trans (h first List.mem_cons_self).symm

/-- What a value adds to an array: an empty one takes any literal, others take those of their type. -/
theorem push_eq_ok {a b : TypedArray} {value : Value} (h : a.push value = .ok b) :
    ∃ l, value = .literal l ∧ (a.items.isEmpty = true ∨ a.elementType = l.type) ∧
      b = { element := some l.type, items := a.items.push l } := by
  unfold TypedArray.push at h
  cases value with
  | literal l =>
    dsimp only [Value.literal?] at h
    split at h
    · next htype =>
      cases h
      exact ⟨l, rfl, by simpa using htype, rfl⟩
    · cases h
  | sequence s =>
    dsimp only [Value.literal?] at h
    split at h <;> cases h
  | array c =>
    dsimp only [Value.literal?] at h
    split at h <;> cases h

/-- A value is not added because of its type, or because no array can have it. -/
theorem push_error {a : TypedArray} {value : Value} {e : RuntimeError}
    (h : a.push value = .error e) :
    e = .invalidElement ∨ ∃ found, e = .wrongElement a.elementType found := by
  unfold TypedArray.push at h
  split at h
  · split at h <;> cases h
    exact .inr ⟨_, rfl⟩
  · split at h <;> cases h
    · exact .inl rfl
    · exact .inr ⟨_, rfl⟩

theorem Uniform.push {a b : TypedArray} {value : Value} (h : a.Uniform)
    (hpush : a.push value = .ok b) : b.Uniform := by
  obtain ⟨item, -, htype, rfl⟩ := push_eq_ok hpush
  intro l hl
  simp only [Array.toList_push, List.mem_append, List.mem_singleton] at hl
  rcases hl with hl | rfl
  · rcases htype with hempty | htype
    · rw [Array.isEmpty_iff] at hempty
      rw [hempty] at hl
      cases hl
    · exact (h l hl).trans htype
  · rfl

/-- What a value puts in place of an item: a literal of the type of the items, or nothing. -/
theorem set_eq_ok {a b : TypedArray} {index : Nat} {value : Value}
    (h : a.set index value = .ok b) :
    (∃ l, value = .literal l ∧ a.elementType = l.type ∧
      b = { a with items := a.items.setIfInBounds index l }) ∨ b = a := by
  unfold TypedArray.set check at h
  split at h
  · cases h
  · next item hcheck hitem =>
    cases h
    split at hcheck
    · next htype =>
      cases value with
      | literal l => cases hitem; exact .inl ⟨_, rfl, htype, rfl⟩
      | sequence | array => cases hitem
    · cases hcheck
  · cases h
    exact .inr rfl

/-- An item is not replaced only because of the type of the value. -/
theorem set_error {a : TypedArray} {index : Nat} {value : Value} {e : RuntimeError}
    (h : a.set index value = .error e) : e = .wrongElement a.elementType value.type := by
  unfold TypedArray.set check at h
  split at h
  · next hcheck =>
    cases h
    split at hcheck <;> cases hcheck
    rfl
  · cases h
  · cases h

theorem Uniform.set {a b : TypedArray} {index : Nat} {value : Value} (h : a.Uniform)
    (hset : a.set index value = .ok b) : b.Uniform := by
  obtain ⟨item, -, htype, rfl⟩ | rfl := set_eq_ok hset
  · intro l hl
    rw [Array.toList_setIfInBounds] at hl
    rcases List.mem_or_eq_of_mem_set hl with hl | rfl
    · exact h l hl
    · exact htype.symm
  · exact h

theorem Uniform.pop {a : TypedArray} (h : a.Uniform) : a.pop.2.Uniform := by
  intro l hl
  unfold TypedArray.pop at hl ⊢
  dsimp only at hl ⊢
  have hitems : ¬a.items.pop.isEmpty = true := by
    intro hempty
    rw [Array.isEmpty_iff] at hempty
    rw [hempty] at hl
    cases hl
  rw [Array.toList_pop] at hl
  rw [if_neg hitems]
  exact h l ((List.dropLast_sublist _).subset hl)

theorem elementType_eq {a : TypedArray} {t : ValueType} (ht : a.element = some t) : a.elementType = t := by
  unfold elementType
  rw [ht, Option.getD_some]

/-- The type of an array tells what is in it: there is none exactly if the array is empty, and otherwise
it is the type of a literal, and of every item. -/
structure Homogeneous (a : TypedArray) : Prop where
  free_iff : a.element = none ↔ a.items = #[]
  typed : ∀ t, a.element = some t → t.isPrimitive = true ∧ ∀ l ∈ a.items.toList, l.type = t

namespace Homogeneous

variable {a b : TypedArray} {value : Value}

theorem uniform (h : a.Homogeneous) : a.Uniform := by
  intro l hl
  unfold elementType
  cases helement : a.element with
  | none =>
    rw [h.free_iff.1 helement] at hl
    cases hl
  | some t => exact (h.typed t helement).2 l hl

/-- An array is shown with the type `any` exactly if it is empty. -/
theorem elementType_eq_any_iff (h : a.Homogeneous) : a.elementType = .any ↔ a.items = #[] := by
  rw [← h.free_iff]
  unfold elementType
  cases helement : a.element with
  | none => simp
  | some t =>
    have hprimitive := (h.typed t helement).1
    simp only [Option.getD_some, reduceCtorEq, iff_false]
    rintro rfl
    cases hprimitive

theorem exists_element (h : a.Homogeneous) (hitems : a.items ≠ #[]) : ∃ t, a.element = some t :=
  Option.ne_none_iff_exists'.1 fun hnone => hitems (h.free_iff.1 hnone)

/-- An array that is not empty has the type of a literal, and so have all its items. -/
theorem of_ne_empty (h : a.Homogeneous) (hitems : a.items ≠ #[]) :
    a.elementType.isPrimitive = true ∧ ∀ l ∈ a.items.toList, l.type = a.elementType := by
  obtain ⟨t, ht⟩ := h.exists_element hitems
  rw [elementType_eq ht]
  exact h.typed t ht

theorem of_uniform (h : a.Uniform) (hfree : a.element = none ↔ a.items = #[]) : a.Homogeneous := by
  refine ⟨hfree, fun t ht => ?_⟩
  have htype := elementType_eq ht
  have hitems : a.items ≠ #[] := fun hempty => by
    rw [hfree.2 hempty] at ht
    cases ht
  refine ⟨?_, fun l hl => (h l hl).trans htype⟩
  obtain ⟨l, hl⟩ := List.exists_mem_of_ne_nil a.items.toList (mt Array.toList_eq_nil_iff.1 hitems)
  rw [← htype, ← h l hl]
  exact l.isPrimitive_type

theorem of_ofLiterals {literals : List Literal} (h : ofLiterals literals = .ok a) :
    a.Homogeneous := by
  refine of_uniform (uniform_ofLiterals h) ?_
  cases literals with
  | nil =>
    cases h
    simp
  | cons first rest =>
    rw [ofLiterals_cons] at h
    split at h
    · cases h
    · cases h
      simp

theorem push (h : a.Homogeneous) (hpush : a.push value = .ok b) : b.Homogeneous := by
  refine of_uniform (h.uniform.push hpush) ?_
  obtain ⟨l, -, -, rfl⟩ := push_eq_ok hpush
  simp

theorem set {index : Nat} (h : a.Homogeneous) (hset : a.set index value = .ok b) :
    b.Homogeneous := by
  refine of_uniform (h.uniform.set hset) ?_
  obtain ⟨item, -, -, rfl⟩ | rfl := set_eq_ok hset
  · have hsize : a.items.setIfInBounds index item = #[] ↔ a.items = #[] := by
      rw [← Array.size_eq_zero_iff, Array.size_setIfInBounds, Array.size_eq_zero_iff]
    rw [hsize]
    exact h.free_iff
  · exact h.free_iff

theorem pop (h : a.Homogeneous) : a.pop.2.Homogeneous := by
  refine of_uniform h.uniform.pop ?_
  unfold TypedArray.pop
  dsimp only
  by_cases hempty : a.items.pop = #[]
  · simp [hempty]
  · have hitems : a.items ≠ #[] := fun hnone => hempty (by rw [hnone]; rfl)
    simp only [Array.isEmpty_iff, hempty, if_false, iff_false]
    exact fun hnone => hitems (h.free_iff.1 hnone)

end Homogeneous

/-! ## Arrays of given values -/

theorem map_of_mapM_literal? {values : List Value} {items : List Literal}
    (h : values.mapM Value.literal? = some items) : items.map .literal = values := by
  induction values generalizing items with
  | nil =>
    cases h
    rfl
  | cons value rest ih =>
    rw [List.mapM_cons] at h
    obtain ⟨item, hitem, h⟩ := Option.bind_eq_some_iff.1 h
    obtain ⟨others, hothers, h⟩ := Option.bind_eq_some_iff.1 h
    cases h
    cases value with
    | literal l =>
      cases hitem
      rw [List.map_cons, ih hothers]
    | sequence s => cases hitem
    | array a => cases hitem

/-- An array has exactly the values that it is made of, in their order. -/
theorem items_of_ofValues {values : List Value} {a : TypedArray} (h : ofValues values = .ok a) :
    a.items.toList.map .literal = values := by
  unfold ofValues at h
  split at h
  · cases h
    rfl
  · split at h
    · cases h
    · split at h
      · next items hitems =>
        cases h
        exact map_of_mapM_literal? hitems
      · cases h

theorem Homogeneous.of_ofValues {values : List Value} {a : TypedArray}
    (h : ofValues values = .ok a) : a.Homogeneous := by
  have hliterals : ofLiterals a.items.toList = .ok a := by rw [ofLiterals, items_of_ofValues h, h]
  exact Homogeneous.of_ofLiterals hliterals

/-- What can be made into an array is what shares the type of a literal. -/
theorem exists_ofValues_iff (values : List Value) :
    (∃ a, ofValues values = .ok a) ↔
      values = [] ∨ ∃ t : ValueType, t.isPrimitive = true ∧ ∀ v ∈ values, v.type = t := by
  constructor
  · rintro ⟨a, ha⟩
    have hitems := items_of_ofValues ha
    cases helement : a.element with
    | none =>
      rw [(Homogeneous.of_ofValues ha).free_iff.1 helement] at hitems
      exact .inl hitems.symm
    | some t =>
      obtain ⟨hprimitive, htyped⟩ := (Homogeneous.of_ofValues ha).typed t helement
      refine .inr ⟨t, hprimitive, fun v hv => ?_⟩
      rw [← hitems] at hv
      obtain ⟨l, hl, rfl⟩ := List.mem_map.1 hv
      exact htyped l hl
  · rintro (rfl | ⟨t, hprimitive, htype⟩)
    · exact ⟨_, rfl⟩
    · obtain ⟨literals, rfl⟩ := Value.exists_literals fun v hv => htype v hv ▸ hprimitive
      cases literals with
      | nil => exact ⟨_, rfl⟩
      | cons first rest =>
        refine ⟨_, (ofLiterals_cons first rest).trans (if_neg ?_)⟩
        simp only [Bool.not_eq_true, List.any_eq_false, bne_iff_ne, ne_eq, Decidable.not_not]
        intro l hl
        have hsame : ∀ l ∈ first :: rest, l.type = t := fun l hl =>
          htype (.literal l) (List.mem_map_of_mem hl)
        exact (hsame l hl).trans (hsame first List.mem_cons_self).symm

/-! ## Operations in place -/

section InPlace

open Catena.Action

/-- A step that gives the array of a result, or stops at an error with the array as it was. -/
def outcome (a : TypedArray) : Except RuntimeError TypedArray → Outcome TypedArray RuntimeError Unit
  | .ok b => .done () b
  | .error e => .stopped e a

/-- Refuses a value of another type than that of the items. -/
def checking (value : Value) : Action TypedArray RuntimeError Unit := do
  match (← state).check value with
  | .ok _ => pure ()
  | .error e => stop e

/-- Writes the literal that a value is. Only literals get past the checks before this. -/
def writing (value : Value) (write : Literal → TypedArray → TypedArray) :
    Action TypedArray RuntimeError Unit :=
  match value.literal? with
  | some item => change (write item)
  | none => pure ()

/-- Gives an array without items the type of a value, and refuses a value of another type than that
of the items that there are. -/
def claiming (value : Value) : Action TypedArray RuntimeError Unit := do
  if (← state).items.isEmpty then
    if value.type.isPrimitive then change fun a => { a with element := some value.type }
    else stop .invalidElement
  else checking value

/-- Adds a value at the end, after the type of the items has been set or checked. -/
def appending (value : Value) : Action TypedArray RuntimeError Unit := do
  claiming value
  writing value fun item a => { a with items := a.items.push item }

/-- Replaces the item at an index, after its type has been checked. -/
def replacing (index : Nat) (value : Value) : Action TypedArray RuntimeError Unit := do
  checking value
  writing value fun item a => { a with items := a.items.setIfInBounds index item }

/-- Takes the last item off; without items there is no type. -/
def dropping : Action TypedArray RuntimeError (Option Value) := do
  let last := (← state).items.back?.map .literal
  change fun a => { a with items := a.items.pop }
  if (← state).items.isEmpty then change fun a => { a with element := none }
  return last

variable (a : TypedArray) (value : Value)

theorem run_checking : (checking value).run a =
    match a.check value with
    | .ok _ => .done () a
    | .error e => .stopped e a := by
  unfold checking
  rw [run_bind, run_state]
  dsimp only
  cases a.check value <;> rfl

/-- The type of a value is claimed if the value can be added, and else nothing is changed. -/
theorem Homogeneous.run_claiming {a : TypedArray} (h : a.Homogeneous) (value : Value) :
    (claiming value).run a =
      match a.push value with
      | .ok _ => .done () { a with element := some value.type }
      | .error e => .stopped e a := by
  unfold claiming TypedArray.push
  rw [run_bind, run_state]
  by_cases hempty : a.items.isEmpty = true
  · cases value with
    | literal l => simp [hempty, Value.type, Value.literal?, l.isPrimitive_type]
    | sequence s => simp [hempty, Value.type, Value.literal?, ValueType.isPrimitive]
    | array b => simp [hempty, Value.type, Value.literal?, ValueType.isPrimitive]
  · obtain ⟨t, ht⟩ := h.exists_element (mt Array.isEmpty_iff.2 hempty)
    have helement := elementType_eq ht
    have hprimitive := (h.typed t ht).1
    simp only [hempty]
    cases value with
    | literal l =>
      by_cases htype : t = l.type
      · subst htype
        simp [run_checking, check, Value.type, Value.literal?, helement, ← ht]
      · simp [run_checking, check, Value.type, Value.literal?, helement, htype]
    | sequence s =>
      have hne : t ≠ .sequence := fun heq => by rw [heq] at hprimitive; cases hprimitive
      simp [run_checking, check, Value.type, Value.literal?, helement, hne]
    | array b =>
      have hne : t ≠ .array := fun heq => by rw [heq] at hprimitive; cases hprimitive
      simp [run_checking, check, Value.type, Value.literal?, helement, hne]

/-- **A value that is not added leaves the array as it was**, also the type of its items. -/
theorem Homogeneous.run_appending {a : TypedArray} (h : a.Homogeneous) (value : Value) :
    (appending value).run a = a.outcome (a.push value) := by
  unfold appending
  rw [run_bind, h.run_claiming]
  cases hpush : a.push value with
  | error e => rfl
  | ok b =>
    obtain ⟨l, rfl, -, rfl⟩ := push_eq_ok hpush
    rfl

/-- **A value that does not replace an item leaves the array as it was.** -/
theorem run_replacing (index : Nat) :
    (replacing index value).run a = a.outcome (a.set index value) := by
  unfold replacing TypedArray.set
  rw [run_bind, run_checking]
  cases a.check value with
  | error e => rfl
  | ok _ =>
    dsimp only
    unfold writing
    cases value.literal? <;> rfl

theorem run_dropping : dropping.run a = .done a.pop.1 a.pop.2 := by
  unfold dropping TypedArray.pop
  simp only [run_bind, run_state, run_change]
  split <;> rfl

/-- An array from which nothing can be taken is left as it was. -/
theorem Homogeneous.pop_eq_none {a : TypedArray} (h : a.Homogeneous) (hpop : a.pop.1 = none) :
    a.pop.2 = a := by
  have hitems : a.items = #[] := by
    unfold TypedArray.pop at hpop
    simpa using hpop
  have helement := h.free_iff.2 hitems
  cases a
  cases hitems
  cases helement
  rfl

end InPlace

end TypedArray

end Catena

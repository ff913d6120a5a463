import Catena.Loader

/-!
# What bindings become

How the bindings of a namespace change when a name is defined, which of them a copy of the public
members has, and how one namespace of a run changes while the others stay.
-/

namespace Catena

namespace OrderedMap

variable {α β : Type} [BEq α] [LawfulBEq α]

theorem lookup_insertEntry (entries : List (α × β)) (key key' : α) (value : β) :
    (insertEntry key value entries).lookup key' =
      if key' == key then some value else entries.lookup key' := by
  induction entries with
  | nil =>
    rw [insertEntry, List.lookup_cons]
    cases key' == key <;> rfl
  | cons entry rest ih =>
    unfold insertEntry
    by_cases h : key == entry.1
    · rw [if_pos h, List.lookup_cons, List.lookup_cons, eq_of_beq h]
      cases key' == entry.1 <;> rfl
    · rw [if_neg h, List.lookup_cons, List.lookup_cons, ih]
      by_cases k : key' == entry.1
      · have : ¬(key' == key) = true := fun e => h (by rw [← eq_of_beq e]; exact k)
        simp [k, this]
      · simp [k]

/-- A map with one more entry has it, and is otherwise as before. -/
@[simp] theorem get?_insert (m : OrderedMap α β) (key key' : α) (value : β) :
    (m.insert key value).get? key' = if key' == key then some value else m.get? key' :=
  lookup_insertEntry m.entries key key' value

omit [LawfulBEq α] in
/-- A key that is there keeps its place, and a new one comes last. -/
theorem keys_insert (m : OrderedMap α β) (key : α) (value : β) :
    (m.insert key value).keys = if m.keys.contains key then m.keys else m.keys ++ [key] := by
  obtain ⟨entries⟩ := m
  show (insertEntry key value entries).map (·.1) = _
  unfold keys
  dsimp only
  induction entries with
  | nil => rfl
  | cons entry rest ih =>
    unfold insertEntry
    rw [List.map_cons, List.contains_cons]
    by_cases h : key == entry.1
    · simp [h]
    · rw [if_neg h, List.map_cons, ih]
      cases hrest : (rest.map (·.1)).contains key <;> simp [h]

omit [LawfulBEq α] in
theorem mem_insertEntry {entries : List (α × β)} {key : α} {value : β} {entry : α × β}
    (h : entry ∈ insertEntry key value entries) : entry ∈ entries ∨ entry.2 = value := by
  induction entries with
  | nil =>
    rw [List.mem_singleton.1 h]
    exact Or.inr rfl
  | cons first rest ih =>
    unfold insertEntry at h
    split at h
    · rcases List.mem_cons.1 h with rfl | h
      · exact Or.inr rfl
      · exact Or.inl (List.mem_cons_of_mem _ h)
    · rcases List.mem_cons.1 h with rfl | h
      · exact Or.inl List.mem_cons_self
      · rcases ih h with h | h
        · exact Or.inl (List.mem_cons_of_mem _ h)
        · exact Or.inr h

/-- What a key is bound to stands in an entry. -/
theorem mem_of_get? {m : OrderedMap α β} {key : α} {value : β} (h : m.get? key = some value) :
    (key, value) ∈ m.entries := by
  obtain ⟨entries⟩ := m
  show (key, value) ∈ entries
  replace h : entries.lookup key = some value := h
  induction entries with
  | nil => simp at h
  | cons entry rest ih =>
    rw [List.lookup_cons] at h
    split at h
    · next hk =>
      cases h
      rw [eq_of_beq hk]
      exact List.mem_cons_self
    · exact List.mem_cons_of_mem _ (ih h)

end OrderedMap

namespace Namespace

@[simp] theorem get?_define (n : Namespace) (name name' : String) (b : Binding) (isPublic : Bool) :
    (n.define name b isPublic).get? name' = if name' == name then some b else n.get? name' :=
  OrderedMap.get?_insert n.bindings name name' b

theorem names_define (n : Namespace) (x : String) (b : Binding) (isPublic : Bool) :
    (n.define x b isPublic).names = if n.names.contains x then n.names else n.names ++ [x] :=
  OrderedMap.keys_insert n.bindings x b

@[simp] theorem get?_empty (name : String) : ({} : Namespace).get? name = none := rfl

theorem function?_eq_some_iff {n : Namespace} {name : String} {f : Function} :
    n.function? name = some f ↔ n.get? name = some (.function f) := by
  unfold function?
  split
  · next g h => rw [h]; simp
  · next h => exact ⟨nofun, fun hf => absurd hf (h f)⟩

theorem mem_published_define {n : Namespace} {name name' : String} {b : Binding} :
    name' ∈ (n.define name b true).published ↔ name' = name ∨ name' ∈ n.published := by
  unfold define
  simp only [Bool.not_true, Bool.false_eq_true, if_false]
  split
  · next h =>
    refine ⟨Or.inr, ?_⟩
    rintro (rfl | hn)
    · exact List.contains_iff_mem.1 h
    · exact hn
  · rw [List.mem_append, List.mem_singleton, or_comm]

theorem child_eq_ok_iff {n : Namespace} {name : String} {id : NamespaceId} :
    n.child name = .ok id ↔ n.get? name = some (.child id) := by
  unfold child
  split
  · next c hc => simp [hc]
  · next hother => exact iff_of_false nofun (hother id)

/-- A namespace is not found only because none is mounted under the name. -/
theorem child_error {n : Namespace} {name : String} {e : RuntimeError}
    (h : n.child name = .error e) : e = .invalidNamespace name := by
  unfold child at h
  split at h
  · cases h
  · cases h
    rfl

/-! ## The copy of the public members -/

/-- One name of the copy. -/
def publish (n copy : Namespace) (name : String) : Namespace :=
  match n.get? name with
  | some binding => copy.define name binding true
  | none => copy

theorem exported_eq (n : Namespace) : n.exported = n.published.foldl n.publish {} := rfl

theorem mem_published_foldl {n : Namespace} {name : String} (names : List String)
    {copy : Namespace} (hcopy : (copy.get? name).isSome → name ∈ copy.published)
    (h : ((names.foldl n.publish copy).get? name).isSome) :
    name ∈ (names.foldl n.publish copy).published := by
  induction names generalizing copy with
  | nil => exact hcopy h
  | cons first rest ih =>
    refine ih ?_ h
    unfold publish
    split
    · next b _ =>
      intro hsome
      rw [mem_published_define]
      by_cases k : name = first
      · exact Or.inl k
      · rw [get?_define, if_neg (by simpa using k)] at hsome
        exact Or.inr (hcopy hsome)
    · exact hcopy

/-- Everything that the copy binds is public in it. -/
theorem mem_published_exported {n : Namespace} {name : String}
    (h : (n.exported.get? name).isSome) : name ∈ n.exported.published :=
  mem_published_foldl n.published (by simp) h

end Namespace

namespace Namespaces

@[simp] theorem get_define_self (ns : Namespaces) {id : NamespaceId} (h : id < ns.spaces.size)
    (name : String) (b : Binding) (isPublic : Bool) :
    (ns.define id name b isPublic).get id = (ns.get id).define name b isPublic := by
  simp [define, update, get, Array.getD, Array.getElem_modify, h]

@[simp] theorem get_define_ne (ns : Namespaces) {id id' : NamespaceId} (h : id' ≠ id)
    (name : String) (b : Binding) (isPublic : Bool) :
    (ns.define id name b isPublic).get id' = ns.get id' := by
  simp [define, update, get, Array.getD, Array.getElem_modify, h.symm]

/-- Defining a name in a namespace that was never made changes nothing. -/
theorem get_define_of_le (ns : Namespaces) {id : NamespaceId} (h : ns.spaces.size ≤ id)
    (name : String) (b : Binding) (isPublic : Bool) (id' : NamespaceId) :
    (ns.define id name b isPublic).get id' = ns.get id' := by
  by_cases k : id' = id
  · subst k
    simp [define, update, get, Array.getD, Nat.not_lt.2 h]
  · exact ns.get_define_ne k name b isPublic

/-- A definition changes one name of one namespace. -/
theorem get?_define_of_ne (ns : Namespaces) {id id' : NamespaceId} {name name' : String}
    (h : id' = id → name' ≠ name) (b : Binding) (isPublic : Bool) :
    ((ns.define id name b isPublic).get id').get? name' = (ns.get id').get? name' := by
  by_cases hid : id' = id
  · subst hid
    by_cases hsize : id' < ns.spaces.size
    · rw [ns.get_define_self hsize, Namespace.get?_define, if_neg (by simpa using h rfl)]
    · rw [ns.get_define_of_le (Nat.not_lt.1 hsize)]
  · rw [ns.get_define_ne hid]

@[simp] theorem size_define (ns : Namespaces) (id : NamespaceId) (name : String) (b : Binding)
    (isPublic : Bool) : (ns.define id name b isPublic).spaces.size = ns.spaces.size := by
  simp [define, update]

@[simp] theorem get_fresh (ns : Namespaces) (id : NamespaceId) : ns.fresh.2.get id = ns.get id := by
  unfold fresh get
  simp only [Array.getD, Array.size_push]
  by_cases h : id < ns.spaces.size
  · simp [h, Nat.lt_succ_of_lt h, Array.getElem_push]
  · by_cases k : id = ns.spaces.size
    · subst k; simp
    · have above : ¬id < ns.spaces.size + 1 := fun hlt =>
        (Nat.lt_succ_iff_lt_or_eq.1 hlt).elim h k
      simp [h, above]

@[simp] theorem size_fresh (ns : Namespaces) : ns.fresh.2.spaces.size = ns.spaces.size + 1 := by
  simp [fresh]

/-! ## How namespaces are mounted in each other -/

/-- Every mounted namespace was made after the one that it is mounted in. -/
def Nested (ns : Namespaces) : Prop :=
  ∀ id name child, (ns.get id).get? name = some (.child child) →
    id < child ∧ child < ns.spaces.size

/-- What running code may do to the namespaces: none is unmade, and mounting stays in order. -/
structure Grows (ns ns' : Namespaces) : Prop where
  size : ns.spaces.size ≤ ns'.spaces.size
  nested : ns.Nested → ns'.Nested

theorem Grows.refl (ns : Namespaces) : ns.Grows ns :=
  ⟨Nat.le_refl _, id⟩

theorem Nested.define {ns : Namespaces} (h : ns.Nested) {id : NamespaceId} {b : Binding}
    (hb : ∀ child, b = .child child → id < child ∧ child < ns.spaces.size) (name : String)
    (isPublic : Bool) : (ns.define id name b isPublic).Nested := by
  intro id' name' child hchild
  rw [size_define]
  by_cases hlt : id < ns.spaces.size
  · by_cases hid : id' = id
    · subst hid
      rw [ns.get_define_self hlt, Namespace.get?_define] at hchild
      split at hchild
      · exact hb child (Option.some.inj hchild)
      · exact h id' name' child hchild
    · rw [ns.get_define_ne hid] at hchild
      exact h id' name' child hchild
  · rw [ns.get_define_of_le (Nat.not_lt.1 hlt)] at hchild
    exact h id' name' child hchild

/-- Binding a name to a function mounts nothing. -/
theorem grows_define_function (ns : Namespaces) (id : NamespaceId) (name : String) (f : Function)
    (isPublic : Bool) : ns.Grows (ns.define id name (.function f) isPublic) :=
  ⟨Nat.le_of_eq (ns.size_define id name _ isPublic).symm, fun h => h.define (by nofun) name isPublic⟩

theorem grows_fresh (ns : Namespaces) : ns.Grows ns.fresh.2 := by
  refine ⟨by simp, fun h id name child hchild => ?_⟩
  rw [get_fresh] at hchild
  rw [size_fresh]
  exact ⟨(h id name child hchild).1, Nat.lt_succ_of_lt (h id name child hchild).2⟩

/-- What mounting gives: the namespace that is mounted already, or a new one. -/
theorem mount_cases {ns ns' : Namespaces} {id child : NamespaceId} {name : String}
    (h : ns.mount id name = .ok (child, ns')) :
    ((ns.get id).get? name = some (.child child) ∧ ns' = ns) ∨
      ((ns.get id).get? name = none ∧ child = ns.spaces.size ∧
        ns' = ns.fresh.2.define id name (.child child) false) := by
  unfold mount at h
  split at h
  · cases hc : (ns.get id).child name with
    | error e => rw [hc] at h; cases h
    | ok c =>
      rw [hc] at h
      cases h
      exact Or.inl ⟨Namespace.child_eq_ok_iff.1 hc, rfl⟩
  · next hfree =>
    cases h
    refine Or.inr ⟨?_, rfl, rfl⟩
    unfold Namespace.isDefined OrderedMap.contains at hfree
    simpa [Namespace.get?] using hfree

/-- Mounting fails only if the name stands for something else. -/
theorem mount_error {ns : Namespaces} {id : NamespaceId} {name : String} {e : RuntimeError}
    (h : ns.mount id name = .error e) : e = .invalidNamespace name := by
  unfold mount at h
  split at h
  · cases hc : (ns.get id).child name with
    | error e' =>
      rw [hc] at h
      cases h
      exact Namespace.child_error hc
    | ok c => rw [hc] at h; cases h
  · cases h

theorem size_mount {ns ns' : Namespaces} {id child : NamespaceId} {name : String}
    (h : ns.mount id name = .ok (child, ns')) : ns.spaces.size ≤ ns'.spaces.size := by
  rcases mount_cases h with ⟨-, rfl⟩ | ⟨-, -, rfl⟩
  · exact Nat.le_refl _
  · rw [size_define, size_fresh]
    exact Nat.le_succ _

theorem Nested.mount {ns ns' : Namespaces} (hn : ns.Nested) {id child : NamespaceId}
    {name : String} (hid : id < ns.spaces.size) (h : ns.mount id name = .ok (child, ns')) :
    ns'.Nested ∧ (ns'.get id).get? name = some (.child child) := by
  rcases mount_cases h with ⟨hchild, rfl⟩ | ⟨-, rfl, rfl⟩
  · exact ⟨hn, hchild⟩
  · have hid' : id < ns.fresh.2.spaces.size := by
      rw [size_fresh]
      exact Nat.lt_succ_of_lt hid
    refine ⟨(ns.grows_fresh.nested hn).define ?_ name false, ?_⟩
    · intro child hchild
      cases hchild
      exact ⟨hid, by rw [size_fresh]; exact Nat.lt_succ_self _⟩
    · simp [get_define_self _ hid']

end Namespaces

end Catena

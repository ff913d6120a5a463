import Catena.Proofs.Evaluation.Stock
import Catena.Proofs.TypedArray

/-!
# Arrays in a run

Arrays stay homogeneous: in every state that a run comes to, the type that an array keeps is that of
all its items, wherever the array is (`Interpreter.HasArray`). What programs do to arrays are the
operations of `Catena.TypedArray`, and each of them makes homogeneous arrays of homogeneous ones; in
the states that runs come to (`Interpreter.Reachable`) there are no others.
-/

namespace Catena

/-! ## Where arrays are -/

/-- An array is in a state: it is on the stack, or a name stands for it, in a namespace or for those
who import the exports of a module. -/
inductive Interpreter.HasArray (s : Interpreter) (a : TypedArray) : Prop
  | stacked (h : .array a ∈ s.stack.items)
  | bound {id home : NamespaceId} {name : String}
    (h : (name, .function (.constant (.array a) home)) ∈ (s.spaces.get id).bindings.entries)
  | exported {m : Module} {home : NamespaceId} {name : String}
    (hm : .module m ∈ s.loaders.loaders)
    (h : (name, .function (.constant (.array a) home)) ∈ m.exports.bindings.entries)

/-- The discipline of homogeneous arrays; it allows all code. -/
def Discipline.homogeneous : Discipline where
  node _ := True
  array := TypedArray.Homogeneous
  error _ := True
  modules := True
  node_literal _ _ := trivial
  node_sequence _ _ _ := trivial
  node_array _ _ := trivial
  node_program _ := trivial
  array_ofLiterals := .of_ofLiterals
  array_push := .push
  array_set := .set
  array_pop := .pop
  error_of _ := trivial

namespace Discipline

theorem allowsCode_homogeneous (code : Code) : homogeneous.AllowsCode code :=
  Node.allIn_of_forall (fun _ => trivial) code

/-- Values are allowed if the arrays among them are homogeneous. -/
theorem allowsValue_homogeneous {value : Value} (h : ∀ a, value = .array a → a.Homogeneous) :
    homogeneous.AllowsValue value := by
  cases value with
  | literal l => exact trivial
  | sequence s => exact allowsCode_homogeneous s.body
  | array a => exact h a rfl

theorem alike_imports_homogeneous (m : Mark NodeId) (request : Import)
    (_ : homogeneous.node (.importing m request)) :
    homogeneous.Alike (Evaluation.importNames request) (Evaluation.importNames request)
      fun _ => True :=
  alike_importNames trivial fun _ => trivial

end Discipline

namespace Interpreter

open Evaluation Discipline

/-- The states that runs come to: from an interpreter in which nothing has been run yet, each state in
which a node is visited or that a visit leaves, and those that whole programs leave, whether they run
to their end or not. Between two programs there may be given another stack. -/
inductive Reachable : Interpreter → Prop
  | fresh {s : Interpreter} (h : Fresh s) : Reachable s
  | given {s : Interpreter} (h : Reachable s) (stack : Stack)
    (hstack : ∀ a, .array a ∈ stack.items → a.Homogeneous) : Reachable { s with stack }
  | visited {s : Interpreter} (h : Reachable s) {fuel : Nat} {scopes : ScopeTable}
    {p : Program NodeId} {v : Visit} (hv : v ∈ visited fuel scopes p s) : Reachable v.state
  | passed {s : Interpreter} (h : Reachable s) {fuel : Nat} {scopes : ScopeTable}
    {p : Program NodeId} {v : Visit} (hv : v ∈ Evaluation.visited fuel scopes p s) :
    Reachable v.outcome.state
  | left {s : Interpreter} (h : Reachable s) (fuel : Nat) (scopes : ScopeTable)
    (p : Program NodeId) : Reachable ((interpret fuel scopes p).run s).state

variable {s : Interpreter}

theorem Reachable.holds (h : s.Reachable) : homogeneous.Holds s := by
  induction h with
  | fresh h => exact h.holds _
  | given _ stack hstack ih =>
    refine ⟨fun value hvalue => allowsValue_homogeneous ?_, ih.spaces, ih.loaders⟩
    rintro a rfl
    exact hstack a hvalue
  | visited _ hv ih =>
    exact (allowed_visits alike_imports_homogeneous (holds_begun ih _ _) (allowsCode_homogeneous _)
      _ hv).1
  | @passed s _ fuel scopes p v hv ih =>
    obtain ⟨hstate, hnode⟩ := allowed_visits alike_imports_homogeneous (holds_begun ih scopes p)
      (allowsCode_homogeneous _) v hv
    exact (alike_step alike_imports_homogeneous v.fuel hnode v.state hstate).2.holds
  | left _ fuel scopes p ih =>
    exact holds_interpret trivial alike_imports_homogeneous ih fuel scopes (allowsCode_homogeneous _)

/-- Whatever a run comes to, its arrays are homogeneous. -/
theorem Reachable.homogeneous (h : s.Reachable) {a : TypedArray} (ha : s.HasArray a) :
    a.Homogeneous := by
  cases ha with
  | stacked hmem => exact h.holds.stack _ hmem
  | bound hmem => exact h.holds.spaces _ _ hmem
  | exported hm hmem => exact h.holds.loaders _ hm _ hmem

/-- **Arrays stay homogeneous.** In every state that a run comes to, whatever the program and whatever
values it was given, an array has the type `any` if and only if it is empty, and otherwise a type of
literals that all its items have. Arrays can be made of exactly those values that share such a type.
The operations on arrays keep this up; what they refuse leaves the array as it was, also where they are
done in place. -/
theorem arrays_homogeneous :
    (∀ s : Interpreter, s.Reachable → ∀ a, s.HasArray a →
      (a.elementType = .any ↔ a.items = #[]) ∧
      (a.items ≠ #[] → a.elementType.isPrimitive = true ∧
        ∀ l ∈ a.items.toList, l.type = a.elementType)) ∧
    (∀ values, (∃ a, TypedArray.ofValues values = .ok a) ↔
      values = [] ∨ ∃ t : ValueType, t.isPrimitive = true ∧ ∀ v ∈ values, v.type = t) ∧
    (∀ values a, TypedArray.ofValues values = .ok a →
      a.Homogeneous ∧ a.items.toList.map .literal = values) ∧
    ∀ a : TypedArray, a.Homogeneous →
      (∀ value b, a.push value = .ok b → b.Homogeneous) ∧
      (∀ value, (TypedArray.appending value).run a = a.outcome (a.push value)) ∧
      (∀ index value b, a.set index value = .ok b → b.Homogeneous) ∧
      (∀ index value, (TypedArray.replacing index value).run a = a.outcome (a.set index value)) ∧
      a.pop.2.Homogeneous ∧ TypedArray.dropping.run a = .done a.pop.1 a.pop.2 ∧
      (a.pop.1 = none → a.pop.2 = a) := by
  refine ⟨fun s hs a ha => ?_, TypedArray.exists_ofValues_iff, fun values a ha => ?_,
    fun a ha => ?_⟩
  · exact ⟨(hs.homogeneous ha).elementType_eq_any_iff, (hs.homogeneous ha).of_ne_empty⟩
  · exact ⟨.of_ofValues ha, TypedArray.items_of_ofValues ha⟩
  · exact ⟨fun _ _ => ha.push, ha.run_appending, fun _ _ _ => ha.set,
      fun index value => a.run_replacing value index, ha.pop, a.run_dropping, ha.pop_eq_none⟩

/-- An array of one string on the stack takes no boolean. -/
theorem arrays_homogeneous_string :
    let a : TypedArray := { element := some .string, items := #[.string "a"] }
    let s : Interpreter := { withNatives {} with stack := ⟨[.array a]⟩ }
    s.Reachable ∧ s.HasArray a ∧ a.elementType ≠ .any ∧
      (TypedArray.appending (.boolean true)).run a = .stopped (.wrongElement .string .boolean) a := by
  intro a s
  obtain ⟨hreached, -, hmade, hkept⟩ := arrays_homogeneous
  have ha : a.Homogeneous := (hmade [.string "a"] a rfl).1
  have hs : s.Reachable := by
    refine .given (.fresh (.withNatives {})) ⟨[.array a]⟩ fun b hb => ?_
    cases List.mem_singleton.1 hb
    exact ha
  have hasArray : s.HasArray a := .stacked List.mem_cons_self
  refine ⟨hs, hasArray, fun hany => ?_, (hkept a ha).2.1 (.boolean true)⟩
  cases (hreached s hs a hasArray).1.1 hany

end Interpreter

end Catena

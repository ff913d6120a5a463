import Catena.Proofs.Evaluation.Run
import Catena.Proofs.Evaluation.Sameness
import Catena.Proofs.TypedArray

/-!
# Currying is a delayed push

`sequences.curry` puts a node in front of the code of a sequence, and the node pushes what the value was
(`node_pushing`). So a sequence that has been curried with some values does in every state what the
sequence itself does with these values on top. Currying draws a number each time: the runs that a
program sees, with currying and without, differ in the numbers that are drawn from then on and in
nothing else (`EndAlike`).
-/

namespace Catena

open Catena.Action Catena.Eval

/-- Reading the items of an array again gives the array. -/
theorem TypedArray.Homogeneous.ofLiterals_items {a : TypedArray} (h : a.Homogeneous) :
    TypedArray.ofLiterals a.items.toList = .ok a := by
  obtain ⟨b, hb⟩ := h.uniform.exists_ofLiterals
  rw [hb]
  obtain ⟨element, ⟨items⟩⟩ := a
  cases items with
  | nil =>
    obtain rfl : element = none := h.free_iff.2 rfl
    cases hb
    rfl
  | cons first rest =>
    rw [ofLiterals_cons] at hb
    split at hb
    · cases hb
    · cases hb
      obtain ⟨t, ht⟩ := h.exists_element (by simp)
      obtain rfl : element = some t := ht
      rw [(h.typed t rfl).2 first List.mem_cons_self]

/-- Curries with one value after the other. -/
def Library.curries : Nat → Eval Unit
  | 0 => pure ()
  | n + 1 => do
    Library.curry
    Library.curries n

namespace Evaluation

variable {s : Interpreter} {q : Sequence} {value : Value} {values rest : List Value}

/-! ## One value -/

theorem exists_pushing (id : NodeId) (value : Value) : ∃ n, Library.pushing id value = .ok n := by
  cases value <;> exact ⟨_, rfl⟩

theorem run_popSequence (hitems : s.stack.items = .sequence q :: rest) :
    (onStack Stack.popSequence).run s = .done q { s with stack := ⟨rest⟩ } := by
  unfold onStack Stack.popSequence Stack.popAs Stack.pop
  dsimp only
  rw [hitems]
  rfl

/-- Currying puts the node of the value below the sequence in front of its code, and draws a number for
the node. -/
theorem run_curry (hitems : s.stack.items = .sequence q :: value :: rest) :
    ∃ n, Library.pushing s.nextId value = .ok n ∧
      Library.curry.run s = .done ()
        { s with
          stack := ⟨.sequence ⟨s.nextId, n :: q.body⟩ :: rest⟩
          nextId := s.nextId + 1 } := by
  obtain ⟨n, hn⟩ := exists_pushing s.nextId value
  refine ⟨n, hn, ?_⟩
  have hnode : ∀ u : Interpreter, (demand (Library.pushing s.nextId value)).run u = .done n u := by
    intro u
    rw [hn]
    rfl
  unfold Library.curry
  rw [run_bind, run_popSequence hitems]
  show (demand (Library.pushing s.nextId value) >>= _).run _ = _
  rw [run_bind, hnode]
  rfl

/-- The node of a value pushes it. -/
theorem node_pushing (harray : ∀ a, value = .array a → a.Homogeneous) {id : NodeId}
    {n : Node NodeId} (hn : Library.pushing id value = .ok n) (limit : Nat) (run : Code → Eval Unit) :
    node limit run n = push value := by
  cases value with
  | literal l =>
    cases hn
    rfl
  | sequence p =>
    cases hn
    rfl
  | array a =>
    cases hn
    show (do push (.array (← demand (TypedArray.ofLiterals a.items.toList)))) = push (.array a)
    rw [(harray a rfl).ofLiterals_items]
    rfl

/-- Code with the node of a value in front is the code run with the value on top. -/
theorem run_exec_pushing (harray : ∀ a, value = .array a → a.Homogeneous) {id : NodeId}
    {n : Node NodeId} (hn : Library.pushing id value = .ok n) (fuel : Nat) (code : Code)
    (u : Interpreter) :
    (exec (fuel + 1) (n :: code)).run u =
      (exec (fuel + 1) code).run { u with stack := u.stack.push value } := by
  have hstep : (step fuel (exec fuel) n).run u =
      .done () { u with stack := u.stack.push value } := by
    unfold step onFailure
    rw [node_pushing harray hn]
    rfl
  show (step fuel (exec fuel) n >>= fun _ => each (step fuel (exec fuel)) code).run u = _
  rw [run_bind, hstep]
  rfl

/-! ## Several values -/

/-- Currying with several values: the sequence does what it did before with the values on top. -/
theorem run_curries (hitems : s.stack.items = .sequence q :: (values ++ rest))
    (harray : ∀ a, .array a ∈ values → a.Homogeneous) :
    ∃ c : Sequence,
      (Library.curries values.length).run s = .done ()
        { s with
          stack := ⟨.sequence c :: rest⟩
          nextId := s.nextId + values.length } ∧
      ∀ fuel u, (exec (fuel + 1) c.body).run u =
        (exec (fuel + 1) q.body).run { u with stack := ⟨values ++ u.stack.items⟩ } := by
  induction values generalizing s q with
  | nil =>
    refine ⟨q, ?_, fun fuel u => rfl⟩
    have hstack : s.stack = ⟨.sequence q :: rest⟩ := congrArg Stack.mk hitems
    rw [← hstack]
    rfl
  | cons value values ih =>
    obtain ⟨n, hn, hcurry⟩ := run_curry hitems
    obtain ⟨c, hcurries, hbody⟩ := ih (s := { s with
      stack := ⟨.sequence ⟨s.nextId, n :: q.body⟩ :: (values ++ rest)⟩
      nextId := s.nextId + 1 }) rfl fun a ha => harray a (List.mem_cons_of_mem _ ha)
    refine ⟨c, ?_, fun fuel u => ?_⟩
    · have hids : s.nextId + (value :: values).length = s.nextId + 1 + values.length := by
        rw [List.length_cons, Nat.add_comm values.length, ← Nat.add_assoc]
      show (Library.curry >>= fun _ => Library.curries values.length).run s = _
      rw [run_bind, hcurry, hids]
      exact hcurries
    · have hvalue : ∀ a, value = .array a → a.Homogeneous := by
        rintro a rfl
        exact harray a List.mem_cons_self
      rw [hbody, run_exec_pushing hvalue hn]
      rfl

/-! ## The numbers drawn in between -/

/-- Runs that agree on the numbers drawn before `s` and may draw different ones from then on. -/
def renumbering (s : Interpreter) : Translation :=
  { s.register.translation s.register with
    marks :=
      { tag := fun i i' => i' = i ∨ s.nextId ≤ i ∧ s.nextId ≤ i'
        position := fun p p' => p' = p
        word := fun w w' => w' = w }
    supply := fun m m' => s.nextId ≤ m ∧ s.nextId ≤ m'
    drawn := fun id id' => id' = id
    position_synthetic := rfl
    word_refl := fun _ => rfl
    tag_of_supply := fun h => .inr h
    error_shape := fun e _ h => by rw [show _ = e.lexeme from h]; rfl }

theorem renumbering_codes (s : Interpreter) (c : Code) : (renumbering s).Codes c c := by
  have hreflexive : (renumbering s).marks.Reflexive :=
    ⟨fun _ => .inl rfl, fun _ => rfl, fun _ => rfl⟩
  exact ⟨Node.Like.selfAll hreflexive c (Node.allIn_of_forall (fun _ _ _ => ⟨rfl, rfl, rfl⟩) c),
    Node.allIn_of_forall (fun _ => trivial) c⟩

/-- Runs that end in the same way and with the same diagnostic, in states that differ only in the
numbers drawn since `s`. -/
def EndAlike (s : Interpreter) : (o o' : Outcome Interpreter Halt Unit) → Prop
  | .done _ t, .done _ t' => (renumbering s).correspondence.States t t'
  | .stopped (.failed d) t, .stopped (.failed d') t' =>
    d' = d ∧ (renumbering s).correspondence.States t t'
  | .stopped .exhausted t, .stopped .exhausted t' => (renumbering s).correspondence.States t t'
  | _, _ => False

/-- Diagnostics with equal causes at equal positions are equal. -/
theorem eq_of_alike {d d' : Diagnostic}
    (h : Diagnostic.Alike (· = ·) (fun p p' => p' = p) d d') : d' = d := by
  obtain ⟨⟨e, e', hcause, hcause', rfl⟩, hposition, hfile, hnotes⟩ := h
  have hposition' : d'.position = d.position := by
    generalize d.position = o, d'.position = o' at hposition ⊢
    cases hposition with
    | none => rfl
    | some h => rw [h]
  have hnotes' : d'.notes = d.notes := by
    generalize d.notes = ns, d'.notes = ns' at hnotes ⊢
    induction hnotes with
    | nil => rfl
    | cons hnote _ ih =>
      obtain ⟨rfl⟩ := hnote
      rw [ih]
  obtain ⟨cause, position, file, notes⟩ := d
  obtain ⟨cause', position', file', notes'⟩ := d'
  cases hcause
  cases hcause'
  cases hposition'
  cases hfile
  cases hnotes'
  rfl

theorem endAlike_of_outcomes {o o' : Outcome Interpreter Halt Unit}
    (h : (renumbering s).correspondence.Outcomes (fun _ _ => True) o o') : EndAlike s o o' := by
  rcases o with ⟨_, t⟩ | ⟨_ | _, t⟩ <;> rcases o' with ⟨_, t'⟩ | ⟨_ | _, t'⟩
  case done.done => exact h.2
  case stopped.failed.stopped.failed => exact ⟨eq_of_alike h.1, h.2⟩
  case stopped.exhausted.stopped.exhausted => exact h.2
  all_goals exact h

/-- A state beside itself after numbers have been drawn. -/
theorem states_drawn (s : Interpreter) (stack : Stack) {m : NodeId} (hm : s.nextId ≤ m) :
    (renumbering s).correspondence.States { s with stack } { s with stack, nextId := m } := by
  have hcode := renumbering_codes s
  have htag : ∀ i : NodeId, (renumbering s).marks.tag i i := fun _ => .inl rfl
  refine ⟨List.forall₂_same.2 fun v _ => Value.Alike.refl htag hcode v, rfl, rfl,
    ⟨Nat.le_refl _, hm⟩, ?_⟩
  exact
    { current := rfl
      file := rfl
      spaces := Namespaces.Alike.refl htag hcode s.spaces
      stock := trivial
      loaders := List.forall₂_same.2 fun l _ => Loader.Alike.refl htag hcode l
      scopes := rfl
      scopes' := rfl
      depth := rfl
      maxDepth := rfl }

theorem run_libraryExec (run : Code → Eval Unit) (hitems : s.stack.items = .sequence q :: rest) :
    (Library.exec run).run s = (run q.body).run { s with stack := ⟨rest⟩ } := by
  unfold Library.exec
  rw [run_bind, run_popSequence hitems]

/-- **Currying is a delayed push.** A sequence is curried with the values below it, none, one or more.
The sequence that this makes does, from every state, exactly what the sequence itself does with these
values on top, in their order. So running the curried sequence ends as running the sequence with the
values left where they are, up to the numbers that currying has drawn. All this with any fuel that is
enough to begin with the code. -/
theorem curries_delay (hitems : s.stack.items = .sequence q :: (values ++ rest))
    (harray : ∀ a, .array a ∈ values → a.Homogeneous) :
    (∃ c : Sequence,
      (Library.curries values.length).run s = .done ()
        { s with
          stack := ⟨.sequence c :: rest⟩
          nextId := s.nextId + values.length } ∧
      ∀ fuel u, (exec (fuel + 1) c.body).run u =
        (exec (fuel + 1) q.body).run { u with stack := ⟨values ++ u.stack.items⟩ }) ∧
    ∀ fuel, EndAlike s ((Library.exec (exec (fuel + 1))).run s)
      ((do Library.curries values.length; Library.exec (exec (fuel + 1))).run s) := by
  obtain ⟨c, hcurries, hbody⟩ := run_curries hitems harray
  refine ⟨⟨c, hcurries, hbody⟩, fun fuel => ?_⟩
  rw [run_libraryExec _ hitems, run_bind, hcurries]
  dsimp only
  rw [run_libraryExec _ rfl, hbody]
  exact endAlike_of_outcomes (Translation.pairs_run (fuel + 1) (renumbering_codes s q.body) _ _
    (states_drawn s ⟨values ++ rest⟩ (Nat.le_add_right _ _)))

/-- An empty block, curried with an empty array and a string, pushes both. -/
theorem curries_delay_emptyArray :
    let s : Interpreter := { stack := ⟨[.sequence ⟨0, []⟩, .array {}, .string "a"]⟩ }
    ∃ c : Sequence,
      (Library.curries 2).run s = .done () { stack := ⟨[.sequence c]⟩, nextId := 3 } ∧
      ∀ fuel u, (exec (fuel + 1) c.body).run u =
        .done () { u with stack := ⟨.array {} :: .string "a" :: u.stack.items⟩ } := by
  intro s
  have harray : ∀ a, .array a ∈ ([.array {}, .string "a"] : List Value) → a.Homogeneous := by
    intro a ha
    have hempty : TypedArray.ofLiterals [] = .ok {} := rfl
    rcases List.mem_cons.1 ha with h | h
    · cases h
      exact .of_ofLiterals hempty
    · cases List.mem_singleton.1 h
  have hitems : s.stack.items = .sequence ⟨0, []⟩ :: ([.array {}, .string "a"] ++ []) := rfl
  obtain ⟨⟨c, hcurries, hbody⟩, -⟩ := curries_delay hitems harray
  exact ⟨c, hcurries, hbody⟩

end Evaluation

end Catena

import Catena.Proofs.Evaluation.Blame

/-!
# The checks before the pops

Operators, comparisons, conditions, bindings and native functions look at the stack before they take
anything off. What they look for and what they then take off are written in different places; here
they are compared. A step is `Guarded` if on a stack that has passed the check it cannot fail for want
of a value or for the type of one, and a step is guarded if its parts are, each on what the part before
it leaves.

Code that a native function runs may do anything to the stack, so nothing is known after it.
`arrays.map` is the only function that takes a value off afterwards, and then there may be none.
-/

namespace Catena

open Catena.Eval

namespace Stack

/-- The values at the top have the types that are asked for. -/
inductive Meets : List ValueType → List Value → Prop
  | nil (values : List Value) : Meets [] values
  | cons {expected : ValueType} {types : List ValueType} {value : Value} {values : List Value}
    (h : expected.accepts value.type = true) (rest : Meets types values) :
    Meets (expected :: types) (value :: values)

theorem meets_iff {types : List ValueType} {values : List Value} :
    Meets types values ↔ atLeast types.length values = true ∧ accepts types values = true := by
  induction types generalizing values with
  | nil => exact ⟨fun _ => ⟨rfl, rfl⟩, fun _ => .nil values⟩
  | cons expected types ih =>
    cases values with
    | nil =>
      constructor
      · nofun
      · rintro ⟨hlength, -⟩
        cases hlength
    | cons value values =>
      rw [List.length_cons, atLeast, accepts, Bool.and_eq_true]
      constructor
      · rintro (_ | ⟨h, hrest⟩)
        exact ⟨(ih.1 hrest).1, h, (ih.1 hrest).2⟩
      · rintro ⟨hlength, h, hrest⟩
        exact .cons h (ih.2 ⟨hlength, hrest⟩)

/-- The check before a call is passed by the stacks that have the types at the top. -/
theorem requireShape_eq_ok_iff {s : Stack} {check : Check} {types : List ValueType}
    {lexeme : String} : s.requireShape check types lexeme = .ok () ↔ Meets types s.items := by
  unfold requireShape
  rw [meets_iff]
  cases atLeast types.length s.items <;> cases accepts types s.items <;> simp

theorem requireSize_eq_ok_iff {ε : Type} {s : Stack} {n : Nat} {cause : ε} :
    s.requireSize n cause = .ok () ↔ Meets (List.replicate n .any) s.items := by
  have haccepts : ∀ (n : Nat) (values : List Value),
      accepts (List.replicate n .any) values = true := by
    intro n values
    induction n generalizing values with
    | zero => rfl
    | succ n ih => cases values <;> simp [List.replicate_succ, accepts, ValueType.accepts, ih]
  unfold requireSize
  rw [meets_iff, List.length_replicate]
  cases atLeast n s.items <;> simp [haccepts]

end Stack

/-- What values of each type look like; there are none of type `any`. -/
theorem Value.exists_of_type (v : Value) :
    match v.type with
    | .number => ∃ n, v = .number n
    | .boolean => ∃ b, v = .boolean b
    | .string => ∃ s, v = .string s
    | .sequence => ∃ s, v = .sequence s
    | .array => ∃ a, v = .array a
    | .any => False := by
  cases v with
  | literal l => cases l <;> exact ⟨_, rfl⟩
  | sequence s => exact ⟨s, rfl⟩
  | array a => exact ⟨a, rfl⟩

/-- The errors that a check before an operation does not rule out. What is ruled out is that a value is
missing or has the wrong type, that a stream is missing, and that a value has no node that pushes it. -/
def RuntimeError.Admitted : RuntimeError → Prop
  | .underflow | .wrongType _ _ | .cannotCurry _ | .noOutput | .noInput | .formatUnderflow => False
  | _ => True

namespace Eval

variable {α β : Type} {before after between : List ValueType}

/-- On a stack with the types `before` at the top, a step leaves one with the types `after` at the top,
and it fails only with errors that are admitted. -/
def Guarded (before after : List ValueType) (m : Eval α) : Prop :=
  ∀ s : Interpreter, Stack.Meets before s.stack.items →
    match m.run s with
    | .done _ t => Stack.Meets after t.stack.items
    | .stopped (.failed d) _ => ∃ e, d.cause = .runtime e ∧ e.Admitted
    | .stopped .exhausted _ => True

namespace Guarded

theorem admitted {m : Eval α} (h : Guarded before after m) {s t : Interpreter} {d : Diagnostic}
    (hs : Stack.Meets before s.stack.items) (hfailed : m.run s = .stopped (.failed d) t) :
    ∃ e, d.cause = .runtime e ∧ e.Admitted := by
  have hend := h s hs
  rw [hfailed] at hend
  exact hend

theorem meets {m : Eval α} (h : Guarded before after m) {s t : Interpreter} {a : α}
    (hs : Stack.Meets before s.stack.items) (hdone : m.run s = .done a t) :
    Stack.Meets after t.stack.items := by
  have hend := h s hs
  rw [hdone] at hend
  exact hend

theorem bind {m : Eval α} {f : α → Eval β} (hm : Guarded before between m)
    (hf : ∀ a, Guarded between after (f a)) : Guarded before after (m >>= f) := by
  intro s hs
  have hend := hm s hs
  rw [Action.run_bind]
  cases hrun : m.run s with
  | done a t =>
    rw [hrun] at hend
    exact hf a t hend
  | stopped halt t =>
    rw [hrun] at hend
    cases halt <;> exact hend

protected theorem pure (a : α) : Guarded before before (pure a : Eval α) :=
  fun _ hs => hs

/-- After the last pop nothing needs to be known of the stack. -/
theorem finish {m : Eval α} (h : Guarded before after m) : Guarded before [] m := by
  intro s hs
  have hend := h s hs
  cases hrun : m.run s with
  | done a t => exact .nil _
  | stopped halt t =>
    rw [hrun] at hend
    cases halt <;> exact hend

theorem push (value : Value) : Guarded before [] (Eval.push value) :=
  fun _ _ => .nil _

theorem state : Guarded before before (Action.state : Eval Interpreter) :=
  fun _ hs => hs

theorem freshId : Guarded before before Eval.freshId :=
  fun _ hs => hs

theorem draw : Guarded before before Library.draw :=
  fun _ hs => hs

theorem fail {e : RuntimeError} (h : e.Admitted) : Guarded before after (Eval.fail e : Eval α) :=
  fun _ _ => ⟨e, rfl, h⟩

theorem demand {x : Except RuntimeError α} (h : ∀ e, x = .error e → e.Admitted) :
    Guarded before before (Eval.demand x) := by
  cases x with
  | ok a => exact Guarded.pure a
  | error e => exact fail (h e rfl)

theorem onConsole {op : Console → Except Fault α × Console} {error : Fault → RuntimeError}
    (h : ∀ fault, (error fault).Admitted) : Guarded before before (Eval.onConsole op error) := by
  intro s hs
  unfold Eval.onConsole
  dsimp only
  cases op s.console with
  | mk result console =>
    cases result with
    | ok a => exact hs
    | error fault => exact ⟨_, rfl, h fault⟩

/-! ### Pops -/

theorem pop {expected : ValueType} {types : List ValueType} :
    Guarded (expected :: types) types (onStack Stack.pop) := by
  rintro ⟨⟨items⟩⟩ hs
  cases hs with
  | cons _ hrest => exact hrest

/-- A type other than `any` accepts the values that have it. -/
theorem type_of_accepts {expected : ValueType} {v : Value} (hany : expected ≠ .any)
    (h : expected.accepts v.type = true) : v.type = expected := by
  unfold ValueType.accepts at h
  rw [Bool.or_eq_true, beq_iff_eq, beq_iff_eq] at h
  exact (h.resolve_left hany).symm

/-- A typed pop is guarded if it reads every value of its type. -/
theorem popAs {expected : ValueType} {types : List ValueType} {read? : Value → Option α}
    (hany : expected ≠ .any) (h : ∀ v : Value, v.type = expected → ∃ a, read? v = some a) :
    Guarded (expected :: types) types (onStack (Stack.popAs expected read?)) := by
  rintro ⟨⟨items⟩⟩ hs
  cases hs with
  | @cons _ _ value values haccepts hrest =>
    obtain ⟨a, ha⟩ := h value (type_of_accepts hany haccepts)
    simp only [onStack, Stack.popAs, Stack.pop, ha]
    exact hrest

variable {types : List ValueType}

theorem popNumber : Guarded (.number :: types) types (onStack Stack.popNumber) := by
  refine popAs nofun fun v h => ?_
  have hv := v.exists_of_type
  rw [h] at hv
  obtain ⟨n, rfl⟩ := hv
  exact ⟨n, rfl⟩

theorem popBoolean : Guarded (.boolean :: types) types (onStack Stack.popBoolean) := by
  refine popAs nofun fun v h => ?_
  have hv := v.exists_of_type
  rw [h] at hv
  obtain ⟨b, rfl⟩ := hv
  exact ⟨b, rfl⟩

theorem popString : Guarded (.string :: types) types (onStack Stack.popString) := by
  refine popAs nofun fun v h => ?_
  have hv := v.exists_of_type
  rw [h] at hv
  obtain ⟨text, rfl⟩ := hv
  exact ⟨text, rfl⟩

theorem popSequence : Guarded (.sequence :: types) types (onStack Stack.popSequence) := by
  refine popAs nofun fun v h => ?_
  have hv := v.exists_of_type
  rw [h] at hv
  obtain ⟨sequence, rfl⟩ := hv
  exact ⟨sequence, rfl⟩

theorem popArray : Guarded (.array :: types) types (onStack Stack.popArray) := by
  refine popAs nofun fun v h => ?_
  have hv := v.exists_of_type
  rw [h] at hv
  obtain ⟨array, rfl⟩ := hv
  exact ⟨array, rfl⟩

/-! ### Checks -/

theorem admitted_of_requireShape {s : Stack} {check : Check} {types : List ValueType} {lexeme : String}
    {e : RuntimeError} (h : s.requireShape check types lexeme = .error e) : e.Admitted := by
  unfold Stack.requireShape at h
  split at h
  · cases h
    trivial
  · split at h <;> cases h
    trivial

/-- A check makes its types known. -/
theorem requireShape (check : Check) (types : List ValueType) (lexeme : String) :
    Guarded before types (Eval.requireShape check types lexeme) := by
  intro s _
  rw [Evaluation.run_requireShape]
  cases h : s.stack.requireShape check types lexeme with
  | ok _ => exact Stack.requireShape_eq_ok_iff.1 h
  | error e => exact ⟨e, rfl, admitted_of_requireShape h⟩

end Guarded

end Eval

open Eval

/-! ## The native functions -/

namespace Library

variable {limit : Nat} {run : Code → Eval Unit}

theorem guarded_write {types : List ValueType} {access : Access} (h : access.output = true)
    (text : String) : Guarded types types (write access text) := by
  unfold write
  rw [if_pos h]
  exact .onConsole fun _ => trivial

theorem guarded_readLine {types : List ValueType} {access : Access} (h : access.input = true) :
    Guarded types types (readLine access) := by
  unfold readLine
  rw [if_pos h]
  exact .bind (.onConsole fun _ => trivial) fun _ => .pure _

theorem guarded_ask : Guarded [.string] [] (ask .dialogue) :=
  .bind .popString fun _ => .bind (guarded_write rfl _) fun _ => guarded_readLine rfl

theorem guarded_print (ending : String) : Guarded [.any] [] (print .printing ending) :=
  .bind .pop fun _ => guarded_write rfl _

theorem guarded_changeString (f : String → String) : Guarded [.string] [] (changeString f) :=
  .bind .popString fun _ => .push _

theorem pushing_ne_error (id : NodeId) (value : Value) (e : RuntimeError) :
    pushing id value ≠ .error e := by
  cases value <;> nofun

theorem admitted_of_push {a : TypedArray} {value : Value} {e : RuntimeError}
    (h : a.push value = .error e) : e.Admitted := by
  obtain rfl | ⟨found, rfl⟩ := TypedArray.push_error h <;> trivial

theorem admitted_of_set {a : TypedArray} {index : Nat} {value : Value} {e : RuntimeError}
    (h : a.set index value = .error e) : e.Admitted := by
  rw [TypedArray.set_error h]
  trivial

/-- **What a native function asks for is what it takes off**, if it runs no code: on a stack with the
types of its entry, and with the streams of its entry, no pop fails. -/
theorem guarded_perform {f : Native} (hcode : f.runsCode = false) (hformat : f ≠ .format) :
    Guarded f.entry.pre [] (perform limit run f.entry.access f) := by
  cases f with
  | exec | repeated | arrayMap => cases hcode
  | format => exact absurd rfl hformat
  | dup => exact .bind .pop fun _ => .bind (.push _) fun _ => .push _
  | dup2 =>
    exact .bind .pop fun _ => .bind .pop fun _ => .bind (.push _) fun _ => .bind (.push _) fun _ =>
      .bind (.push _) fun _ => .push _
  | discard => exact .bind .pop fun _ => .pure ()
  | swap => exact .bind .pop fun _ => .bind .pop fun _ => .bind (.push _) fun _ => .push _
  | rotate =>
    exact .bind .pop fun _ => .bind .pop fun _ => .bind .pop fun _ => .bind (.push _) fun _ =>
      .bind (.push _) fun _ => .push _
  | print => exact guarded_print ""
  | println => exact guarded_print "\n"
  | inputNumber =>
    refine .bind guarded_ask fun line => ?_
    split
    · exact .push _
    · exact .fail trivial
  | inputString => exact .bind guarded_ask fun _ => .push _
  | curry =>
    refine .bind .popSequence fun _ => .bind .pop fun value => .bind .freshId fun id => ?_
    exact .bind (.demand fun e he => absurd he (pushing_ne_error id value e)) fun _ =>
      .bind .freshId fun _ => .push _
  | arrayLength => exact .bind .pop fun _ => .bind (.push _) fun _ => .push _
  | arrayPush =>
    exact .bind .pop fun _ => .bind .popArray fun _ => .bind (.demand fun _ => admitted_of_push)
      fun _ => .push _
  | arrayPop =>
    refine .bind .popArray fun array => ?_
    split
    · exact .bind (.push _) fun _ => .push _
    · exact .bind (.push _) fun _ => .fail trivial
  | lower => exact guarded_changeString Text.toLower
  | upper => exact guarded_changeString Text.toUpper
  | reverse => exact guarded_changeString reverseText
  | random => exact .bind .popNumber fun _ => .bind .popNumber fun _ => .bind .draw fun _ => .push _
  | floor => exact .bind .popNumber fun _ => .push _
  | printStack => exact .bind .state fun _ => guarded_write rfl _
  | printArray => exact .bind .state fun _ => (guarded_write rfl _).finish

end Library

namespace Evaluation

/-! ## Functions that run code -/

section Code

variable {limit : Nat} {run : Code → Eval Unit} {s t : Interpreter} {d : Diagnostic}

/-- All the code that was started has come to its end. -/
def Ended (run : Code → Eval Unit) (sts : List Start) : Prop :=
  ∀ start ∈ sts, ∃ t, (run start.code).run start.state = .done () t

theorem failed_bind {α β : Type} {m : Eval α} {f : α → Eval β}
    (h : (m >>= f).run s = .stopped (.failed d) t) :
    m.run s = .stopped (.failed d) t ∨
      ∃ a u, m.run s = .done a u ∧ (f a).run u = .stopped (.failed d) t := by
  rw [Action.run_bind] at h
  cases hrun : m.run s with
  | done a u =>
    rw [hrun] at h
    exact .inr ⟨a, u, rfl, h⟩
  | stopped halt u =>
    rw [hrun] at h
    cases h
    exact .inl rfl

/-- If a step fails that starts with a guarded one, the error is admitted or comes from the rest. -/
theorem failed_guarded_bind {α β : Type} {before between : List ValueType} {m : Eval α}
    {f : α → Eval β} (hm : Guarded before between m) (hs : Stack.Meets before s.stack.items)
    (hfailed : (m >>= f).run s = .stopped (.failed d) t) :
    (∃ e, d.cause = .runtime e ∧ e.Admitted) ∨
      ∃ a u, m.run s = .done a u ∧ Stack.Meets between u.stack.items ∧
        (f a).run u = .stopped (.failed d) t := by
  rcases failed_bind hfailed with hfirst | ⟨a, u, hdone, hrest⟩
  · exact .inl (hm.admitted hs hfirst)
  · exact .inr ⟨a, u, hdone, hm.meets hs hdone, hrest⟩

theorem following_of_done {α β : Type} {m : Eval α} {k : α → Interpreter → List β} {a : α}
    (h : m.run s = .done a t) : following m k s = k a t := by
  rw [following, h, followed]

/-- A loop fails only if a round does. -/
theorem not_failed_rounds {body : Code} {times : Float}
    (hended : Ended run (roundStarts run body limit times s)) :
    (Library.rounds (run body) limit times).run s ≠ .stopped (.failed d) t := by
  induction limit generalizing times s with
  | zero =>
    unfold Library.rounds
    split <;> (intro hfailed; cases hfailed)
  | succ limit ih =>
    unfold Library.rounds
    unfold roundStarts at hended
    split at hended
    · next hpositive =>
      obtain ⟨⟨u, hu⟩, hrest⟩ := List.forall_mem_cons.1 hended
      rw [following_of_done hu] at hrest
      rw [if_pos hpositive, Action.run_bind, hu]
      exact ih hrest
    · next hpositive =>
      rw [if_neg hpositive]
      intro hfailed
      cases hfailed

/-- The code that was started last has left no value. -/
def LeftEmpty (run : Code → Eval Unit) (sts : List Start) : Prop :=
  ∃ start t, sts.getLast? = some start ∧ (run start.code).run start.state = .done () t ∧
    t.stack.items = []

theorem LeftEmpty.cons {start : Start} {sts : List Start} (h : LeftEmpty run sts) :
    LeftEmpty run (start :: sts) := by
  obtain ⟨last, t, hlast, hrun, hempty⟩ := h
  refine ⟨last, t, ?_, hrun, hempty⟩
  rw [List.getLast?_cons, hlast]
  rfl

/-- A sequence is used on the items of an array until it leaves no value, or one that does not go with
the others. -/
theorem failed_mapItems {body : Code} {items : List Literal} {array : TypedArray} {index : Nat}
    (hended : Ended run (itemStarts run body array index items s))
    (hfailed : (Library.mapItems (run body) array index items).run s = .stopped (.failed d) t) :
    ∃ e, d.cause = .runtime e ∧
      (e.Admitted ∨ e = .underflow ∧ LeftEmpty run (itemStarts run body array index items s)) := by
  induction items generalizing array index s with
  | nil => cases hfailed
  | cons item rest ih =>
    have hpush : (push (.literal item)).run s =
      .done () { s with stack := s.stack.push (.literal item) } := rfl
    unfold itemStarts at hended ⊢
    rw [following_of_done hpush] at hended ⊢
    obtain ⟨⟨u, hu⟩, hrest⟩ := List.forall_mem_cons.1 hended
    rw [following_of_done hu] at hrest ⊢
    unfold Library.mapItems at hfailed
    rw [Action.run_bind, hpush] at hfailed
    dsimp only at hfailed
    rw [Action.run_bind, hu] at hfailed
    dsimp only at hfailed
    rcases failed_bind hfailed with hpop | ⟨mapped, w, hpop, hfailed⟩
    · cases hitems : u.stack.items with
      | nil =>
        simp only [onStack, Stack.pop, hitems] at hpop
        cases hpop
        refine ⟨_, rfl, .inr ⟨rfl, ⟨_, u, ?_, hu, hitems⟩⟩⟩
        simp [following, followed, onStack, Stack.pop, hitems]
      | cons value values =>
        simp only [onStack, Stack.pop, hitems] at hpop
        cases hpop
    rw [following_of_done hpop] at hrest ⊢
    rcases failed_bind hfailed with hset | ⟨array', x, hset, hfailed⟩
    · have hguarded : Guarded [] [] (demand (array.set index mapped)) :=
        .demand fun _ => Library.admitted_of_set
      obtain ⟨e, he, hadmitted⟩ := hguarded.admitted (.nil _) hset
      exact ⟨e, he, .inl hadmitted⟩
    rw [following_of_done hset] at hrest ⊢
    obtain ⟨e, he, hcases⟩ := ih hrest hfailed
    exact ⟨e, he, hcases.imp_right (And.imp_right LeftEmpty.cons)⟩

/-- Formatting fails only for want of values to insert; the template itself is there. -/
theorem failed_format (hs : Stack.Meets [.string] s.stack.items)
    (hfailed : Library.format.run s = .stopped (.failed d) t) :
    d.cause = .runtime .formatUnderflow ∧ ∃ template values,
      s.stack.items = .string template :: values ∧ Library.fill 0 template.toList values = none := by
  cases hitems : s.stack.items with
  | nil => rw [hitems] at hs; cases hs
  | cons value values =>
    rw [hitems] at hs
    obtain ⟨template, rfl⟩ : ∃ template, value = .string template := by
      cases hs with
      | cons haccepts _ =>
        have hvalue := value.exists_of_type
        rwa [Guarded.type_of_accepts (by decide) haccepts] at hvalue
    rcases failed_bind hfailed with hfailed | ⟨a, u, -, hpush⟩
    · simp only [onStack, Library.formatTop, hitems] at hfailed
      split at hfailed
      · cases hfailed
      · next hresult =>
        split at hresult
        · cases hresult
        · next hfill =>
          cases hresult
          cases hfailed
          exact ⟨rfl, template, values, rfl, hfill⟩
    · cases hpush

/-- **A native function fails by itself only as follows**, where the stack has the types of its entry and
the code that it starts comes to its end: with an error that no check rules out, or `arrays.map` finds
no value after its sequence, or `strings.sformat` finds too few to insert. -/
theorem failed_native {f : Native} (hs : Stack.Meets f.entry.pre s.stack.items)
    (hended : Ended run (nativeStarts limit run f s))
    (hfailed : (Library.perform limit run f.entry.access f).run s = .stopped (.failed d) t) :
    ∃ e, d.cause = .runtime e ∧ (e.Admitted ∨
      e = .underflow ∧ f = .arrayMap ∧ LeftEmpty run (nativeStarts limit run f s) ∨
      e = .formatUnderflow ∧ f = .format ∧ ∃ template values,
        s.stack.items = .string template :: values ∧
          Library.fill 0 template.toList values = none) := by
  by_cases hcode : f.runsCode = true
  · cases f with
    | exec =>
      rcases failed_guarded_bind .popSequence hs hfailed with
        ⟨e, he, hadmitted⟩ | ⟨sequence, u, hpop, -, hfailed⟩
      · exact ⟨e, he, .inl hadmitted⟩
      have hstarts : nativeStarts limit run .exec s = [⟨.sequence, sequence.body, u⟩] :=
        following_of_done hpop
      rw [hstarts] at hended
      obtain ⟨w, hw⟩ := hended _ (List.mem_singleton_self _)
      rw [hw] at hfailed
      cases hfailed
    | repeated =>
      rcases failed_guarded_bind .popSequence hs hfailed with
        ⟨e, he, hadmitted⟩ | ⟨sequence, u, hpop, hu, hfailed⟩
      · exact ⟨e, he, .inl hadmitted⟩
      rcases failed_guarded_bind .popNumber hu hfailed with
        ⟨e, he, hadmitted⟩ | ⟨times, w, hpop', -, hfailed⟩
      · exact ⟨e, he, .inl hadmitted⟩
      have hstarts : nativeStarts limit run .repeated s =
          roundStarts run sequence.body limit times w :=
        (following_of_done hpop).trans (following_of_done hpop')
      rw [hstarts] at hended
      exact absurd hfailed (not_failed_rounds hended)
    | arrayMap =>
      rcases failed_guarded_bind .popSequence hs hfailed with
        ⟨e, he, hadmitted⟩ | ⟨sequence, u, hpop, hu, hfailed⟩
      · exact ⟨e, he, .inl hadmitted⟩
      rcases failed_guarded_bind .popArray hu hfailed with
        ⟨e, he, hadmitted⟩ | ⟨array, w, hpop', -, hfailed⟩
      · exact ⟨e, he, .inl hadmitted⟩
      have hstarts : nativeStarts limit run .arrayMap s =
          itemStarts run sequence.body array 0 array.items.toList w :=
        (following_of_done hpop).trans (following_of_done hpop')
      rw [hstarts] at hended ⊢
      rcases failed_bind hfailed with hmap | ⟨mapped, x, -, hpush⟩
      · obtain ⟨e, he, hcases⟩ := failed_mapItems hended hmap
        exact ⟨e, he, hcases.imp_right fun ⟨hunderflow, hempty⟩ => .inl ⟨hunderflow, rfl, hempty⟩⟩
      · cases hpush
    | _ => cases hcode
  · by_cases hformat : f = .format
    · subst hformat
      obtain ⟨he, hfill⟩ := failed_format hs hfailed
      exact ⟨_, he, .inr (.inr ⟨rfl, rfl, hfill⟩)⟩
    · obtain ⟨e, he, hadmitted⟩ :=
        (Library.guarded_perform (Bool.eq_false_iff.2 hcode) hformat).admitted hs hfailed
      exact ⟨e, he, .inl hadmitted⟩

end Code

/-! ## Nodes -/

section Nodes

variable {s : Interpreter}

theorem guarded_arithmetic (op : ArithmeticOp) (lexeme : String) :
    Guarded [] [] (arithmetic op lexeme) := by
  refine .bind (.requireShape .pre numberOperands lexeme) fun _ => .bind .popNumber fun right =>
    .bind .popNumber fun left => .bind (.demand fun e he => ?_) fun _ => .push _
  unfold calculate at he
  cases op with
  | add | subtract | multiply => cases he
  | divide | modulo =>
    dsimp only at he
    split at he <;> cases he
    trivial

theorem admitted_of_compareLiterals {op : ComparisonOp} {left right : Literal} {e : RuntimeError}
    (h : compareLiterals op left right = .error e) : e.Admitted := by
  cases left <;> cases right <;> cases op <;> cases h <;> trivial

theorem admitted_of_compareValues {op : ComparisonOp} {left right : Value} {e : RuntimeError}
    (h : compareValues op left right = .error e) : e.Admitted := by
  unfold compareValues at h
  split at h
  · exact admitted_of_compareLiterals h
  · cases h
    trivial

theorem guarded_comparison (op : ComparisonOp) : Guarded [] [] (comparison op) := by
  have hsize : Guarded [] [.any, .any]
      (Action.state >>= fun s => demand (s.stack.requireSize 2 .comparisonArity)) := by
    intro s _
    rw [Action.run_bind, Action.run_state]
    dsimp only
    cases h : s.stack.requireSize 2 RuntimeError.comparisonArity with
    | ok _ => exact Stack.requireSize_eq_ok_iff.1 h
    | error e =>
      unfold Stack.requireSize at h
      split at h <;> cases h
      exact ⟨_, rfl, trivial⟩
  refine hsize.bind (f := fun _ => onStack Stack.pop >>= fun right => onStack Stack.pop >>= fun left =>
    demand (compareValues op left right) >>= fun b => push (.boolean b)) fun _ => ?_
  exact .bind .pop fun _ => .bind .pop fun _ => .bind (.demand fun _ => admitted_of_compareValues)
    fun _ => .push _

theorem guarded_branch (lexeme : String) (form : Condition) : Guarded [] [] (branch lexeme form) := by
  cases form with
  | branched =>
    exact .bind (.requireShape .pre branchedOperands lexeme) fun _ => .bind .popSequence fun _ =>
      .bind .popSequence fun _ => .bind .popBoolean fun _ => .pure _
  | single =>
    exact .bind (.requireShape .pre singleOperands lexeme) fun _ => .bind .popSequence fun _ =>
      .bind .popBoolean fun _ => .pure _

theorem guarded_bindValue (id : NodeId) (name : String) (isPublic : Bool) :
    Guarded [] [] (bindValue id name isPublic) :=
  .bind (.requireShape .pre [.any] name) fun _ => .bind .pop fun _ => .bind .state fun _ =>
    .bind (fun _ hs => hs) fun _ _ hs => hs

theorem guarded_defineFunction (signature : Signature) (body : Code) :
    Guarded [] [] (defineFunction signature body) := by
  refine .bind .state fun s => ?_
  split
  · exact .fail trivial
  · exact fun _ hs => hs

theorem guarded_importNames (request : Import) : Guarded [] [] (importNames request) := by
  intro s hs
  rw [run_importNames]
  cases h : imported s request with
  | ok spaces => exact hs
  | error e =>
    refine ⟨e, rfl, ?_⟩
    obtain ⟨-, rfl⟩ | ⟨-, hmount⟩ | ⟨-, -, target, -, -, rfl⟩ := imported_error_cases h
    · trivial
    · rw [Namespaces.mount_error hmount]
      trivial
    · trivial

theorem guarded_array (items : List Literal) :
    Guarded [] [] (do push (.array (← demand (TypedArray.ofLiterals items)))) := by
  refine .bind (.demand fun e he => ?_) fun _ => .push _
  rw [TypedArray.ofLiterals_error he]
  trivial

theorem admitted_of_lookUp {qualifier : Option Token} {name : String} {e : RuntimeError}
    (h : lookUp s qualifier name = .error e) : e.Admitted := by
  obtain ⟨token, -, rfl⟩ | rfl := error_of_lookUp h <;> trivial

end Nodes

/-! ## Visits -/

/-- A function as the loaders serve it: a native one may use the streams of its entry. -/
def Served : Function → Prop
  | .native function access => access = function.entry.access
  | _ => True

/-- What a visit may raise: an error that no check rules out, or want of a value where only the course of
the run decides whether there is one. `arrays.map` takes a value off after the sequence that it was
given, and `strings.sformat` takes the values to insert from below the template. -/
inductive Visit.MayRaise (v : Visit) : RuntimeError → Prop
  | admitted {e : RuntimeError} (h : e.Admitted) : v.MayRaise e
  | unmapped {access : Access} (hcalls : Calls v.state v.node (.native .arrayMap access))
    (hempty : LeftEmpty (exec v.fuel) v.starts) : v.MayRaise .underflow
  | unfilled {access : Access} {template : String} {values : List Value}
    (hcalls : Calls v.state v.node (.native .format access))
    (hitems : v.state.stack.items = .string template :: values)
    (hfill : Library.fill 0 template.toList values = none) : v.MayRaise .formatUnderflow

section Visits

variable {fuel : Nat} {s t : Interpreter} {d : Diagnostic}

theorem stack_enter (f : Function) (s : Interpreter) : (enter f s).stack = s.stack := by
  unfold enter
  split <;> rfl

theorem failed_onFailure {α : Type} {m : Eval α} {f : Option String → Diagnostic → Diagnostic}
    (hcause : ∀ file d, (f file d).cause = d.cause)
    (h : (onFailure f m).run s = .stopped (.failed d) t) :
    ∃ d', m.run s = .stopped (.failed d') t ∧ d'.cause = d.cause := by
  unfold onFailure at h
  dsimp only at h
  split at h
  · cases h
  · next d' u hm =>
    cases h
    exact ⟨d', hm, (hcause _ _).symm⟩
  · cases h

/-- A function that is performed on a stack with the types that it asks for. -/
theorem failed_perform {ways : List Way} {n : Node NodeId} {f : Function} (hserved : Served f)
    (hcalls : Calls s n f) (hshape : Stack.Meets f.pre s.stack.items)
    (hstarts : starts fuel (exec fuel) s n = functionStarts fuel (exec fuel) f (enter f s))
    (hended : Ended (exec fuel) (starts fuel (exec fuel) s n))
    (hfailed : (perform fuel (exec fuel) f).run (enter f s) = .stopped (.failed d) t) :
    ∃ e, d.cause = .runtime e ∧ Visit.MayRaise ⟨n, s, ways, fuel⟩ e := by
  rw [hstarts] at hended
  cases f with
  | constant value home => cases hfailed
  | defined definition =>
    obtain ⟨u, hu⟩ := hended _ (List.mem_singleton_self _)
    rw [show perform fuel (exec fuel) (.defined definition) = exec fuel definition.body from rfl, hu]
      at hfailed
    cases hfailed
  | native function access =>
    cases hserved
    rw [← stack_enter (.native function function.entry.access) s] at hshape
    obtain ⟨e, he, hadmitted | ⟨rfl, rfl, hempty⟩ | ⟨rfl, rfl, template, values, hitems, hfill⟩⟩ :=
      failed_native hshape hended hfailed
    · exact ⟨e, he, .admitted hadmitted⟩
    · refine ⟨_, he, .unmapped hcalls ?_⟩
      unfold Visit.starts
      rw [hstarts]
      exact hempty
    · rw [stack_enter] at hitems
      exact ⟨_, he, .unfilled hcalls hitems hfill⟩

theorem failed_callName {ways : List Way} {m : Mark NodeId} {qualifier : Option Token} {name : String}
    (hserved : ∀ f, lookUp s qualifier (s.scopes.nameOf m.tag name) = .ok f → Served f)
    (hended : Ended (exec fuel) (starts fuel (exec fuel) s (.identifier m qualifier name)))
    (hfailed : (callName fuel (exec fuel) m qualifier name).run s = .stopped (.failed d) t) :
    ∃ e, d.cause = .runtime e ∧ Visit.MayRaise ⟨.identifier m qualifier name, s, ways, fuel⟩ e := by
  rw [run_callName] at hfailed
  cases hf : lookUp s qualifier (s.scopes.nameOf m.tag name) with
  | error e =>
    rw [hf] at hfailed
    cases hfailed
    exact ⟨e, rfl, .admitted (admitted_of_lookUp hf)⟩
  | ok f =>
    rw [hf] at hfailed
    obtain ⟨d, hfailed, hcause⟩ :=
      failed_onFailure (fun file d => d.cause_throughCall (site m qualifier) file) hfailed
    rw [← hcause]
    rw [run_invoke] at hfailed
    have hcallee := callee?_eq (m := m) hf
    cases hshape : s.stack.requireShape .pre f.pre m.token.lexeme with
    | error e =>
      rw [hshape] at hfailed
      cases hfailed
      exact ⟨e, rfl, .admitted (Guarded.admitted_of_requireShape hshape)⟩
    | ok _ =>
      rw [hshape] at hfailed hcallee
      dsimp only at hfailed hcallee
      split at hfailed
      · cases hfailed
        exact ⟨_, rfl, .admitted trivial⟩
      next hdepth =>
      rw [if_neg hdepth] at hcallee
      have hstarts : starts fuel (exec fuel) s (.identifier m qualifier name) =
          functionStarts fuel (exec fuel) f (enter f s) := by
        rw [starts_identifier, hcallee, Option.elim_some]
      -- either the function fails or, once it has come to its end, the check of what it promised
      cases hperform : (perform fuel (exec fuel) f).run (enter f s) with
      | stopped halt u =>
        rw [hperform] at hfailed
        cases hfailed
        exact failed_perform (hserved f hf) ⟨m, qualifier, name, rfl, hcallee⟩
          (Stack.requireShape_eq_ok_iff.1 hshape) hstarts hended hperform
      | done a u =>
        rw [hperform] at hfailed
        have hguarded : Guarded [] f.post (requireShape .post f.post m.token.lexeme) :=
          .requireShape .post f.post m.token.lexeme
        obtain ⟨e, he, hadmitted⟩ := hguarded.admitted (.nil _) hfailed
        exact ⟨e, he, .admitted hadmitted⟩

/-- A node raises only what a visit may raise. -/
theorem mayRaise_of_raises {v : Visit} {cause : Cause} (h : v.Raises cause)
    (hserved : Every Served v.state.stock) : ∃ e, cause = .runtime e ∧ v.MayRaise e := by
  by_cases hmodule : v.node.isModule = true
  · exact absurd h (not_raises_of_isModule hmodule cause)
  obtain ⟨⟨d, t, hfailed, rfl⟩, hended⟩ := h
  obtain ⟨n, s, ways, fuel⟩ := v
  obtain ⟨d', hfailed, hcause⟩ := failed_onFailure (m := node fuel (exec fuel) n)
    (f := fun file d => d.locate n.position file) (fun _ _ => rfl) hfailed
  rw [← hcause]
  have guarded : Guarded [] [] (node fuel (exec fuel) n) →
      ∃ e, d'.cause = .runtime e ∧ Visit.MayRaise ⟨n, s, ways, fuel⟩ e := by
    intro hguarded
    obtain ⟨e, he, hadmitted⟩ := hguarded.admitted (.nil _) hfailed
    exact ⟨e, he, .admitted hadmitted⟩
  cases n with
  | literal m value => exact guarded (.push _)
  | sequence m block body => exact guarded (.push _)
  | arithmetic m op => exact guarded (guarded_arithmetic op m.token.lexeme)
  | comparison m op => exact guarded (guarded_comparison op)
  | array m items => exact guarded (guarded_array items)
  | definition m signature body => exact guarded (guarded_defineFunction signature body)
  | binding m name isPublic => exact guarded (guarded_bindValue m.tag name isPublic)
  | importing m request => exact guarded (guarded_importNames request)
  | program m info nodes => exact absurd rfl hmodule
  | condition m form =>
    rw [node, condition_eq] at hfailed
    rcases failed_guarded_bind (guarded_branch m.token.lexeme form) (.nil _) hfailed with
      ⟨e, he, hadmitted⟩ | ⟨code, u, hbranch, -, hrun⟩
    · exact ⟨e, he, .admitted hadmitted⟩
    cases code with
    | none => cases hrun
    | some code =>
      have hstarts : starts fuel (exec fuel) s (.condition m form) = [⟨.branch, code, u⟩] :=
        following_of_done hbranch
      change Ended (exec fuel) (starts fuel (exec fuel) s (.condition m form)) at hended
      rw [hstarts] at hended
      obtain ⟨w, hw⟩ := hended _ (List.mem_singleton_self _)
      rw [runOption, hw] at hrun
      cases hrun
  | identifier m qualifier name =>
    refine failed_callName (fun f hf => ?_) hended hfailed
    obtain ⟨space, hbound⟩ := function?_of_lookUp hf
    exact hserved.bound space _ f hbound

/-- A run adds to the stock no native function but as it is served. -/
theorem every_served (fuel : Nat) (ways : List Way) (code : Code) (h : Every Served s.stock) :
    (∀ v ∈ visits fuel ways code s, Every Served v.state.stock) ∧
      Every Served ((exec fuel code).run s).state.stock := by
  have heffect : ∀ v ∈ visits fuel ways code s, Every Served v.state.stock → Every Served v.effect :=
    fun v _ hv => hv.effect (fun _ _ _ _ => trivial) (fun _ _ _ _ _ _ _ => trivial)
      fun _ _ _ _ => rfl
  exact (hands_visits fuel ways code s).invariant
    (fun _ _ key id origin h => h.publish key id origin) heffect h |>.symm

end Visits

/-- **The checks make the pops safe.** Whatever the program, the fuel and the stack, where native
functions are those that the loaders serve, every failure of a run is raised by a node that it visits,
and no pop that follows a check is among the reasons: no value is missing or of the wrong type, no
stream is missing, and no value cannot be curried. Only `arrays.map` finds nothing to take off, where
its sequence has left nothing, and only `strings.sformat` too few values to insert. A run leaves native
functions as they are served, so this goes on for the programs that are run after it. -/
theorem interpret_contracts {s : Interpreter} (hs : Every Served s.stock) (fuel : Nat)
    (scopes : ScopeTable) (p : Program NodeId) :
    (∀ v ∈ visited fuel scopes p s, ∀ cause, v.Raises cause →
      ∃ e, cause = .runtime e ∧ v.MayRaise e) ∧
    (∀ d t, (interpret fuel scopes p).run s = .stopped (.failed d) t →
      ∃ e, d.cause = .runtime e ∧ ∃ v ∈ visited fuel scopes p s, v.Raises (.runtime e) ∧
        v.MayRaise e) ∧
    Every Served ((interpret fuel scopes p).run s).state.stock := by
  obtain ⟨hvisits, hafter⟩ :=
    every_served fuel [.module p.info] p.nodes (every_begun hs scopes p)
  have hraises : ∀ v ∈ visited fuel scopes p s, ∀ cause, v.Raises cause →
      ∃ e, cause = .runtime e ∧ v.MayRaise e := fun v hv cause h => mayRaise_of_raises h (hvisits v hv)
  refine ⟨hraises, fun d t hfailed => ?_, ?_⟩
  · rw [run_interpret] at hfailed
    split at hfailed
    · cases hfailed
    · next hexec =>
      cases hfailed
      obtain ⟨v, hv, hraised, -⟩ := exists_raises hexec
      obtain ⟨e, he, hmay⟩ := hraises v hv _ hraised
      exact ⟨e, he, v, hv, he ▸ hraised, hmay⟩
  · rw [run_interpret]
    cases hexec : (exec fuel p.nodes).run (begun scopes p s) with
    | stopped halt t =>
      rw [hexec] at hafter
      exact hafter
    | done a t =>
      rw [hexec] at hafter
      dsimp only [Outcome.state]
      unfold closed
      split
      · exact hafter
      · exact hafter.publish _ _ _

/-- A file that gives `arrays.map` a sequence that leaves nothing. -/
def hollow : FileSystem where
  workingDirectory := []
  entries :=
    [(["a.twl"], .file "import pop from <stack>\nimport map from <arrays>\n[1] { pop } map".toUTF8.toList)]

/-- Where a sequence leaves nothing, `arrays.map` underflows. -/
theorem interpret_contracts_hollow : ∃ p, ∃ l : Linker, ∃ d t,
    (interpret 10 l.scopes p).run (.withNatives {}) = .stopped (.failed d) t ∧
      d.cause = .runtime .underflow ∧
      ∃ v ∈ visited 10 l.scopes p (.withNatives {}),
        (∃ access, Calls v.state v.node (.native .arrayMap access)) ∧
          LeftEmpty (exec v.fuel) v.starts := by
  have hcheck : ((failure? hollow "std" ["a.twl"] 10).any fun (_, _, d) =>
      match d.cause with | .runtime .underflow => true | _ => false) = true := by decide +kernel
  cases hfailure : failure? hollow "std" ["a.twl"] 10 with
  | none => rw [hfailure] at hcheck; cases hcheck
  | some x =>
    obtain ⟨p, l, d⟩ := x
    rw [hfailure, Option.any_some] at hcheck
    obtain ⟨-, t, hfailed⟩ := failure?_eq_some hfailure
    obtain ⟨-, hfailure, -⟩ := interpret_contracts ((Fresh.withNatives {}).every Served) 10 l.scopes p
    obtain ⟨e, he, v, hv, -, hmay⟩ := hfailure d t hfailed
    dsimp only at hcheck
    rw [he] at hcheck
    obtain rfl : e = .underflow := by cases e <;> first | rfl | cases hcheck
    refine ⟨p, l, d, t, hfailed, he, v, hv, ?_⟩
    cases hmay with
    | admitted hadmitted => exact hadmitted.elim
    | unmapped hcalls hempty => exact ⟨⟨_, hcalls⟩, hempty⟩

end Evaluation

end Catena

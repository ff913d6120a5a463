import Catena.Evaluation
import Mathlib.Data.List.Forall2

/-!
# Two runs side by side

Two steps correspond if from corresponding states they end in the same way, in corresponding states
again. What counts as corresponding is left open (`Correspondence`): a relation between the codes of
two sequences, and one between all that the stack, the streams and the supply of numbers are not.

Everything that a native function does by itself respects every correspondence (`pairs_native`);
what it runs has to correspond. Two uses are made of this. Of runs that differ in their names it says
that they print the same and leave the same. Of a step beside itself it says that the step is quiet
(`Quiet`): it touches no namespace and no loader, it comes back to where it started, it never runs
out of fuel, and its failures have no place yet.
-/

namespace Catena

open Catena.Eval

/-- Two states that differ in values, streams and numbers only. -/
structure Still (s t : Interpreter) : Prop where
  current : t.current = s.current
  spaces : t.spaces = s.spaces
  loaders : t.loaders = s.loaders
  scopes : t.scopes = s.scopes
  file : t.file = s.file
  depth : t.depth = s.depth
  maxDepth : t.maxDepth = s.maxDepth

namespace Still

theorem refl (s : Interpreter) : Still s s :=
  ⟨rfl, rfl, rfl, rfl, rfl, rfl, rfl⟩

theorem trans {s t u : Interpreter} (h : Still s t) (k : Still t u) : Still s u where
  current := k.current.trans h.current
  spaces := k.spaces.trans h.spaces
  loaders := k.loaders.trans h.loaders
  scopes := k.scopes.trans h.scopes
  file := k.file.trans h.file
  depth := k.depth.trans h.depth
  maxDepth := k.maxDepth.trans h.maxDepth

end Still

namespace Evaluation

/-- An outcome with its state changed. -/
def moved {α : Type} (g : Interpreter → Interpreter) :
    Outcome Interpreter Halt α → Outcome Interpreter Halt α
  | .done a t => .done a (g t)
  | .stopped halt t => .stopped halt (g t)

end Evaluation

namespace Eval

variable {α : Type}

theorem run_within (home : NamespaceId) (file : Option String) (m : Eval α) (s : Interpreter) :
    (within home file m).run s =
      Evaluation.moved (fun u => { u with current := s.current, file := s.file })
        (m.run { s with current := home, file }) := by
  unfold within
  dsimp only
  cases m.run { s with current := home, file } <;> rfl

theorem run_deeper (m : Eval α) (s : Interpreter) :
    (deeper m).run s = Evaluation.moved (fun u => { u with depth := u.depth - 1 })
      (m.run { s with depth := s.depth + 1 }) := by
  unfold deeper
  dsimp only
  cases m.run { s with depth := s.depth + 1 } <;> rfl

end Eval

/-- Values that are the same but for the numbers and the code of sequences, which `tag` and `code`
compare. -/
inductive Value.Alike (tag : NodeId → NodeId → Prop) (code : Code → Code → Prop) : Value → Value → Prop
  | literal (l : Literal) : Alike tag code (.literal l) (.literal l)
  | array (a : TypedArray) : Alike tag code (.array a) (.array a)
  | sequence {block block' : NodeId} (hblock : tag block block') {body body' : Code}
    (h : code body body') : Alike tag code (.sequence ⟨block, body⟩) (.sequence ⟨block', body'⟩)

/-- What relates two runs. Numbers that are drawn at the same time correspond, and so does the code
that currying makes of corresponding code and values; where a run stands does not depend on its
values, its streams and its numbers; errors correspond to themselves and as far as the words in them
do. -/
structure Correspondence where
  code : Code → Code → Prop
  place : Interpreter → Interpreter → Prop
  failure : Diagnostic → Diagnostic → Prop
  error : RuntimeError → RuntimeError → Prop
  word : String → String → Prop
  tag : NodeId → NodeId → Prop
  /-- How the next free numbers are compared. -/
  supply : NodeId → NodeId → Prop
  /-- Whether runs may be out of fuel. -/
  exhaustion : Prop
  code_length : ∀ {c c'}, code c c' → c.length = c'.length
  code_literal : ∀ {id id'} token value {c c'}, tag id id' → token.position = .synthetic →
    code c c' → code (.literal ⟨id, token⟩ value :: c) (.literal ⟨id', token⟩ value :: c')
  code_array : ∀ {id id'} token items {c c'}, tag id id' → token.position = .synthetic →
    code c c' → code (.array ⟨id, token⟩ items :: c) (.array ⟨id', token⟩ items :: c')
  code_sequence : ∀ {id id'} token {block block' b b' c c'}, tag id id' →
    token.position = .synthetic → tag block block' → code b b' → code c c' →
    code (.sequence ⟨id, token⟩ block b :: c) (.sequence ⟨id', token⟩ block' b' :: c')
  tag_of_supply : ∀ {n n'}, supply n n' → tag n n'
  supply_succ : ∀ {n n'}, supply n n' → supply (n + 1) (n' + 1)
  place_still : ∀ {s s' t t'}, place s s' → Still s t → Still s' t' → place t t'
  error_refl : ∀ e, error e e
  error_shape : ∀ e {word'}, word e.lexeme word' →
    error (.shape e) (.shape { e with lexeme := word' })
  failure_ofRuntime : ∀ {e e'}, error e e' →
    failure (Diagnostic.ofRuntime e) (Diagnostic.ofRuntime e')

namespace Correspondence

variable (C : Correspondence)

/-- Corresponding values. -/
abbrev Values : Value → Value → Prop :=
  Value.Alike C.tag C.code

/-- Corresponding states. -/
structure States (s s' : Interpreter) : Prop where
  stack : List.Forall₂ C.Values s.stack.items s'.stack.items
  console : s'.console = s.console
  random : s'.random = s.random
  nextId : C.supply s.nextId s'.nextId
  place : C.place s s'

/-- Outcomes of the same kind, in corresponding states. -/
def Outcomes {α : Type} (Q : α → α → Prop) :
    Outcome Interpreter Halt α → Outcome Interpreter Halt α → Prop
  | .done a t, .done a' t' => Q a a' ∧ C.States t t'
  | .stopped (.failed d) t, .stopped (.failed d') t' => C.failure d d' ∧ C.States t t'
  | .stopped .exhausted t, .stopped .exhausted t' => C.exhaustion ∧ C.States t t'
  | _, _ => False

/-- Steps that have corresponding outcomes from corresponding states. -/
def Pairs {α : Type} (m m' : Eval α) (Q : α → α → Prop) : Prop :=
  ∀ s s', C.States s s' → C.Outcomes Q (m.run s) (m'.run s')

/-- Results that are both there or both errors, and correspond. -/
def Results {α : Type} (Q : α → α → Prop) : Except RuntimeError α → Except RuntimeError α → Prop
  | .ok a, .ok a' => Q a a'
  | .error e, .error e' => C.error e e'
  | _, _ => False

variable {C}

/-! ## Values -/

namespace Values

variable {v v' : Value}

theorem type_eq (h : C.Values v v') : v'.type = v.type := by
  cases h <;> rfl

theorem display_eq (h : C.Values v v') : v'.display = v.display := by
  cases h with
  | literal | array => rfl
  | sequence _ hbody =>
    simp only [Value.display, Sequence.display]
    rw [C.code_length hbody]

theorem literal?_eq (h : C.Values v v') : v'.literal? = v.literal? := by
  cases h <;> rfl

theorem array?_eq (h : C.Values v v') : v'.array? = v.array? := by
  cases h <;> rfl

theorem refl (htag : ∀ n, C.tag n n) (hcode : ∀ c, C.code c c) (v : Value) : C.Values v v := by
  cases v with
  | literal l => exact .literal l
  | array a => exact .array a
  | sequence q => exact .sequence (htag q.block) (hcode q.body)

end Values

theorem map_type_eq {vs vs' : List Value} (h : List.Forall₂ C.Values vs vs') :
    vs'.map Value.type = vs.map Value.type := by
  induction h with
  | nil => rfl
  | cons hv _ ih => rw [List.map_cons, List.map_cons, hv.type_eq, ih]

theorem accepts_eq {vs vs' : List Value} (h : List.Forall₂ C.Values vs vs')
    (types : List ValueType) : Stack.accepts types vs' = Stack.accepts types vs := by
  induction h generalizing types with
  | nil => rfl
  | cons hv _ ih =>
    cases types with
    | nil => rfl
    | cons expected types =>
      unfold Stack.accepts
      rw [hv.type_eq, ih]

theorem atLeast_eq {vs vs' : List Value} (h : List.Forall₂ C.Values vs vs') (n : Nat) :
    Stack.atLeast n vs' = Stack.atLeast n vs := by
  rw [Bool.eq_iff_iff, Stack.atLeast_iff, Stack.atLeast_iff, h.length_eq]

/-! ## Steps one after the other -/

section Rules

variable {α β : Type} {Q R : α → α → Prop} {Q' : β → β → Prop}

theorem Outcomes.mono {o o' : Outcome Interpreter Halt α} (h : C.Outcomes Q o o')
    (hQ : ∀ a a', Q a a' → R a a') : C.Outcomes R o o' := by
  cases o with
  | done a t =>
    cases o' with
    | done a' t' => exact ⟨hQ a a' h.1, h.2⟩
    | stopped halt' t' => exact h.elim
  | stopped halt t =>
    cases halt <;> cases o' with
    | done a' t' => exact h.elim
    | stopped halt' t' => cases halt' <;> exact h

theorem Pairs.mono {m m' : Eval α} (h : C.Pairs m m' Q) (hQ : ∀ a a', Q a a' → R a a') :
    C.Pairs m m' R :=
  fun s s' hs => (h s s' hs).mono hQ

theorem Pairs.pure {a a' : α} (h : Q a a') : C.Pairs (Pure.pure a) (Pure.pure a') Q :=
  fun _ _ hs => ⟨h, hs⟩

theorem Pairs.bind {m m' : Eval α} {f f' : α → Eval β} (hm : C.Pairs m m' Q)
    (hf : ∀ a a', Q a a' → C.Pairs (f a) (f' a') Q') : C.Pairs (m >>= f) (m' >>= f') Q' := by
  intro s s' hs
  have hout := hm s s' hs
  rw [Action.run_bind, Action.run_bind]
  cases h : m.run s with
  | done a t =>
    cases h' : m'.run s' with
    | done a' t' =>
      rw [h, h'] at hout
      exact hf a a' hout.1 t t' hout.2
    | stopped halt' t' => rw [h, h'] at hout; exact hout.elim
  | stopped halt t =>
    cases h' : m'.run s' with
    | done a' t' => rw [h, h'] at hout; cases halt <;> exact hout.elim
    | stopped halt' t' =>
      rw [h, h'] at hout
      cases halt <;> cases halt' <;> exact hout

theorem Pairs.state : C.Pairs Action.state Action.state C.States :=
  fun _ _ hs => ⟨hs, hs⟩

theorem Pairs.exhausted (h : C.exhaustion) :
    C.Pairs (Action.stop .exhausted) (Action.stop .exhausted) Q :=
  fun _ _ hs => ⟨h, hs⟩

theorem Pairs.fail {e e' : RuntimeError} (h : C.error e e') :
    C.Pairs (Eval.fail e) (Eval.fail e') Q :=
  fun _ _ hs => ⟨C.failure_ofRuntime h, hs⟩

theorem Pairs.demand {x x' : Except RuntimeError α} (h : C.Results Q x x') :
    C.Pairs (Eval.demand x) (Eval.demand x') Q := by
  cases x <;> cases x'
  · exact Pairs.fail h
  · exact h.elim
  · exact h.elim
  · exact Pairs.pure h

theorem Pairs.ite {c : Prop} [Decidable c] {m m' k k' : Eval α} (hm : c → C.Pairs m m' Q)
    (hk : ¬c → C.Pairs k k' Q) : C.Pairs (if c then m else k) (if c then m' else k') Q := by
  split
  · next h => exact hm h
  · next h => exact hk h

theorem Results.of_eq {x : Except RuntimeError α} : C.Results (· = ·) x x := by
  cases x with
  | error e => exact C.error_refl e
  | ok a => rfl

end Rules

/-! ## The steps that a run is made of -/

section Steps

variable {α : Type} {Q : α → α → Prop}

theorem States.of_still {s s' t t' : Interpreter} (h : C.States s s') (hs : Still s t)
    (hs' : Still s' t') (stack : List.Forall₂ C.Values t.stack.items t'.stack.items)
    (console : t'.console = t.console) (random : t'.random = t.random)
    (nextId : C.supply t.nextId t'.nextId) : C.States t t' :=
  ⟨stack, console, random, nextId, C.place_still h.place hs hs'⟩

/-- What an operation on the stack has to do with corresponding stacks. -/
def StackOps (C : Correspondence) (op op' : Stack → Except RuntimeError α × Stack)
    (Q : α → α → Prop) : Prop :=
  ∀ st st' : Stack, List.Forall₂ C.Values st.items st'.items →
    C.Results Q (op st).1 (op' st').1 ∧ List.Forall₂ C.Values (op st).2.items (op' st').2.items

theorem Pairs.onStack {op op' : Stack → Except RuntimeError α × Stack} (h : C.StackOps op op' Q) :
    C.Pairs (Eval.onStack op) (Eval.onStack op') Q := by
  intro s s' hs
  obtain ⟨hresult, hrest⟩ := h s.stack s'.stack hs.stack
  have back : ∀ st st' : Stack, List.Forall₂ C.Values st.items st'.items →
      C.States { s with stack := st } { s' with stack := st' } := fun st st' hst =>
    hs.of_still ⟨rfl, rfl, rfl, rfl, rfl, rfl, rfl⟩ ⟨rfl, rfl, rfl, rfl, rfl, rfl, rfl⟩ hst
      hs.console hs.random hs.nextId
  unfold Eval.onStack
  dsimp only
  cases hop : op s.stack with
  | mk r st =>
    cases hop' : op' s'.stack with
    | mk r' st' =>
      rw [hop, hop'] at hresult hrest
      cases r <;> cases r'
      · exact ⟨C.failure_ofRuntime hresult, back _ _ hrest⟩
      · exact hresult.elim
      · exact hresult.elim
      · exact ⟨hresult, back _ _ hrest⟩

theorem stackOps_pop : C.StackOps Stack.pop Stack.pop C.Values := by
  rintro ⟨items⟩ ⟨items'⟩ (hst : List.Forall₂ C.Values items items')
  cases hst with
  | nil => exact ⟨C.error_refl _, .nil⟩
  | cons hv hrest => exact ⟨hv, hrest⟩

theorem stackOps_popAs {expected : ValueType} {read? : Value → Option α}
    (hread : ∀ v v', C.Values v v' → Option.Rel Q (read? v) (read? v')) :
    C.StackOps (Stack.popAs expected read?) (Stack.popAs expected read?) Q := by
  intro st st' hst
  obtain ⟨hresult, hrest⟩ := stackOps_pop st st' hst
  unfold Stack.popAs
  cases hop : st.pop with
  | mk r rest =>
    cases hop' : st'.pop with
    | mk r' rest' =>
      rw [hop, hop'] at hresult hrest
      cases r <;> cases r'
      · exact ⟨hresult, hrest⟩
      · exact hresult.elim
      · exact hresult.elim
      · next v v' =>
        dsimp only
        have hrel := hread v v' hresult
        cases hv : read? v <;> cases hv' : read? v' <;> rw [hv, hv'] at hrel
        · refine ⟨?_, hrest⟩
          show C.error (.wrongType expected v.type) (.wrongType expected v'.type)
          rw [Values.type_eq hresult]
          exact C.error_refl _
        · cases hrel
        · cases hrel
        · cases hrel with
          | some hQ => exact ⟨hQ, hrest⟩

theorem Pairs.pop : C.Pairs (Eval.onStack Stack.pop) (Eval.onStack Stack.pop) C.Values :=
  Pairs.onStack stackOps_pop

theorem rel_of_eq {x x' : Option α} (h : x' = x) : Option.Rel (· = ·) x x' := by
  subst h
  cases x'
  · exact .none
  · exact .some rfl

theorem Pairs.popNumber :
    C.Pairs (Eval.onStack Stack.popNumber) (Eval.onStack Stack.popNumber) (· = ·) :=
  Pairs.onStack (stackOps_popAs fun _ _ h => rel_of_eq (by cases h <;> rfl))

theorem Pairs.popBoolean :
    C.Pairs (Eval.onStack Stack.popBoolean) (Eval.onStack Stack.popBoolean) (· = ·) :=
  Pairs.onStack (stackOps_popAs fun _ _ h => rel_of_eq (by cases h <;> rfl))

theorem Pairs.popString :
    C.Pairs (Eval.onStack Stack.popString) (Eval.onStack Stack.popString) (· = ·) :=
  Pairs.onStack (stackOps_popAs fun _ _ h => rel_of_eq (by cases h <;> rfl))

theorem Pairs.popArray :
    C.Pairs (Eval.onStack Stack.popArray) (Eval.onStack Stack.popArray) (· = ·) :=
  Pairs.onStack (stackOps_popAs fun _ _ h => rel_of_eq h.array?_eq)

/-- Sequences that are corresponding blocks of corresponding code. -/
def Sequences (C : Correspondence) (q q' : Sequence) : Prop :=
  C.tag q.block q'.block ∧ C.code q.body q'.body

theorem Pairs.popSequence :
    C.Pairs (Eval.onStack Stack.popSequence) (Eval.onStack Stack.popSequence) C.Sequences := by
  refine Pairs.onStack (stackOps_popAs fun v v' h => ?_)
  cases h with
  | literal | array => exact .none
  | sequence hblock hbody => exact .some ⟨hblock, hbody⟩

theorem Pairs.push {v v' : Value} (h : C.Values v v') :
    C.Pairs (Eval.push v) (Eval.push v') fun _ _ => True := by
  intro s s' hs
  refine ⟨trivial, hs.of_still ?_ ?_ (.cons h hs.stack) hs.console hs.random hs.nextId⟩
  · exact ⟨rfl, rfl, rfl, rfl, rfl, rfl, rfl⟩
  · exact ⟨rfl, rfl, rfl, rfl, rfl, rfl, rfl⟩

theorem results_requireShape {st st' : Stack} (h : List.Forall₂ C.Values st.items st'.items)
    (check : Check) (types : List ValueType) {lexeme lexeme' : String} (hword : C.word lexeme lexeme') :
    C.Results (fun _ _ => True) (st.requireShape check types lexeme)
      (st'.requireShape check types lexeme') := by
  have hshape : ∀ aspect, C.error (st.shapeError check aspect types lexeme)
      (st'.shapeError check aspect types lexeme') := by
    intro aspect
    unfold Stack.shapeError
    rw [map_type_eq h]
    exact C.error_shape _ hword
  unfold Stack.requireShape
  rw [atLeast_eq h, accepts_eq h]
  cases Stack.atLeast types.length st.items with
  | false => exact hshape .length
  | true =>
    cases Stack.accepts types st.items with
    | false => exact hshape .type
    | true => trivial

theorem Pairs.requireShape (check : Check) (types : List ValueType) {lexeme lexeme' : String}
    (hword : C.word lexeme lexeme') :
    C.Pairs (Eval.requireShape check types lexeme) (Eval.requireShape check types lexeme')
      fun _ _ => True :=
  Pairs.bind Pairs.state fun _ _ hs =>
    Pairs.demand (results_requireShape hs.stack check types hword)

theorem Pairs.freshId : C.Pairs Eval.freshId Eval.freshId C.tag := by
  intro s s' hs
  refine ⟨C.tag_of_supply hs.nextId, hs.of_still ?_ ?_ hs.stack hs.console hs.random
    (C.supply_succ hs.nextId)⟩
  · exact ⟨rfl, rfl, rfl, rfl, rfl, rfl, rfl⟩
  · exact ⟨rfl, rfl, rfl, rfl, rfl, rfl, rfl⟩

theorem Pairs.onConsole (op : Console → Except Fault α × Console)
    (error : Fault → RuntimeError) :
    C.Pairs (Eval.onConsole op error) (Eval.onConsole op error) (· = ·) := by
  intro s s' hs
  have back : ∀ console : Console, C.States { s with console } { s' with console } :=
    fun console => hs.of_still ⟨rfl, rfl, rfl, rfl, rfl, rfl, rfl⟩
      ⟨rfl, rfl, rfl, rfl, rfl, rfl, rfl⟩ hs.stack rfl hs.random hs.nextId
  unfold Eval.onConsole
  dsimp only
  rw [hs.console]
  cases op s.console with
  | mk r console =>
    cases r with
    | error fault => exact ⟨C.failure_ofRuntime (C.error_refl _), back console⟩
    | ok a => exact ⟨rfl, back console⟩

end Steps

/-! ## Steps inside others -/

section Inside

variable {α : Type} {Q : α → α → Prop}

theorem Outcomes.moved {o o' : Outcome Interpreter Halt α} (h : C.Outcomes Q o o')
    {after after' : Interpreter → Interpreter}
    (hafter : ∀ u u', C.States u u' → C.States (after u) (after' u')) :
    C.Outcomes Q (Evaluation.moved after o) (Evaluation.moved after' o') := by
  cases o with
  | done a u =>
    cases o' with
    | done a' u' => exact ⟨h.1, hafter u u' h.2⟩
    | stopped halt' u' => exact h.elim
  | stopped halt u =>
    cases o' with
    | done a' u' => cases halt <;> exact h.elim
    | stopped halt' u' =>
      cases halt <;> cases halt'
      · exact ⟨h.1, hafter u u' h.2⟩
      · exact h.elim
      · exact h.elim
      · exact ⟨h.1, hafter u u' h.2⟩

theorem Pairs.onFailure {m m' : Eval α} (h : C.Pairs m m' Q)
    {g g' : Option String → Diagnostic → Diagnostic}
    (hg : ∀ u u', C.States u u' → ∀ d d', C.failure d d' →
      C.failure (g u.file d) (g' u'.file d')) :
    C.Pairs (Eval.onFailure g m) (Eval.onFailure g' m') Q := by
  intro s s' hs
  have hout := h s s' hs
  unfold Eval.onFailure
  dsimp only
  cases hrun : m.run s with
  | done a u =>
    cases hrun' : m'.run s' with
    | done a' u' =>
      rw [hrun, hrun'] at hout
      exact hout
    | stopped halt' u' => rw [hrun, hrun'] at hout; exact hout.elim
  | stopped halt u =>
    cases hrun' : m'.run s' with
    | done a' u' => rw [hrun, hrun'] at hout; cases halt <;> exact hout.elim
    | stopped halt' u' =>
      rw [hrun, hrun'] at hout
      cases halt <;> cases halt'
      · exact ⟨hg u u' hout.2 _ _ hout.1, hout.2⟩
      · exact hout.elim
      · exact hout.elim
      · exact hout

end Inside

/-! ## The native functions -/

section Natives

variable {access : Access}

theorem pairs_write (text : String) :
    C.Pairs (Library.write access text) (Library.write access text) fun _ _ => True :=
  Pairs.ite (fun _ => (Pairs.onConsole _ _).mono fun _ _ _ => trivial) fun _ => Pairs.fail (C.error_refl _)

theorem pairs_readLine :
    C.Pairs (Library.readLine access) (Library.readLine access) (· = ·) := by
  refine Pairs.ite (fun _ => Pairs.bind (Pairs.onConsole _ _) fun line line' h => ?_)
    fun _ => Pairs.fail (C.error_refl _)
  subst h
  exact Pairs.pure rfl

theorem pairs_dup : C.Pairs Library.dup Library.dup fun _ _ => True :=
  Pairs.bind Pairs.pop fun _ _ htop => Pairs.bind (Pairs.push htop) fun _ _ _ => Pairs.push htop

theorem pairs_dup2 : C.Pairs Library.dup2 Library.dup2 fun _ _ => True :=
  Pairs.bind Pairs.pop fun _ _ htop => Pairs.bind Pairs.pop fun _ _ hsecond =>
    Pairs.bind (Pairs.push hsecond) fun _ _ _ => Pairs.bind (Pairs.push htop) fun _ _ _ =>
      Pairs.bind (Pairs.push hsecond) fun _ _ _ => Pairs.push htop

theorem pairs_discard : C.Pairs Library.discard Library.discard fun _ _ => True :=
  Pairs.bind Pairs.pop fun _ _ _ => Pairs.pure trivial

theorem pairs_swap : C.Pairs Library.swap Library.swap fun _ _ => True :=
  Pairs.bind Pairs.pop fun _ _ ha => Pairs.bind Pairs.pop fun _ _ hb =>
    Pairs.bind (Pairs.push ha) fun _ _ _ => Pairs.push hb

theorem pairs_rotate : C.Pairs Library.rotate Library.rotate fun _ _ => True :=
  Pairs.bind Pairs.pop fun _ _ ha => Pairs.bind Pairs.pop fun _ _ hb =>
    Pairs.bind Pairs.pop fun _ _ hc => Pairs.bind (Pairs.push hb) fun _ _ _ =>
      Pairs.bind (Pairs.push ha) fun _ _ _ => Pairs.push hc

theorem pairs_print (ending : String) :
    C.Pairs (Library.print access ending) (Library.print access ending) fun _ _ => True := by
  refine Pairs.bind Pairs.pop fun v v' hv => ?_
  rw [hv.display_eq]
  exact pairs_write _

theorem pairs_ask : C.Pairs (Library.ask access) (Library.ask access) (· = ·) := by
  refine Pairs.bind Pairs.popString fun prompt prompt' h => ?_
  subst h
  exact Pairs.bind (pairs_write prompt) fun _ _ _ => pairs_readLine

theorem pairs_inputNumber :
    C.Pairs (Library.inputNumber access) (Library.inputNumber access) fun _ _ => True := by
  refine Pairs.bind pairs_ask fun line line' h => ?_
  subst h
  split
  · exact Pairs.push (.literal _)
  · exact Pairs.fail (C.error_refl _)

theorem pairs_inputString :
    C.Pairs (Library.inputString access) (Library.inputString access) fun _ _ => True := by
  refine Pairs.bind pairs_ask fun line line' h => ?_
  subst h
  exact Pairs.push (.literal _)

/-- The node that a curried value becomes, in front of corresponding code. -/
theorem results_pushing {id id' : NodeId} (hid : C.tag id id') {v v' : Value} (hv : C.Values v v') :
    C.Results (fun n n' => ∀ c c', C.code c c' → C.code (n :: c) (n' :: c'))
      (Library.pushing id v) (Library.pushing id' v') := by
  cases hv with
  | literal l => exact fun c c' h => C.code_literal _ _ hid rfl h
  | array a => exact fun c c' h => C.code_array _ _ hid rfl h
  | sequence hblock hbody => exact fun c c' h => C.code_sequence _ hid rfl hblock hbody h

theorem pairs_curry : C.Pairs Library.curry Library.curry fun _ _ => True := by
  refine Pairs.bind Pairs.popSequence fun q q' hq => Pairs.bind Pairs.pop fun v v' hv =>
    Pairs.bind Pairs.freshId fun id id' hid => ?_
  refine Pairs.bind (Pairs.demand (results_pushing hid hv)) fun n n' hn => ?_
  exact Pairs.push (.sequence hid (hn q.body q'.body hq.2))

theorem pairs_arrayLength : C.Pairs Library.arrayLength Library.arrayLength fun _ _ => True := by
  refine Pairs.bind Pairs.pop fun v v' hv => Pairs.bind (Pairs.push hv) fun _ _ _ => ?_
  rw [hv.array?_eq]
  exact Pairs.push (.literal _)

theorem results_arrayPush (a : TypedArray) {v v' : Value} (hv : C.Values v v') :
    C.Results (· = ·) (a.push v) (a.push v') := by
  unfold TypedArray.push
  rw [hv.literal?_eq, hv.type_eq]
  exact Results.of_eq

theorem pairs_arrayPush : C.Pairs Library.arrayPush Library.arrayPush fun _ _ => True := by
  refine Pairs.bind Pairs.pop fun v v' hv => Pairs.bind Pairs.popArray fun a a' h => ?_
  subst h
  refine Pairs.bind (Pairs.demand (results_arrayPush a hv)) fun b b' h => ?_
  subst h
  exact Pairs.push (.array b)

theorem values_self_of_pop (a : TypedArray) {item : Value} (h : a.pop.1 = some item) :
    C.Values item item := by
  obtain ⟨l, -, rfl⟩ := Option.map_eq_some_iff.1 h
  exact .literal l

theorem pairs_arrayPop : C.Pairs Library.arrayPop Library.arrayPop fun _ _ => True := by
  refine Pairs.bind Pairs.popArray fun a a' h => ?_
  subst h
  split
  · next item rest h =>
    have hitem : C.Values item item := values_self_of_pop a (by rw [h])
    exact Pairs.bind (Pairs.push (.array rest)) fun _ _ _ => Pairs.push hitem
  · next rest _ => exact Pairs.bind (Pairs.push (.array rest)) fun _ _ _ => Pairs.fail (C.error_refl _)

theorem pairs_changeString (f : String → String) :
    C.Pairs (Library.changeString f) (Library.changeString f) fun _ _ => True := by
  refine Pairs.bind Pairs.popString fun s s' h => ?_
  subst h
  exact Pairs.push (.literal _)

/-- Filling placeholders looks at the texts of values only. -/
theorem rel_fill {vs vs' : List Value} (h : List.Forall₂ C.Values vs vs') (index : Nat)
    (template : List Char) :
    Option.Rel (fun x x' => x'.1 = x.1 ∧ List.Forall₂ C.Values x.2 x'.2)
      (Library.fill index template vs) (Library.fill index template vs') := by
  induction h generalizing index template with
  | nil =>
    unfold Library.fill
    split
    · exact .none
    · exact .some ⟨rfl, .nil⟩
  | cons hv hrest ih =>
    unfold Library.fill
    rw [hv.display_eq]
    split
    · exact ih _ _
    · exact .some ⟨rfl, .cons hv hrest⟩

theorem stackOps_formatTop :
    C.StackOps Library.formatTop Library.formatTop C.Values := by
  rintro ⟨items⟩ ⟨items'⟩ (hst : List.Forall₂ C.Values items items')
  cases hst with
  | nil => exact ⟨C.error_refl _, .nil⟩
  | @cons template template' values values' hv hrest =>
    have hfill := rel_fill hrest 0 template.display.toList
    unfold Library.formatTop
    dsimp only
    rw [hv.display_eq]
    cases h : Library.fill 0 template.display.toList values <;>
      cases h' : Library.fill 0 template.display.toList values' <;> rw [h, h'] at hfill
    · exact ⟨C.error_refl _, .nil⟩
    · cases hfill
    · cases hfill
    · next filled filled' =>
      cases hfill with
      | some hrel =>
        refine ⟨?_, hrel.2⟩
        show C.Values (.string (String.ofList filled.1)) (.string (String.ofList filled'.1))
        rw [hrel.1]
        exact .literal _

theorem pairs_format : C.Pairs Library.format Library.format fun _ _ => True :=
  Pairs.bind (Pairs.onStack stackOps_formatTop) fun _ _ hv => Pairs.push hv

theorem pairs_draw : C.Pairs Library.draw Library.draw (· = ·) := by
  intro s s' hs
  have hnext : s'.random.next = s.random.next := by rw [hs.random]
  refine ⟨congrArg Prod.fst hnext.symm, hs.of_still ?_ ?_ hs.stack hs.console ?_ hs.nextId⟩
  · exact ⟨rfl, rfl, rfl, rfl, rfl, rfl, rfl⟩
  · exact ⟨rfl, rfl, rfl, rfl, rfl, rfl, rfl⟩
  · exact congrArg Prod.snd hnext

theorem pairs_random : C.Pairs Library.random Library.random fun _ _ => True := by
  refine Pairs.bind Pairs.popNumber fun max max' hmax => Pairs.bind Pairs.popNumber
    fun min min' hmin => Pairs.bind pairs_draw fun r r' hr => ?_
  subst hmax hmin hr
  exact Pairs.push (.literal _)

theorem pairs_floor : C.Pairs Library.floor Library.floor fun _ _ => True := by
  refine Pairs.bind Pairs.popNumber fun n n' h => ?_
  subst h
  exact Pairs.push (.literal _)

theorem map_display_head?_eq {vs vs' : List Value} (h : List.Forall₂ C.Values vs vs') :
    vs'.head?.map Value.display = vs.head?.map Value.display := by
  cases h with
  | nil => rfl
  | cons hv _ => exact congrArg some hv.display_eq

theorem display_stack_eq {st st' : Stack} (h : List.Forall₂ C.Values st.items st'.items) :
    st'.display = st.display := by
  have hmap : ∀ {vs vs' : List Value}, List.Forall₂ C.Values vs vs' →
      (vs'.map fun v => "\t" ++ v.display ++ "\n") = vs.map fun v => "\t" ++ v.display ++ "\n" := by
    intro vs vs' hvs
    induction hvs with
    | nil => rfl
    | cons hv _ ih => rw [List.map_cons, List.map_cons, hv.display_eq, ih]
  unfold Stack.display
  rw [hmap h]

theorem pairs_printStack :
    C.Pairs (Library.printStack access) (Library.printStack access) fun _ _ => True := by
  refine Pairs.bind Pairs.state fun s s' hs => ?_
  rw [display_stack_eq hs.stack]
  exact pairs_write _

theorem pairs_printArray :
    C.Pairs (Library.printArray access) (Library.printArray access) fun _ _ => True := by
  refine Pairs.bind Pairs.state fun s s' hs => ?_
  have htop : s'.stack.peek?.map Value.display = s.stack.peek?.map Value.display :=
    map_display_head?_eq hs.stack
  rw [htop]
  exact pairs_write _

/-! ### Functions that run code -/

section Code

variable {run run' : Code → Eval Unit}
  (hrun : ∀ c c', C.code c c' → C.Pairs (run c) (run' c') fun _ _ => True)

include hrun in
theorem pairs_exec : C.Pairs (Library.exec run) (Library.exec run') fun _ _ => True :=
  Pairs.bind Pairs.popSequence fun q q' hq => hrun q.body q'.body hq.2

theorem pairs_rounds {round round' : Eval Unit} (hexhaustion : C.exhaustion)
    (h : C.Pairs round round' fun _ _ => True) (limit : Nat) (times : Float) :
    C.Pairs (Library.rounds round limit times) (Library.rounds round' limit times)
      fun _ _ => True := by
  induction limit generalizing times with
  | zero =>
    unfold Library.rounds
    exact Pairs.ite (fun _ => Pairs.exhausted hexhaustion) fun _ => Pairs.pure trivial
  | succ limit ih =>
    unfold Library.rounds
    refine Pairs.ite (fun _ => ?_) fun _ => Pairs.pure trivial
    exact Pairs.bind h fun _ _ _ => ih (times - 1.0)

include hrun in
theorem pairs_repeated (hexhaustion : C.exhaustion) (limit : Nat) :
    C.Pairs (Library.repeated limit run) (Library.repeated limit run') fun _ _ => True := by
  refine Pairs.bind Pairs.popSequence fun q q' hq =>
    Pairs.bind Pairs.popNumber fun times times' h => ?_
  subst h
  exact pairs_rounds hexhaustion (hrun q.body q'.body hq.2) limit times

theorem results_arraySet (a : TypedArray) (index : Nat) {v v' : Value} (hv : C.Values v v') :
    C.Results (· = ·) (a.set index v) (a.set index v') := by
  unfold TypedArray.set TypedArray.check
  rw [hv.literal?_eq, hv.type_eq]
  exact Results.of_eq

theorem pairs_mapItems {code code' : Eval Unit} (h : C.Pairs code code' fun _ _ => True)
    (items : List Literal) (a : TypedArray) (index : Nat) :
    C.Pairs (Library.mapItems code a index items) (Library.mapItems code' a index items)
      (· = ·) := by
  induction items generalizing a index with
  | nil => exact Pairs.pure rfl
  | cons item rest ih =>
    unfold Library.mapItems
    refine Pairs.bind (Pairs.push (.literal item)) fun _ _ _ => Pairs.bind h fun _ _ _ =>
      Pairs.bind Pairs.pop fun v v' hv => ?_
    refine Pairs.bind (Pairs.demand (results_arraySet a index hv)) fun b b' hb => ?_
    subst hb
    exact ih b (index + 1)

include hrun in
theorem pairs_arrayMap :
    C.Pairs (Library.arrayMap run) (Library.arrayMap run') fun _ _ => True := by
  refine Pairs.bind Pairs.popSequence fun q q' hq => Pairs.bind Pairs.popArray fun a a' ha => ?_
  subst ha
  refine Pairs.bind (pairs_mapItems (hrun q.body q'.body hq.2) a.items.toList a 0)
    fun b b' hb => ?_
  subst hb
  exact Pairs.push (.array b)

/-- Every native function respects every correspondence, if what it runs does. -/
theorem pairs_native (limit : Nat) (f : Native)
    (hrun : ∀ c c', C.code c c' → C.Pairs (run c) (run' c') fun _ _ => True)
    (hloop : f = .repeated → C.exhaustion) :
    C.Pairs (Library.perform limit run access f) (Library.perform limit run' access f)
      fun _ _ => True := by
  cases f with
  | dup => exact pairs_dup
  | dup2 => exact pairs_dup2
  | discard => exact pairs_discard
  | swap => exact pairs_swap
  | rotate => exact pairs_rotate
  | print => exact pairs_print ""
  | println => exact pairs_print "\n"
  | inputNumber => exact pairs_inputNumber
  | inputString => exact pairs_inputString
  | exec => exact pairs_exec hrun
  | repeated => exact pairs_repeated hrun (hloop rfl) limit
  | curry => exact pairs_curry
  | arrayLength => exact pairs_arrayLength
  | arrayPush => exact pairs_arrayPush
  | arrayPop => exact pairs_arrayPop
  | arrayMap => exact pairs_arrayMap hrun
  | lower => exact pairs_changeString Text.toLower
  | upper => exact pairs_changeString Text.toUpper
  | reverse => exact pairs_changeString Library.reverseText
  | format => exact pairs_format
  | random => exact pairs_random
  | floor => exact pairs_floor
  | printStack => exact pairs_printStack
  | printArray => exact pairs_printArray

end Code

end Natives

/-! ## Operators and conditions -/

theorem pairs_arithmetic (op : ArithmeticOp) {lexeme lexeme' : String}
    (hword : C.word lexeme lexeme') :
    C.Pairs (Evaluation.arithmetic op lexeme) (Evaluation.arithmetic op lexeme')
      fun _ _ => True := by
  refine Pairs.bind (Pairs.requireShape _ _ hword) fun _ _ _ => Pairs.bind Pairs.popNumber
    fun right right' hright => Pairs.bind Pairs.popNumber fun left left' hleft => ?_
  subst hright hleft
  refine Pairs.bind (Pairs.demand Results.of_eq) fun n n' h => ?_
  subst h
  exact Pairs.push (.literal _)

theorem results_compareValues (op : ComparisonOp) {v v' w w' : Value} (hv : C.Values v v')
    (hw : C.Values w w') :
    C.Results (· = ·) (Evaluation.compareValues op v w) (Evaluation.compareValues op v' w') := by
  cases hv <;> cases hw <;> exact Results.of_eq

theorem pairs_comparison (op : ComparisonOp) :
    C.Pairs (Evaluation.comparison op) (Evaluation.comparison op) fun _ _ => True := by
  refine Pairs.bind Pairs.state fun s s' hs => ?_
  have hsize : C.Results (fun _ _ => True) (s.stack.requireSize 2 RuntimeError.comparisonArity)
      (s'.stack.requireSize 2 RuntimeError.comparisonArity) := by
    unfold Stack.requireSize
    rw [atLeast_eq hs.stack]
    cases Stack.atLeast 2 s.stack.items with
    | false => exact C.error_refl _
    | true => trivial
  refine Pairs.bind (Pairs.demand hsize) fun _ _ _ => Pairs.bind Pairs.pop fun v v' hv =>
    Pairs.bind Pairs.pop fun w w' hw => ?_
  refine Pairs.bind (Pairs.demand (results_compareValues op hw hv)) fun b b' hb => ?_
  subst hb
  exact Pairs.push (.literal _)

theorem pairs_array (items : List Literal) :
    C.Pairs (do Eval.push (.array (← Eval.demand (TypedArray.ofLiterals items))))
      (do Eval.push (.array (← Eval.demand (TypedArray.ofLiterals items)))) fun _ _ => True := by
  refine Pairs.bind (Pairs.demand Results.of_eq) fun a a' h => ?_
  subst h
  exact Pairs.push (.array a)

end Correspondence

namespace Evaluation

/-- The code that a condition chooses to run, if any. -/
def branch (lexeme : String) : Condition → Eval (Option Code)
  | .branched => do
    requireShape .pre branchedOperands lexeme
    let otherwise ← onStack Stack.popSequence
    let chosen ← onStack Stack.popSequence
    return some (if ← onStack Stack.popBoolean then chosen.body else otherwise.body)
  | .single => do
    requireShape .pre singleOperands lexeme
    let chosen ← onStack Stack.popSequence
    return if ← onStack Stack.popBoolean then some chosen.body else none

/-- Runs code if there is any. -/
def runOption (run : Code → Eval Unit) : Option Code → Eval Unit
  | some code => run code
  | none => pure ()

theorem condition_eq (run : Code → Eval Unit) (form : Condition) (lexeme : String) :
    condition run form lexeme = branch lexeme form >>= runOption run := by
  cases form with
  | branched =>
    simp only [condition, branch, bind_assoc, pure_bind]
    congr; funext _; congr; funext _; congr; funext _; congr; funext b
    cases b <;> rfl
  | single =>
    simp only [condition, branch, bind_assoc, pure_bind]
    congr; funext _; congr; funext _; congr; funext b
    cases b <;> rfl

end Evaluation

namespace Correspondence

variable {C : Correspondence}

theorem pairs_branch (form : Condition) {lexeme lexeme' : String} (hword : C.word lexeme lexeme') :
    C.Pairs (Evaluation.branch lexeme form) (Evaluation.branch lexeme' form)
      (Option.Rel C.code) := by
  cases form with
  | branched =>
    refine Pairs.bind (Pairs.requireShape _ _ hword) fun _ _ _ => Pairs.bind Pairs.popSequence
      fun q q' hq => Pairs.bind Pairs.popSequence fun r r' hr => Pairs.bind Pairs.popBoolean
      fun b b' hb => ?_
    subst hb
    cases b
    · exact Pairs.pure (.some hq.2)
    · exact Pairs.pure (.some hr.2)
  | single =>
    refine Pairs.bind (Pairs.requireShape _ _ hword) fun _ _ _ => Pairs.bind Pairs.popSequence
      fun q q' hq => Pairs.bind Pairs.popBoolean fun b b' hb => ?_
    subst hb
    cases b
    · exact Pairs.pure .none
    · exact Pairs.pure (.some hq.2)

end Correspondence

/-! ## Quiet steps -/

/-- A step that leaves everything but values, streams and numbers as it is, and can only stop by a
failure that has no place yet. -/
def Quiet {α : Type} (m : Eval α) : Prop :=
  ∀ s, Still s (m.run s).state ∧
    ∀ halt t, m.run s = .stopped halt t → ∃ e, halt = .failed (Diagnostic.ofRuntime e)

/-- A run beside itself: the code is the same, and only where the two stand may differ. -/
def Correspondence.same (place : Interpreter → Interpreter → Prop)
    (failure : Diagnostic → Diagnostic → Prop)
    (place_still : ∀ {s s' t t'}, place s s' → Still s t → Still s' t' → place t t')
    (failure_ofRuntime : ∀ e, failure (Diagnostic.ofRuntime e) (Diagnostic.ofRuntime e)) :
    Correspondence where
  code c c' := c = c'
  place := place
  failure := failure
  error e e' := e = e'
  word w w' := w = w'
  tag n n' := n = n'
  supply n n' := n = n'
  exhaustion := False
  code_length h := congrArg List.length h
  code_literal _ _ _ _ hid _ h := by rw [hid, h]
  code_array _ _ _ _ hid _ h := by rw [hid, h]
  code_sequence _ _ _ _ _ _ _ hid _ hblock hb hc := by rw [hid, hblock, hb, hc]
  tag_of_supply h := h
  supply_succ h := congrArg (· + 1) h
  place_still := place_still
  error_refl _ := rfl
  error_shape _ _ h := by rw [← h]
  failure_ofRuntime h := h ▸ failure_ofRuntime _

/-- A run beside itself that stands where `base` does. -/
def Correspondence.still (base : Interpreter) : Correspondence :=
  .same (fun s _ => Still base s) (fun d _ => ∃ e, d = Diagnostic.ofRuntime e)
    (fun h hs _ => h.trans hs) fun e => ⟨e, rfl⟩

namespace Quiet

open Correspondence

variable {α : Type}

theorem states_still (s : Interpreter) : (still s).States s s :=
  ⟨List.forall₂_same.2 fun v _ => Values.refl (fun _ => rfl) (fun _ => rfl) v, rfl, rfl, rfl,
    Still.refl s⟩

theorem of_pairs {m : Eval α} {Q : Interpreter → α → α → Prop}
    (h : ∀ base, (still base).Pairs m m (Q base)) : Quiet m := by
  intro s
  have hout := h s s s (states_still s)
  cases hrun : m.run s with
  | done a t =>
    rw [hrun] at hout
    exact ⟨hout.2.place, fun _ _ hstop => by cases hstop⟩
  | stopped halt t =>
    rw [hrun] at hout
    cases halt with
    | exhausted => exact hout.1.elim
    | failed d =>
      obtain ⟨⟨e, he⟩, hstates⟩ := hout
      refine ⟨hstates.place, ?_⟩
      rintro halt u heq
      cases heq
      exact ⟨e, congrArg Halt.failed he⟩

end Quiet

/-- Whether a native function runs sequences. -/
def Native.runsCode : Native → Bool
  | exec | repeated | arrayMap => true
  | _ => false

/-- What a native function does that runs no code does not depend on how code is run. -/
theorem perform_eq (limit : Nat) (run : Code → Eval Unit) (access : Access) {f : Native}
    (hf : f.runsCode = false) :
    Library.perform limit run access f = Library.perform limit (fun _ => pure ()) access f := by
  cases f <;> first | rfl | cases hf

theorem quiet_native (limit : Nat) (run : Code → Eval Unit) (access : Access) {f : Native}
    (hf : f.runsCode = false) : Quiet (Library.perform limit run access f) := by
  rw [perform_eq limit run access hf]
  refine Quiet.of_pairs fun base => Correspondence.pairs_native limit f
    (fun _ _ _ => Correspondence.Pairs.pure trivial) ?_
  rintro rfl
  cases hf

end Catena

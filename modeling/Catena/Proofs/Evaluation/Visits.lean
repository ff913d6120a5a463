import Catena.Proofs.Evaluation.Correspondence
import Catena.Proofs.Evaluation.Run

/-!
# What a run visits

A run visits nodes, one after the other, each in some state and inside some other code. This is
listed beside the run: `starts` gives the code that the evaluation of one node starts, with the states
in which it is started, and `visits` goes from there through a whole run.

That nothing is left out is said in two ways. Whatever else a node does is quiet, so that its outcome
is accounted for by the outcomes of the code that it started (`Threads`). And namespaces change at
visits only: each visit finds them as the visit before it left them.
-/

namespace Catena

open Catena.Eval

namespace Evaluation

/-- How code comes to be run. -/
inductive Way
  /-- It was chosen by a condition. -/
  | branch
  /-- It is a sequence that a native function runs. -/
  | sequence
  | body (definition : Definition)
  | module (info : ProgramInfo)

/-- Whether the code that is run is that of a sequence. -/
def Way.runsSequence : Way → Bool
  | .branch => true
  | .sequence => true
  | _ => false

/-- Code that is started in a state. -/
structure Start where
  way : Way
  code : Code
  state : Interpreter

/-- What there is after an outcome with a result. -/
def followed {α β : Type} (k : α → Interpreter → List β) : Outcome Interpreter Halt α → List β
  | .done a t => k a t
  | .stopped _ _ => []

@[simp] theorem followed_nil {α β : Type} (o : Outcome Interpreter Halt α) :
    followed (fun _ _ => ([] : List β)) o = [] := by
  cases o <;> rfl

/-- What there is after a step that gives a result. -/
def following {α β : Type} (m : Eval α) (k : α → Interpreter → List β) (s : Interpreter) : List β :=
  followed k (m.run s)

section Starts

variable (limit : Nat) (run : Code → Eval Unit)

/-- The rounds of a loop. -/
def roundStarts (body : Code) : Nat → Float → Interpreter → List Start
  | 0, _, _ => []
  | limit + 1, times, s =>
    if times > 0.0 then
      ⟨.sequence, body, s⟩ :: following (run body) (fun _ => roundStarts body limit (times - 1.0)) s
    else []

/-- The uses of a sequence on the items of an array. -/
def itemStarts (body : Code) (array : TypedArray) : Nat → List Literal → Interpreter → List Start
  | _, [], _ => []
  | index, item :: rest, s =>
    following (push (.literal item)) (fun _ t => ⟨.sequence, body, t⟩ ::
      following (run body) (fun _ => following (onStack Stack.pop) fun mapped =>
        following (demand (array.set index mapped)) fun array =>
          itemStarts body array (index + 1) rest) t) s

/-- What a native function starts. -/
def nativeStarts : Native → Interpreter → List Start
  | .exec => following (onStack Stack.popSequence) fun sequence t => [⟨.sequence, sequence.body, t⟩]
  | .repeated =>
    following (onStack Stack.popSequence) fun sequence => following (onStack Stack.popNumber) fun times =>
      roundStarts run sequence.body limit times
  | .arrayMap =>
    following (onStack Stack.popSequence) fun sequence => following (onStack Stack.popArray) fun array =>
      itemStarts run sequence.body array 0 array.items.toList
  | _ => fun _ => []

/-- What a function starts in the state in which it is performed. -/
def functionStarts : Function → Interpreter → List Start
  | .native function _, s => nativeStarts limit run function s
  | .defined definition, s => [⟨.body definition, definition.body, s⟩]
  | .constant _ _, _ => []

/-- The state in which a function is performed that is called in `s`. -/
def enter (function : Function) (s : Interpreter) : Interpreter :=
  match function.home? with
  | some home =>
    { s with depth := s.depth + 1, current := home, file := function.file?.or s.file }
  | none => { s with depth := s.depth + 1 }

/-- The function that a use of a name enters: the one that the name stands for, if the stack has the
shape that it asks for and the limit leaves room. -/
def callee? (s : Interpreter) (m : Mark NodeId) (qualifier : Option Token) (name : String) :
    Option Function :=
  match lookUp s qualifier (s.scopes.nameOf m.tag name) with
  | .error _ => none
  | .ok f =>
    match s.stack.requireShape .pre f.pre m.token.lexeme with
    | .error _ => none
    | .ok _ => if s.maxDepth ≤ s.depth then none else some f

/-- The state in which the nodes of a program start that is run in `s`. -/
def opened (info : ProgramInfo) (s : Interpreter) : Interpreter :=
  if info.isRoot then { s with file := info.file.or s.file }
  else
    { s with spaces := s.spaces.fresh.2, current := s.spaces.fresh.1, file := info.file.or s.file }

/-- The code that the evaluation of a node starts, in order. -/
def starts (s : Interpreter) : Node NodeId → List Start
  | .condition m form =>
    following (branch m.token.lexeme form) (fun code t => (code.map (⟨.branch, ·, t⟩)).toList) s
  | .identifier m qualifier name =>
    (callee? s m qualifier name).elim [] fun f => functionStarts limit run f (enter f s)
  | .program _ info nodes => [⟨.module info, nodes, opened info s⟩]
  | _ => []

theorem starts_identifier (s : Interpreter) (m : Mark NodeId) (qualifier : Option Token)
    (name : String) : starts limit run s (.identifier m qualifier name) =
      (callee? s m qualifier name).elim [] fun f => functionStarts limit run f (enter f s) := rfl

end Starts

/-- The nodes of some code up to the first that stops, each with the state it is evaluated in. -/
def reached (f : Node NodeId → Eval Unit) : Code → Interpreter → List (Node NodeId × Interpreter)
  | [], _ => []
  | n :: rest, s => (n, s) :: following (f n) (fun _ => reached f rest) s

/-- The evaluation of a node: the state in which it starts, how the code comes to be run that the
node stands in, and so on outwards, and the fuel that there is for what the node runs. -/
structure Visit where
  node : Node NodeId
  state : Interpreter
  ways : List Way
  fuel : Nat

/-- What comes of a visit. -/
def Visit.outcome (v : Visit) : Outcome Interpreter Halt Unit :=
  (step v.fuel (exec v.fuel) v.node).run v.state

/-- The code that a visit starts. -/
def Visit.starts (v : Visit) : List Start :=
  Evaluation.starts v.fuel (exec v.fuel) v.state v.node

/-- The visits of a run, in order. -/
def visits : Nat → List Way → Code → Interpreter → List Visit
  | 0, _, _, _ => []
  | fuel + 1, ways, code, s =>
    (reached (step fuel (exec fuel)) code s).flatMap fun (n, t) =>
      ⟨n, t, ways, fuel⟩ :: (starts fuel (exec fuel) t n).flatMap fun start =>
        visits fuel (start.way :: ways) start.code start.state

/-! ## How outcomes come about -/

/-- What a step makes of an outcome that comes before it. -/
def goOn {α β : Type} (f : α → Eval β) :
    Outcome Interpreter Halt α → Outcome Interpreter Halt β
  | .done a t => (f a).run t
  | .stopped halt t => .stopped halt t

theorem run_bind_eq_goOn {α β : Type} (m : Eval α) (f : α → Eval β) (s : Interpreter) :
    (m >>= f).run s = goOn f (m.run s) := by
  rw [Action.run_bind]
  cases m.run s <;> rfl

/-- What names can stand for: the namespaces, and what the loaders have to offer. -/
structure Stock where
  spaces : Namespaces
  loaders : LoaderStack

end Evaluation

/-- What names can stand for in a state. -/
def Interpreter.stock (s : Interpreter) : Evaluation.Stock :=
  ⟨s.spaces, s.loaders⟩

namespace Evaluation

theorem stock_of_still {s t : Interpreter} (h : Still s t) : t.stock = s.stock := by
  unfold Interpreter.stock
  rw [h.spaces, h.loaders]

/-- A step from `s` that starts the given code, one after the other, and ends in the given outcome.
Between two starts, before the first and after the last it leaves the stock as it is.
If some code stops it stops with it; by itself it can only fail without a place, or give up a loop if
it may `loop`. -/
inductive Threads {α : Type} (run : Code → Eval Unit) (loop : Prop) :
    Interpreter → List Start → Outcome Interpreter Halt α → Prop
  | done {s t : Interpreter} (a : α) (h : t.stock = s.stock) : Threads run loop s [] (.done a t)
  | fails {s t : Interpreter} (e : RuntimeError) (h : t.stock = s.stock) :
    Threads run loop s [] (.stopped (.failed (Diagnostic.ofRuntime e)) t)
  | gives {s t : Interpreter} (hloop : loop) (h : t.stock = s.stock) :
    Threads run loop s [] (.stopped .exhausted t)
  | stops {s t u : Interpreter} {start : Start} {halt : Halt} (h : start.state.stock = s.stock)
    (hrun : (run start.code).run start.state = .stopped halt u) (h' : t.stock = u.stock) :
    Threads run loop s [start] (.stopped halt t)
  | goes {s u : Interpreter} {start : Start} {rest : List Start}
    {o : Outcome Interpreter Halt α} (h : start.state.stock = s.stock)
    (hrun : (run start.code).run start.state = .done () u) (hrest : Threads run loop u rest o) :
    Threads run loop s (start :: rest) o

namespace Threads

variable {α β : Type} {run : Code → Eval Unit} {loop : Prop} {s t : Interpreter}
  {sts : List Start} {o : Outcome Interpreter Halt α}

theorem of_quiet {m : Eval α} (h : Quiet m) (s : Interpreter) : Threads run loop s [] (m.run s) := by
  obtain ⟨hstill, hstop⟩ := h s
  cases hrun : m.run s with
  | done a t =>
    rw [hrun] at hstill
    exact .done a (stock_of_still hstill)
  | stopped halt t =>
    rw [hrun] at hstill
    obtain ⟨e, rfl⟩ := hstop halt t hrun
    exact .fails e (stock_of_still hstill)

theorem of_run (way : Way) (code : Code) (s : Interpreter) :
    Threads run loop s [⟨way, code, s⟩] ((run code).run s) := by
  cases hrun : (run code).run s with
  | done a t => exact .goes rfl hrun (.done a rfl)
  | stopped halt t => exact .stops rfl hrun rfl

theorem prepend (h : t.stock = s.stock) (ht : Threads run loop t sts o) : Threads run loop s sts o := by
  cases ht with
  | done a h' => exact .done a (h'.trans h)
  | fails e h' => exact .fails e (h'.trans h)
  | gives hloop h' => exact .gives hloop (h'.trans h)
  | stops h' hrun h'' => exact .stops (h'.trans h) hrun h''
  | goes h' hrun hrest => exact .goes (h'.trans h) hrun hrest

theorem continued {f : α → Eval β} {k : α → Interpreter → List Start}
    (h : Threads run loop s sts o)
    (hf : ∀ a t, o = .done a t → Threads run loop t (k a t) ((f a).run t)) :
    Threads run loop s (sts ++ followed k o) (goOn f o) := by
  induction h with
  | done a h => exact (hf a _ rfl).prepend h
  | fails e h => exact .fails e h
  | gives hloop h => exact .gives hloop h
  | stops h hrun h' => exact .stops h hrun h'
  | goes h hrun _ ih => exact .goes h hrun (ih hf)

theorem moved {g : Interpreter → Interpreter} (h : Threads run loop s sts o)
    (hg : ∀ u, (g u).stock = u.stock) : Threads run loop s sts (moved g o) := by
  induction h with
  | done a h => exact .done a ((hg _).trans h)
  | fails e h => exact .fails e ((hg _).trans h)
  | gives hloop h => exact .gives hloop ((hg _).trans h)
  | stops h hrun h' => exact .stops h hrun ((hg _).trans h')
  | goes h hrun _ ih => exact .goes h hrun ih

/-- One step after the other. -/
theorem bind {m : Eval α} {f : α → Eval β} {k : α → Interpreter → List Start}
    (hm : Threads run loop s sts (m.run s))
    (hf : ∀ a t, m.run s = .done a t → Threads run loop t (k a t) ((f a).run t)) :
    Threads run loop s (sts ++ following m k s) ((m >>= f).run s) := by
  rw [run_bind_eq_goOn]
  exact hm.continued hf

theorem bind_quiet {m : Eval α} {f : α → Eval β} {k : α → Interpreter → List Start}
    (hm : Quiet m) (hf : ∀ a t, m.run s = .done a t → Threads run loop t (k a t) ((f a).run t)) :
    Threads run loop s (following m k s) ((m >>= f).run s) :=
  bind (of_quiet hm s) hf

theorem mono {loop' : Prop} (h : Threads run loop s sts o) (hloop : loop → loop') :
    Threads run loop' s sts o := by
  induction h with
  | done a h => exact .done a h
  | fails e h => exact .fails e h
  | gives hl h => exact .gives (hloop hl) h
  | stops h hrun h' => exact .stops h hrun h'
  | goes h hrun _ ih => exact .goes h hrun ih

/-- A step that is out of fuel has given up a loop, or started code that is out of fuel. -/
theorem exhausted (h : Threads run loop s sts o) (ho : o = .stopped .exhausted t) :
    loop ∨ ∃ start ∈ sts, ∃ u, (run start.code).run start.state = .stopped .exhausted u := by
  induction h with
  | done | fails => cases ho
  | gives hloop => exact .inl hloop
  | stops h hrun h' =>
    cases ho
    exact .inr ⟨_, List.mem_cons_self, _, hrun⟩
  | goes h hrun _ ih =>
    rcases ih ho with hloop | ⟨start, hmem, hstart⟩
    · exact .inl hloop
    · exact .inr ⟨start, List.mem_cons_of_mem _ hmem, hstart⟩

/-- A step that fails does so by itself, after all the code that it started has come to its end, or
because some of that code has failed. -/
theorem failed {d : Diagnostic} (h : Threads run loop s sts o) (ho : o = .stopped (.failed d) t) :
    (∃ e, d = Diagnostic.ofRuntime e ∧
      ∀ start ∈ sts, ∃ u, (run start.code).run start.state = .done () u) ∨
    ∃ start ∈ sts, ∃ u, (run start.code).run start.state = .stopped (.failed d) u := by
  induction h with
  | done | gives => cases ho
  | fails e h =>
    cases ho
    exact .inl ⟨e, rfl, by simp⟩
  | stops h hrun h' =>
    cases ho
    exact .inr ⟨_, List.mem_cons_self, _, hrun⟩
  | goes h hrun _ ih =>
    rcases ih ho with ⟨e, he, hdone⟩ | ⟨start, hmem, hstart⟩
    · exact .inl ⟨e, he, List.forall_mem_cons.2 ⟨⟨_, hrun⟩, hdone⟩⟩
    · exact .inr ⟨start, List.mem_cons_of_mem _ hmem, hstart⟩

/-- If some of the code stops, so does the step. -/
theorem stopped (h : Threads run loop s sts o) {start : Start} (hmem : start ∈ sts) {halt : Halt}
    {u : Interpreter} (hstop : (run start.code).run start.state = .stopped halt u) :
    ∃ t, o = .stopped halt t := by
  induction h with
  | done | fails | gives => cases hmem
  | stops h hrun h' =>
    obtain rfl := List.mem_singleton.1 hmem
    rw [hrun] at hstop
    cases hstop
    exact ⟨_, rfl⟩
  | goes h hrun _ ih =>
    rcases List.mem_cons.1 hmem with rfl | hmem
    · rw [hrun] at hstop
      cases hstop
    · exact ih hmem

end Threads

section Quiet

open Correspondence

theorem quiet_pop : Quiet (onStack Stack.pop) := Quiet.of_pairs fun _ => Pairs.pop

theorem quiet_popNumber : Quiet (onStack Stack.popNumber) := Quiet.of_pairs fun _ => Pairs.popNumber

theorem quiet_popArray : Quiet (onStack Stack.popArray) := Quiet.of_pairs fun _ => Pairs.popArray

theorem quiet_popSequence : Quiet (onStack Stack.popSequence) :=
  Quiet.of_pairs fun _ => Pairs.popSequence

theorem quiet_pure {α : Type} (a : α) : Quiet (pure a : Eval α) :=
  fun s => ⟨Still.refl s, fun _ _ h => by cases h⟩

theorem quiet_push (value : Value) : Quiet (push value) := by
  intro s
  exact ⟨⟨rfl, rfl, rfl, rfl, rfl, rfl, rfl⟩, fun _ _ h => by cases h⟩

theorem quiet_demand {α : Type} (x : Except RuntimeError α) : Quiet (demand x) :=
  Quiet.of_pairs fun _ => Pairs.demand Results.of_eq

theorem quiet_requireShape (check : Check) (types : List ValueType) (lexeme : String) :
    Quiet (requireShape check types lexeme) :=
  Quiet.of_pairs fun _ => Pairs.requireShape check types rfl

theorem quiet_arithmetic (op : ArithmeticOp) (lexeme : String) : Quiet (arithmetic op lexeme) :=
  Quiet.of_pairs fun _ => pairs_arithmetic op rfl

theorem quiet_comparison (op : ComparisonOp) : Quiet (comparison op) :=
  Quiet.of_pairs fun _ => pairs_comparison op

theorem quiet_array (items : List Literal) :
    Quiet (do push (.array (← demand (TypedArray.ofLiterals items)))) :=
  Quiet.of_pairs fun _ => pairs_array items

theorem quiet_branch (form : Condition) (lexeme : String) : Quiet (branch lexeme form) :=
  Quiet.of_pairs fun _ => pairs_branch form rfl

end Quiet

/-! ## The code that functions start -/

section Functions

variable (limit : Nat) (run : Code → Eval Unit)

theorem threads_rounds (body : Code) (limit : Nat) (times : Float) (s : Interpreter) :
    Threads run True s (roundStarts run body limit times s)
      ((Library.rounds (run body) limit times).run s) := by
  induction limit generalizing times s with
  | zero =>
    unfold Library.rounds roundStarts
    split
    · exact .gives trivial rfl
    · exact .of_quiet (quiet_pure ()) s
  | succ limit ih =>
    unfold Library.rounds roundStarts
    split
    · exact Threads.bind (.of_run .sequence body s) fun _ t _ => ih (times - 1.0) t
    · exact .of_quiet (quiet_pure ()) s

theorem threads_mapItems {loop : Prop} (body : Code) (items : List Literal) (array : TypedArray)
    (index : Nat) (s : Interpreter) :
    Threads run loop s (itemStarts run body array index items s)
      ((Library.mapItems (run body) array index items).run s) := by
  induction items generalizing array index s with
  | nil => exact .of_quiet (quiet_pure array) s
  | cons item rest ih =>
    unfold Library.mapItems itemStarts
    refine Threads.bind_quiet (quiet_push _) fun _ t _ => ?_
    refine Threads.bind (.of_run .sequence body t) fun _ u _ => ?_
    refine Threads.bind_quiet quiet_pop fun mapped u _ => ?_
    exact Threads.bind_quiet (quiet_demand _) fun array u _ => ih array (index + 1) u

theorem threads_native (access : Access) (f : Native) (s : Interpreter) :
    Threads run (f = .repeated) s (nativeStarts limit run f s)
      ((Library.perform limit run access f).run s) := by
  cases f with
  | exec =>
    exact Threads.bind_quiet quiet_popSequence fun sequence t _ => .of_run .sequence sequence.body t
  | repeated =>
    refine Threads.bind_quiet quiet_popSequence fun sequence t _ => ?_
    refine Threads.bind_quiet quiet_popNumber fun times t _ => ?_
    exact (threads_rounds run sequence.body limit times t).mono fun _ => rfl
  | arrayMap =>
    refine Threads.bind_quiet quiet_popSequence fun sequence t _ => ?_
    refine Threads.bind_quiet quiet_popArray fun array t _ => ?_
    have hmap : Threads run (Native.arrayMap = Native.repeated) t _ _ :=
      threads_mapItems run sequence.body array.items.toList array 0 t
    have hpush := hmap.bind (k := fun _ _ => []) fun array u _ =>
      .of_quiet (quiet_push (.array array)) u
    rwa [following, followed_nil, List.append_nil] at hpush
  | _ => exact .of_quiet (quiet_native limit run access rfl) s

theorem threads_perform (f : Function) (s : Interpreter) :
    Threads run (∃ access, f = .native .repeated access) s (functionStarts limit run f s)
      ((perform limit run f).run s) := by
  cases f with
  | native function access =>
    refine (threads_native limit run access function s).mono ?_
    rintro rfl
    exact ⟨access, rfl⟩
  | defined definition => exact .of_run (.body definition) definition.body s
  | constant value home => exact .of_quiet (quiet_push value) s

/-- The state after a call in `s` of a function that leaves `t`. -/
def leave (function : Function) (s t : Interpreter) : Interpreter :=
  match function.home? with
  | some _ => { t with depth := t.depth - 1, current := s.current, file := s.file }
  | none => { t with depth := t.depth - 1 }

theorem stock_enter (f : Function) (s : Interpreter) : (enter f s).stock = s.stock := by
  unfold enter
  split <;> rfl

theorem depth_enter (f : Function) (s : Interpreter) : (enter f s).depth = s.depth + 1 := by
  unfold enter
  split <;> rfl

theorem file_opened (info : ProgramInfo) (s : Interpreter) :
    (opened info s).file = info.file.or s.file := by
  unfold opened
  split <;> rfl

theorem scopes_opened (info : ProgramInfo) (s : Interpreter) :
    (opened info s).scopes = s.scopes := by
  unfold opened
  split <;> rfl

theorem depth_opened (info : ProgramInfo) (s : Interpreter) : (opened info s).depth = s.depth := by
  unfold opened
  split <;> rfl

theorem maxDepth_opened (info : ProgramInfo) (s : Interpreter) :
    (opened info s).maxDepth = s.maxDepth := by
  unfold opened
  split <;> rfl

/-- What a new namespace keeps, opening a program keeps: a module gets one of its own. -/
theorem opened_preserves {J : Stock → Prop} {s : Interpreter} (h : J s.stock)
    (hfresh : J { s.stock with spaces := s.spaces.fresh.2 }) (info : ProgramInfo) :
    J (opened info s).stock := by
  unfold opened
  split
  · exact h
  · exact hfresh

theorem stock_leave (f : Function) (s t : Interpreter) : (leave f s t).stock = t.stock := by
  unfold leave
  split <;> rfl

theorem run_deeper (f : Function) (s : Interpreter) :
    (deeper (performAtHome limit run f)).run s =
      moved (leave f s) ((perform limit run f).run (enter f s)) := by
  unfold deeper performAtHome leave enter
  dsimp only
  cases f.home? with
  | none =>
    dsimp only
    cases (perform limit run f).run { s with depth := s.depth + 1 } <;> rfl
  | some home =>
    dsimp only
    rw [Action.run_bind, Action.run_state]
    dsimp only [within]
    cases (perform limit run f).run
      { s with depth := s.depth + 1, current := home, file := f.file?.or s.file } <;> rfl

theorem run_requireShape (check : Check) (types : List ValueType) (lexeme : String)
    (s : Interpreter) : (requireShape check types lexeme).run s =
      match s.stack.requireShape check types lexeme with
      | .ok _ => .done () s
      | .error e => .stopped (.failed (Diagnostic.ofRuntime e)) s := by
  unfold requireShape
  rw [Action.run_bind, Action.run_state]
  dsimp only
  cases s.stack.requireShape check types lexeme <;> rfl

theorem run_requireDepth (s : Interpreter) : requireDepth.run s =
    if s.maxDepth ≤ s.depth then
      .stopped (.failed (Diagnostic.ofRuntime (.depthExceeded s.maxDepth))) s
    else .done () s := by
  unfold requireDepth
  rw [Action.run_bind, Action.run_state]
  dsimp only
  split <;> rfl

/-- What a call does: it is refused, or the function is performed and the stack is checked again. -/
theorem run_invoke (f : Function) (lexeme : String) (s : Interpreter) :
    (invoke limit run f lexeme).run s =
      match s.stack.requireShape .pre f.pre lexeme with
      | .error e => .stopped (.failed (Diagnostic.ofRuntime e)) s
      | .ok _ =>
        if s.maxDepth ≤ s.depth then
          .stopped (.failed (Diagnostic.ofRuntime (.depthExceeded s.maxDepth))) s
        else
          goOn (fun _ => requireShape .post f.post lexeme)
            (moved (leave f s) ((perform limit run f).run (enter f s))) := by
  rw [invoke, Action.run_bind, run_requireShape]
  cases s.stack.requireShape .pre f.pre lexeme with
  | error e => rfl
  | ok _ =>
    dsimp only
    rw [Action.run_bind, run_requireDepth]
    by_cases hdepth : s.maxDepth ≤ s.depth
    · simp only [hdepth, if_true]
    · simp only [hdepth, if_false]
      rw [run_bind_eq_goOn, run_deeper]

/-- Which function is entered, once it has been found. -/
theorem callee?_eq {s : Interpreter} {m : Mark NodeId} {qualifier : Option Token} {name : String}
    {f : Function} (hf : lookUp s qualifier (s.scopes.nameOf m.tag name) = .ok f) :
    callee? s m qualifier name =
      match s.stack.requireShape .pre f.pre m.token.lexeme with
      | .error _ => none
      | .ok _ => if s.maxDepth ≤ s.depth then none else some f := by
  unfold callee?
  rw [hf]

theorem callee?_eq_none {s : Interpreter} {m : Mark NodeId} {qualifier : Option Token} {name : String}
    {e : RuntimeError} (he : lookUp s qualifier (s.scopes.nameOf m.tag name) = .error e) :
    callee? s m qualifier name = none := by
  unfold callee?
  rw [he]

theorem threads_invoke {s : Interpreter} {m : Mark NodeId} {qualifier : Option Token} {name : String}
    {f : Function} (hf : lookUp s qualifier (s.scopes.nameOf m.tag name) = .ok f) :
    Threads run (∃ access, callee? s m qualifier name = some (.native .repeated access)) s
      (starts limit run s (.identifier m qualifier name))
      ((invoke limit run f m.token.lexeme).run s) := by
  rw [starts_identifier, run_invoke, callee?_eq hf]
  cases s.stack.requireShape .pre f.pre m.token.lexeme with
  | error e => exact .fails e rfl
  | ok _ =>
    by_cases hdepth : s.maxDepth ≤ s.depth
    · simp only [hdepth, if_true]
      exact .fails _ rfl
    · simp only [hdepth, if_false, Option.some.injEq]
      have hperform := ((threads_perform limit run f (enter f s)).moved
        (stock_leave f s)).prepend (stock_enter f s)
      have hcall := hperform.continued (k := fun _ _ => []) fun _ t _ =>
        .of_quiet (quiet_requireShape .post f.post m.token.lexeme) t
      rwa [followed_nil, List.append_nil] at hcall

end Functions

/-! ## Where code is started -/

/-- A node calls a function. -/
def Calls (s : Interpreter) (n : Node NodeId) (f : Function) : Prop :=
  ∃ m qualifier name, n = .identifier m qualifier name ∧ callee? s m qualifier name = some f

theorem lookUp_of_callee? {s : Interpreter} {m : Mark NodeId} {qualifier : Option Token}
    {name : String} {f : Function} (h : callee? s m qualifier name = some f) :
    lookUp s qualifier (s.scopes.nameOf m.tag name) = .ok f ∧ s.depth < s.maxDepth := by
  unfold callee? at h
  split at h
  · cases h
  · next g hg =>
    split at h
    · cases h
    · split at h
      · cases h
      · next hdepth =>
        cases h
        exact ⟨hg, Nat.not_le.1 hdepth⟩

/-- How the evaluation of a node in `s` comes to start some code. -/
inductive Leads (s : Interpreter) : Node NodeId → Start → Prop
  | branch {m : Mark NodeId} {form : Condition} {code : Code} {t : Interpreter} (h : Still s t) :
    Leads s (.condition m form) ⟨.branch, code, t⟩
  | sequence {n : Node NodeId} {function : Native} {access : Access} {code : Code} {t : Interpreter}
    (hcalls : Calls s n (.native function access)) (h : Frame { s with depth := s.depth + 1 } t)
    (hsize : s.spaces.spaces.size ≤ t.spaces.spaces.size) : Leads s n ⟨.sequence, code, t⟩
  | body {n : Node NodeId} {d : Definition} (hcalls : Calls s n (.defined d)) :
    Leads s n ⟨.body d, d.body, enter (.defined d) s⟩
  | module {m : Mark NodeId} {info : ProgramInfo} {nodes : Code} :
    Leads s (.program m info nodes) ⟨.module info, nodes, opened info s⟩

section Allowed

variable {D : Discipline}

/-- A sequence that a native function runs: allowed, and in an allowed state in the same place. -/
structure Ready (D : Discipline) (base : Interpreter) (start : Start) : Prop where
  way : start.way = .sequence
  holds : D.Holds start.state
  allowed : D.AllowsCode start.code
  keeps : D.Keeps base start.state

theorem Ready.of_mem_following {α : Type} {m : Eval α} {Q : α → Prop} (hm : D.Alike m m Q)
    {s : Interpreter} (hs : D.Holds s) {k : α → Interpreter → List Start} {start : Start}
    (hk : ∀ a t, Q a → D.Holds t → start ∈ k a t → Ready D t start)
    (h : start ∈ following m k s) : Ready D s start := by
  have hends := (hm s hs).2
  unfold following followed at h
  split at h
  · next a t hrun =>
    rw [hrun] at hends
    obtain ⟨ht, hkeeps, ha⟩ := hends
    have hready := hk a t ha ht h
    exact ⟨hready.way, hready.holds, hready.allowed, hkeeps.trans hready.keeps⟩
  · cases h

theorem alike_branch (form : Condition) (lexeme : String) :
    D.Alike (branch lexeme form) (branch lexeme form)
      fun code => ∀ c, code = some c → D.AllowsCode c := by
  cases form with
  | branched =>
    refine Discipline.Alike.bind Discipline.Alike.requireShape fun _ _ =>
      Discipline.Alike.bind Discipline.Alike.popSequence fun otherwise ho =>
      Discipline.Alike.bind Discipline.Alike.popSequence fun chosen hc =>
      Discipline.Alike.bind Discipline.Alike.popBoolean fun b _ => Discipline.Alike.pure ?_
    rintro c ⟨⟩
    cases b
    · exact ho
    · exact hc
  | single =>
    refine Discipline.Alike.bind Discipline.Alike.requireShape fun _ _ =>
      Discipline.Alike.bind Discipline.Alike.popSequence fun chosen hc =>
      Discipline.Alike.bind Discipline.Alike.popBoolean fun b _ => Discipline.Alike.pure ?_
    cases b with
    | false => nofun
    | true =>
      rintro c ⟨⟩
      exact hc

variable {run : Code → Eval Unit}
  (hrun : ∀ code, D.AllowsCode code → D.Alike (run code) (run code) fun _ => True)

include hrun

theorem ready_of_mem_roundStarts {body : Code} (hbody : D.AllowsCode body) (limit : Nat)
    (times : Float) {s : Interpreter} (hs : D.Holds s) {start : Start}
    (h : start ∈ roundStarts run body limit times s) : Ready D s start := by
  induction limit generalizing times s with
  | zero => cases h
  | succ limit ih =>
    unfold roundStarts at h
    split at h
    · rcases List.mem_cons.1 h with rfl | h
      · exact ⟨rfl, hs, hbody, .refl s⟩
      · exact Ready.of_mem_following (hrun body hbody) hs (fun _ t _ ht => ih _ ht) h
    · cases h

theorem ready_of_mem_itemStarts {body : Code} (hbody : D.AllowsCode body) (items : List Literal)
    {array : TypedArray} (harray : D.array array) (index : Nat) {s : Interpreter} (hs : D.Holds s)
    {start : Start} (h : start ∈ itemStarts run body array index items s) : Ready D s start := by
  induction items generalizing array index s with
  | nil => cases h
  | cons item rest ih =>
    have hpush : D.Alike (push (.literal item)) (push (.literal item)) fun _ => True :=
      Discipline.Alike.push trivial
    unfold itemStarts at h
    refine Ready.of_mem_following hpush hs (fun _ t _ ht h => ?_) h
    rcases List.mem_cons.1 h with rfl | h
    · exact ⟨rfl, ht, hbody, .refl t⟩
    refine Ready.of_mem_following (hrun body hbody) ht (fun _ u _ hu h => ?_) h
    refine Ready.of_mem_following Discipline.Alike.pop hu (fun mapped w _ hw h => ?_) h
    exact Ready.of_mem_following (Discipline.alike_set harray index mapped) hw
      (fun array x ha hx => ih ha _ hx) h

theorem ready_of_mem_nativeStarts {limit : Nat} {f : Native} {s : Interpreter} (hs : D.Holds s)
    {start : Start} (h : start ∈ nativeStarts limit run f s) : Ready D s start := by
  unfold nativeStarts at h
  split at h
  · refine Ready.of_mem_following Discipline.Alike.popSequence hs (fun q t hq ht h => ?_) h
    obtain rfl := List.mem_singleton.1 h
    exact ⟨rfl, ht, hq, .refl t⟩
  · refine Ready.of_mem_following Discipline.Alike.popSequence hs (fun q t hq ht h => ?_) h
    refine Ready.of_mem_following Discipline.Alike.popNumber ht (fun times u _ hu h => ?_) h
    exact ready_of_mem_roundStarts hrun hq limit times hu h
  · refine Ready.of_mem_following Discipline.Alike.popSequence hs (fun q t hq ht h => ?_) h
    refine Ready.of_mem_following Discipline.Alike.popArray ht (fun a u ha hu h => ?_) h
    exact ready_of_mem_itemStarts hrun hq _ ha 0 hu h
  · cases h

omit hrun in
theorem holds_opened {s : Interpreter} (hs : D.Holds s) (info : ProgramInfo) :
    D.Holds (opened info s) := by
  unfold opened
  split
  · exact hs.of_eq rfl rfl rfl
  · exact ⟨hs.stack, hs.spaces.fresh, hs.loaders⟩

/-- **What a node starts is allowed**, and there are four ways to it. -/
theorem leads_of_mem_starts {limit : Nat} {s : Interpreter} (hs : D.Holds s) {n : Node NodeId}
    (hn : n.All D.node) {start : Start} (h : start ∈ starts limit run s n) :
    D.Holds start.state ∧ D.AllowsCode start.code ∧ Leads s n start := by
  cases n with
  | condition m form =>
    have hstill := (quiet_branch form m.token.lexeme s).1
    have hends := (alike_branch form m.token.lexeme s hs).2
    unfold starts following followed at h
    dsimp only at h
    split at h
    · next code t hbranch =>
      rw [hbranch] at hstill hends
      obtain ⟨chosen, hchosen, rfl⟩ := Option.map_eq_some_iff.1 (Option.mem_toList.1 h)
      exact ⟨hends.1, hends.2.2 chosen hchosen, .branch hstill⟩
    · cases h
  | identifier m qualifier name =>
    rw [starts_identifier] at h
    cases hcallee : callee? s m qualifier name with
    | none => rw [hcallee] at h; cases h
    | some f =>
      rw [hcallee, Option.elim_some] at h
      have hcalls : Calls s (.identifier m qualifier name) f := ⟨m, qualifier, name, rfl, hcallee⟩
      have hentered : D.Holds (enter f s) := by
        unfold enter
        split <;> exact hs.of_eq rfl rfl rfl
      cases f with
      | constant value home => cases h
      | defined d =>
        obtain rfl := List.mem_singleton.1 h
        exact ⟨hentered, Discipline.allowsFunction_lookUp hs (lookUp_of_callee? hcallee).1,
          .body hcalls⟩
      | native function access =>
        obtain ⟨hway, hholds, hallowed, hkeeps⟩ := ready_of_mem_nativeStarts hrun hentered h
        obtain ⟨way, code, t⟩ := start
        cases hway
        exact ⟨hholds, hallowed, .sequence hcalls hkeeps.toFrame hkeeps.size⟩
  | program m info nodes =>
    obtain rfl := List.mem_singleton.1 h
    exact ⟨holds_opened hs info, hn.2, .module⟩
  | _ => cases h

end Allowed

end Evaluation

end Catena

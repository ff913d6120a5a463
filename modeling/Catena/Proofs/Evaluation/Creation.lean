import Catena.Proofs.Evaluation.Course
import Catena.Proofs.Evaluation.Currying
import Catena.Proofs.Evaluation.Locals
import Catena.Proofs.Tree.Naming

/-!
# The nodes that a run creates

Running code creates a node only by currying. The node is numbered from the supply that reading a text
draws from, and no step of a run gives a number back (`Climbs`). So the nodes that the visits of a run
make have different numbers, from where the run starts and in the order of the visits
(`drawn_visits`). The scopes that a program brings are in force at each of its visits
(`scopes_visited`).
-/

namespace Catena

open Catena.Eval

namespace Evaluation

open Correspondence

/-! ## Steps that give no number back -/

/-- The next free number never becomes smaller. -/
def Climbs {α : Type} (m : Eval α) : Prop :=
  ∀ s, s.nextId ≤ (m.run s).state.nextId

/-- A run beside itself from where the numbers before `n` have been drawn. -/
def upward (n : NodeId) : Correspondence :=
  { Correspondence.same (fun _ _ => True) (fun _ _ => True) (fun _ _ _ => trivial)
      (fun _ => trivial) with
    supply := fun k k' => k = k' ∧ n ≤ k
    exhaustion := True
    tag_of_supply := fun h => h.1
    supply_succ := fun h => ⟨congrArg (· + 1) h.1, Nat.le_succ_of_le h.2⟩ }

namespace Climbs

variable {α β : Type}

theorem states_upward (s : Interpreter) : (upward s.nextId).States s s :=
  ⟨List.forall₂_same.2 fun v _ => Values.refl (fun _ => rfl) (fun _ => rfl) v, rfl, rfl,
    ⟨rfl, Nat.le_refl _⟩, trivial⟩

theorem of_pairs {m : Eval α} {Q : NodeId → α → α → Prop}
    (h : ∀ n, (upward n).Pairs m m (Q n)) : Climbs m := by
  intro s
  have hout := h s.nextId s s (states_upward s)
  cases hrun : m.run s with
  | done a t =>
    rw [hrun] at hout
    exact hout.2.nextId.2
  | stopped halt t =>
    rw [hrun] at hout
    cases halt <;> exact hout.2.nextId.2

theorem pop : Climbs (onStack Stack.pop) := of_pairs fun _ => Pairs.pop

theorem popNumber : Climbs (onStack Stack.popNumber) := of_pairs fun _ => Pairs.popNumber

theorem popArray : Climbs (onStack Stack.popArray) := of_pairs fun _ => Pairs.popArray

theorem popSequence : Climbs (onStack Stack.popSequence) := of_pairs fun _ => Pairs.popSequence

theorem push (value : Value) : Climbs (Eval.push value) :=
  fun s => Nat.le_refl s.nextId

theorem demand (x : Except RuntimeError α) : Climbs (Eval.demand x) :=
  of_pairs fun _ => Pairs.demand Results.of_eq

theorem requireShape (check : Check) (types : List ValueType) (lexeme : String) :
    Climbs (Eval.requireShape check types lexeme) :=
  of_pairs fun _ => Pairs.requireShape check types rfl

theorem branch (form : Condition) (lexeme : String) : Climbs (Evaluation.branch lexeme form) :=
  of_pairs fun _ => pairs_branch form rfl

theorem native (limit : Nat) (run : Code → Eval Unit) (access : Access) {f : Native}
    (hf : f.runsCode = false) : Climbs (Library.perform limit run access f) := by
  rw [perform_eq limit run access hf]
  exact of_pairs fun _ => pairs_native limit f (fun _ _ _ => Pairs.pure trivial) fun _ => trivial

end Climbs

/-! ## Numbers that code draws -/

/-- The supply is passed on through code that is started, one after the other: each finds no smaller
number than the one before it left. -/
inductive Supplies (run : Code → Eval Unit) : NodeId → List Start → NodeId → Prop
  | nil {n k : NodeId} (h : n ≤ k) : Supplies run n [] k
  | start {n k : NodeId} {start : Start} {sts : List Start} (h : n ≤ start.state.nextId)
    (hrest : Supplies run ((run start.code).run start.state).state.nextId sts k) :
    Supplies run n (start :: sts) k

namespace Supplies

variable {α β : Type} {run : Code → Eval Unit} {n k k' : NodeId} {sts : List Start}

theorem from_le {n' : NodeId} (h : Supplies run n sts k) (hn : n' ≤ n) : Supplies run n' sts k := by
  cases h with
  | nil h => exact .nil (Nat.le_trans hn h)
  | start h hrest => exact .start (Nat.le_trans hn h) hrest

theorem upto (h : Supplies run n sts k) (hk : k ≤ k') : Supplies run n sts k' := by
  induction h with
  | nil h => exact .nil (Nat.le_trans h hk)
  | start h _ ih => exact .start h (ih hk)

/-- A step that starts no code, and then others. -/
theorem bind {m : Eval α} {f : α → Eval β} {g : α → Interpreter → List Start} {s : Interpreter}
    (hm : Climbs m)
    (hf : ∀ a t, Supplies run t.nextId (g a t) ((f a).run t).state.nextId) :
    Supplies run s.nextId (following m g s) ((m >>= f).run s).state.nextId := by
  have hle := hm s
  rw [Action.run_bind]
  unfold following
  cases hrun : m.run s with
  | done a t =>
    rw [hrun] at hle
    exact (hf a t).from_le hle
  | stopped halt t =>
    rw [hrun] at hle
    exact .nil hle

/-- A step that starts some code, and then others. -/
theorem bind_run (way : Way) (code : Code) {f : Unit → Eval β} {g : Interpreter → List Start}
    {s : Interpreter} (hf : ∀ t, Supplies run t.nextId (g t) ((f ()).run t).state.nextId) :
    Supplies run s.nextId (⟨way, code, s⟩ :: following (run code) (fun _ => g) s)
      ((run code >>= f).run s).state.nextId := by
  refine .start (Nat.le_refl _) ?_
  rw [Action.run_bind]
  unfold following
  cases hrun : (run code).run s with
  | done a t => exact hf t
  | stopped halt t => exact .nil (Nat.le_refl _)

theorem of_run (way : Way) (code : Code) (s : Interpreter) :
    Supplies run s.nextId [⟨way, code, s⟩] ((run code).run s).state.nextId :=
  .start (Nat.le_refl _) (.nil (Nat.le_refl _))

/-- Steps that start no code may follow. -/
theorem bind_last {m : Eval α} {f : α → Eval β} {s : Interpreter}
    (hm : Supplies run s.nextId sts (m.run s).state.nextId) (hf : ∀ a, Climbs (f a)) :
    Supplies run s.nextId sts ((m >>= f).run s).state.nextId := by
  refine hm.upto ?_
  rw [Action.run_bind]
  cases m.run s with
  | done a t => exact hf a t
  | stopped halt t => exact Nat.le_refl _

end Supplies

section Nodes

variable (limit : Nat) (run : Code → Eval Unit)

theorem supplies_rounds (body : Code) (limit : Nat) (times : Float) (s : Interpreter) :
    Supplies run s.nextId (roundStarts run body limit times s)
      ((Library.rounds (run body) limit times).run s).state.nextId := by
  induction limit generalizing times s with
  | zero =>
    unfold Library.rounds roundStarts
    split <;> exact .nil (Nat.le_refl _)
  | succ limit ih =>
    unfold Library.rounds roundStarts
    split
    · exact Supplies.bind_run .sequence body fun t => ih (times - 1.0) t
    · exact .nil (Nat.le_refl _)

theorem supplies_mapItems (body : Code) (items : List Literal) (array : TypedArray) (index : Nat)
    (s : Interpreter) :
    Supplies run s.nextId (itemStarts run body array index items s)
      ((Library.mapItems (run body) array index items).run s).state.nextId := by
  induction items generalizing array index s with
  | nil => exact .nil (Nat.le_refl _)
  | cons item rest ih =>
    unfold Library.mapItems itemStarts
    refine Supplies.bind (.push _) fun _ t => Supplies.bind_run .sequence body fun u => ?_
    refine Supplies.bind .pop fun mapped u => ?_
    exact Supplies.bind (.demand _) fun array u => ih array (index + 1) u

theorem supplies_native (access : Access) (f : Native) (s : Interpreter) :
    Supplies run s.nextId (nativeStarts limit run f s)
      ((Library.perform limit run access f).run s).state.nextId := by
  cases f with
  | exec => exact Supplies.bind .popSequence fun sequence t => .of_run .sequence sequence.body t
  | repeated =>
    refine Supplies.bind .popSequence fun sequence t => Supplies.bind .popNumber fun times t => ?_
    exact supplies_rounds run sequence.body limit times t
  | arrayMap =>
    refine Supplies.bind .popSequence fun sequence t => Supplies.bind .popArray fun array t => ?_
    exact (supplies_mapItems run sequence.body array.items.toList array 0 t).bind_last fun _ => .push _
  | _ => exact .nil (Climbs.native limit run access rfl s)

theorem supplies_perform (f : Function) (s : Interpreter) :
    Supplies run s.nextId (functionStarts limit run f s)
      ((perform limit run f).run s).state.nextId := by
  cases f with
  | native function access => exact supplies_native limit run access function s
  | defined definition => exact .of_run (.body definition) definition.body s
  | constant value home => exact .nil (Nat.le_refl _)

end Nodes

/-! ## The nodes that currying makes -/

/-- The node that currying makes, if it does not fail: it stands in front of the new sequence. -/
def curriedFrom (s : Interpreter) : Option (Node NodeId) :=
  match Library.curry.run s with
  | .done _ t => (t.stack.peek?.bind Value.sequence?).bind (·.body.head?)
  | .stopped _ _ => none

/-- Without a sequence and a value below it, currying fails. -/
theorem curry_cases (s : Interpreter) : (∃ halt t, Library.curry.run s = .stopped halt t) ∨
    ∃ q value rest, s.stack.items = .sequence q :: value :: rest := by
  unfold Library.curry onStack Stack.popSequence Stack.popAs
  rw [Action.run_bind]
  dsimp only [Stack.pop]
  rcases hitems : s.stack.items with _ | ⟨top, _ | ⟨value, rest⟩⟩
  · exact .inl ⟨_, _, rfl⟩
  · cases top <;> exact .inl ⟨_, _, rfl⟩
  · cases top with
    | sequence q => exact .inr ⟨q, value, rest, rfl⟩
    | literal l => exact .inl ⟨_, _, rfl⟩
    | array a => exact .inl ⟨_, _, rfl⟩

/-- The number of a value's node is the one it is given. -/
theorem tag_pushing {id : NodeId} {value : Value} {n : Node NodeId}
    (h : Library.pushing id value = .ok n) : n.mark.tag = id := by
  cases value <;> cases h <;> rfl

/-- Currying draws a number for its node. -/
theorem drawn_curry (s : Interpreter) :
    Drawn s.nextId ((curriedFrom s).map (·.mark.tag)).toList (Library.curry.run s).state.nextId := by
  unfold curriedFrom
  rcases curry_cases s with ⟨halt, t, hrun⟩ | ⟨q, value, rest, hitems⟩
  · have hle : s.nextId ≤ (Library.curry.run s).state.nextId :=
      Climbs.native 0 (fun _ => Pure.pure ()) ⟨false, false⟩ (f := .curry) rfl s
    rw [hrun] at hle ⊢
    exact (Drawn.nil _).skip hle
  · obtain ⟨n, hn, hrun⟩ := run_curry hitems
    rw [hrun]
    have htags : ((some n).map (·.mark.tag)).toList = [s.nextId] := by
      rw [Option.map_some, tag_pushing hn, Option.toList_some]
    show Drawn s.nextId ((some n).map (·.mark.tag)).toList (s.nextId + 1)
    rw [htags]
    exact .single s.nextId

/-- Whether a function is the one that curries. -/
def isCurry : Function → Bool
  | .native .curry _ => true
  | _ => false

/-- The node that a function makes that is performed in the given state. -/
def madeBy (f : Function) (s : Interpreter) : Option (Node NodeId) :=
  if isCurry f then curriedFrom s else none

/-- The node that a visit makes, by calling the function that curries. -/
def Visit.made? (v : Visit) : Option (Node NodeId) :=
  match v.node with
  | .identifier m qualifier name =>
    (callee? v.state m qualifier name).bind fun f => madeBy f (enter f v.state)
  | _ => none

/-- The numbers of the nodes that visits make. -/
def madeIds (vs : List Visit) : List NodeId :=
  (vs.filterMap Visit.made?).map (·.mark.tag)

theorem madeIds_cons (v : Visit) (vs : List Visit) :
    madeIds (v :: vs) = (v.made?.map (·.mark.tag)).toList ++ madeIds vs := by
  unfold madeIds
  rw [List.filterMap_cons]
  cases v.made? <;> rfl

theorem madeIds_append (vs ws : List Visit) :
    madeIds (vs ++ ws) = madeIds vs ++ madeIds ws := by
  unfold madeIds
  rw [List.filterMap_append, List.map_append]

/-! ## Visits -/

section Visits

variable {limit fuel : Nat} {run : Code → Eval Unit} {s : Interpreter} {ways : List Way}

theorem nextId_enter (f : Function) (s : Interpreter) : (enter f s).nextId = s.nextId := by
  unfold enter
  split <;> rfl

theorem nextId_leave (f : Function) (s t : Interpreter) : (leave f s t).nextId = t.nextId := by
  unfold leave
  split <;> rfl

theorem nextId_opened (info : ProgramInfo) (s : Interpreter) :
    (opened info s).nextId = s.nextId := by
  unfold opened
  split <;> rfl

theorem nextId_closed (info : ProgramInfo) (s t : Interpreter) :
    (closed info s t).nextId = t.nextId := by
  unfold closed
  split <;> rfl

/-- What comes after a function in a call gives no number back. -/
theorem le_nextId_called (f : Function) (lexeme : String) (o : Outcome Interpreter Halt Unit) :
    o.state.nextId ≤
      (goOn (fun _ => requireShape .post f.post lexeme) (moved (leave f s) o)).state.nextId := by
  cases o with
  | stopped halt t => exact Nat.le_of_eq (nextId_leave f s t).symm
  | done a t =>
    have h := Climbs.requireShape .post f.post lexeme (leave f s t)
    rwa [nextId_leave] at h

theorem nextId_defineFunction (signature : Signature) (body : Code) :
    ((defineFunction signature body).run s).state.nextId = s.nextId := by
  rw [run_defineFunction]
  split <;> rfl

theorem nextId_bindValue (id : NodeId) (name : String) (isPublic : Bool) :
    ((bindValue id name isPublic).run s).state.nextId = s.nextId := by
  rw [run_bindValue]
  split <;> rfl

theorem nextId_importNames (request : Import) :
    ((importNames request).run s).state.nextId = s.nextId := by
  rw [run_importNames]
  split <;> rfl

/-- A number is drawn for the node that is made, if there is one, and then the supply is passed on
through code that is started. -/
def Draws (run : Code → Eval Unit) (n : NodeId) (made : Option (Node NodeId)) (sts : List Start)
    (k : NodeId) : Prop :=
  ∃ n', Drawn n (made.map (·.mark.tag)).toList n' ∧ Supplies run n' sts k

theorem Draws.of_supplies {n k : NodeId} {sts : List Start} (h : Supplies run n sts k) :
    Draws run n none sts k :=
  ⟨n, .nil n, h⟩

theorem Draws.upto {n k k' : NodeId} {made : Option (Node NodeId)} {sts : List Start}
    (h : Draws run n made sts k) (hk : k ≤ k') : Draws run n made sts k' := by
  obtain ⟨n', hdrawn, hsupplies⟩ := h
  exact ⟨n', hdrawn, hsupplies.upto hk⟩

theorem draws_perform (f : Function) (s : Interpreter) :
    Draws run s.nextId (madeBy f s) (functionStarts limit run f s)
      ((perform limit run f).run s).state.nextId := by
  unfold madeBy
  by_cases hcurry : isCurry f
  · rw [if_pos hcurry]
    obtain ⟨access, rfl⟩ : ∃ access, f = .native .curry access := by
      unfold isCurry at hcurry
      split at hcurry
      · exact ⟨_, rfl⟩
      · cases hcurry
    exact ⟨_, drawn_curry s, .nil (Nat.le_refl _)⟩
  · rw [if_neg hcurry]
    exact .of_supplies (supplies_perform limit run f s)

theorem draws_callName (m : Mark NodeId) (qualifier : Option Token) (name : String) :
    Draws run s.nextId (Visit.made? ⟨.identifier m qualifier name, s, ways, fuel⟩)
      (starts limit run s (.identifier m qualifier name))
      ((callName limit run m qualifier name).run s).state.nextId := by
  unfold Visit.made?
  rw [run_callName, starts_identifier]
  dsimp only
  cases hf : lookUp s qualifier (s.scopes.nameOf m.tag name) with
  | error e =>
    rw [callee?_eq_none hf]
    exact .of_supplies (.nil (Nat.le_refl _))
  | ok f =>
    dsimp only
    rw [state_onFailure, run_invoke, callee?_eq hf]
    cases s.stack.requireShape .pre f.pre m.token.lexeme with
    | error e => exact .of_supplies (.nil (Nat.le_refl _))
    | ok _ =>
      by_cases hdepth : s.maxDepth ≤ s.depth
      · simp only [hdepth, if_true]
        exact .of_supplies (.nil (Nat.le_refl _))
      · simp only [hdepth, if_false]
        have hperform : Draws run _ _ (functionStarts limit run f (enter f s)) _ :=
          draws_perform f (enter f s)
        rw [nextId_enter] at hperform
        exact hperform.upto (le_nextId_called f m.token.lexeme _)

/-- What a node draws: by itself, and then through what it starts. -/
theorem draws_step (n : Node NodeId) (s : Interpreter) :
    Draws (exec fuel) s.nextId (Visit.made? ⟨n, s, ways, fuel⟩) (starts fuel (exec fuel) s n)
      ((step fuel (exec fuel) n).run s).state.nextId := by
  rw [step, state_onFailure]
  have alone : ∀ {m : Eval Unit}, Climbs m →
      Draws (exec fuel) s.nextId none [] (m.run s).state.nextId := fun hm =>
    .of_supplies (.nil (hm s))
  have kept : ∀ {m : Eval Unit}, (m.run s).state.nextId = s.nextId →
      Draws (exec fuel) s.nextId none [] (m.run s).state.nextId := fun hm =>
    .of_supplies (.nil (Nat.le_of_eq hm.symm))
  cases n with
  | literal m value => exact alone (.push _)
  | sequence m block body => exact alone (.push _)
  | arithmetic m op => exact alone (.of_pairs fun _ => pairs_arithmetic op rfl)
  | comparison m op => exact alone (.of_pairs fun _ => pairs_comparison op)
  | array m items => exact alone (.of_pairs fun _ => pairs_array items)
  | definition m signature body => exact kept (nextId_defineFunction signature body)
  | binding m name isPublic => exact kept (nextId_bindValue m.tag name isPublic)
  | importing m request => exact kept (nextId_importNames request)
  | identifier m qualifier name => exact draws_callName m qualifier name
  | condition m form =>
    refine .of_supplies ?_
    rw [node, condition_eq]
    refine Supplies.bind (.branch form m.token.lexeme) fun code t => ?_
    cases code with
    | none => exact .nil (Nat.le_refl _)
    | some code => exact .of_run .branch code t
  | program m info nodes =>
    refine .of_supplies (.start (Nat.le_of_eq (nextId_opened info s).symm) (.nil ?_))
    rw [node, run_program]
    cases (exec fuel nodes).run (opened info s) with
    | stopped halt t => exact Nat.le_refl _
    | done a t => exact Nat.le_of_eq (nextId_closed info s t).symm

theorem Supplies.drawn (ways : List Way) (hrun : ∀ ways code s, Drawn s.nextId
      (madeIds (visits fuel ways code s)) ((exec fuel code).run s).state.nextId)
    {n k : NodeId} {sts : List Start} (h : Supplies (exec fuel) n sts k) :
    Drawn n (madeIds (sts.flatMap (startVisits fuel ways))) k := by
  induction h with
  | nil h => exact (Drawn.nil _).skip h
  | @start n k start sts h _ ih =>
    rw [List.flatMap_cons, madeIds_append]
    exact ((hrun (start.way :: ways) start.code start.state).skip h).append ih

/-- **A run numbers each node that it makes once**, whatever it does and however it ends. -/
theorem drawn_visits (fuel : Nat) (ways : List Way) (code : Code) (s : Interpreter) :
    Drawn s.nextId (madeIds (visits fuel ways code s)) ((exec fuel code).run s).state.nextId := by
  induction fuel generalizing ways code s with
  | zero => exact .nil _
  | succ fuel ihfuel =>
    unfold visits
    induction code generalizing s with
    | nil => exact .nil _
    | cons n rest ih =>
      obtain ⟨n', hmade, hstarts⟩ : Draws (exec fuel) _ (Visit.made? ⟨n, s, ways, fuel⟩) _ _ :=
        draws_step n s
      have hstep := hmade.append (hstarts.drawn ways ihfuel)
      rw [← madeIds_cons] at hstep
      rw [reached, exec_cons, List.flatMap_cons, madeIds_append, Action.run_bind]
      cases hrun : (step fuel (exec fuel) n).run s with
      | stopped halt t =>
        rw [hrun] at hstep
        rw [following, hrun, followed, List.flatMap_nil]
        exact hstep.append (.nil _)
      | done a t =>
        rw [hrun] at hstep
        rw [following, hrun]
        exact hstep.append (ih t)

end Visits

/-! ## Whole programs -/

section Programs

variable (fuel : Nat) (scopes : ScopeTable) (p : Program NodeId) (s : Interpreter)

theorem scopes_begun_extend : (begun scopes p s).scopes = s.scopes.extend scopes := by
  unfold begun
  rw [scopes_opened]

theorem drawn_visited : Drawn s.nextId (madeIds (visited fuel scopes p s))
    ((interpret fuel scopes p).run s).state.nextId := by
  have hdrawn := drawn_visits fuel [.module p.info] p.nodes (begun scopes p s)
  have hbegun : (begun scopes p s).nextId = s.nextId := by
    unfold begun
    rw [nextId_opened]
  rw [hbegun] at hdrawn
  rw [run_interpret]
  unfold visited
  cases hrun : (exec fuel p.nodes).run (begun scopes p s) with
  | stopped halt t =>
    rw [hrun] at hdrawn
    exact hdrawn
  | done a t =>
    rw [hrun] at hdrawn
    dsimp only [Outcome.state]
    rw [nextId_closed]
    exact hdrawn

theorem scopes_interpret :
    ((interpret fuel scopes p).run s).state.scopes = s.scopes.extend scopes := by
  have hframe := (exec_ends fuel p.nodes (begun scopes p s)).keeps.toFrame.scopes
  rw [scopes_begun_extend] at hframe
  rw [run_interpret]
  cases hrun : (exec fuel p.nodes).run (begun scopes p s) with
  | stopped halt t =>
    rw [hrun] at hframe
    exact hframe
  | done a t =>
    rw [hrun] at hframe
    unfold closed
    dsimp only [Outcome.state]
    split <;> exact hframe

/-- The scopes of a program are in force at each of its visits. -/
theorem scopes_visited : ∀ v ∈ visited fuel scopes p s,
    v.state.scopes = ((interpret fuel scopes p).run s).state.scopes := by
  intro v hv
  rw [scopes_visits v hv, scopes_begun_extend, scopes_interpret]

end Programs

end Evaluation

end Catena

import Catena.Proofs.Evaluation.Course

/-!
# The depth limit

The limit on nested calls is looked at in one place, where a call is entered. A step beside itself
with a higher limit therefore has the same outcome, but for the limit in its state, unless the lower
limit was too low (`Bears`). Most steps do not look at the limit at all (`Blind`); those that run code
bear a higher limit if the code does, and so does a whole run, by induction on its fuel.

The depth goes up by one where a call is entered and down by one where it is left, and in between the
call comes back to the depth at which it started. So the depth never goes below zero, and it goes up
only below the limit (`depth_visits`).
-/

namespace Catena

open Catena.Eval

/-- The state with another limit on nested calls. -/
def Interpreter.withLimit (s : Interpreter) (limit : Nat) : Interpreter :=
  { s with maxDepth := limit }

/-- Two states that stand in the same place but for the limit still do when nothing moves. -/
theorem Still.withLimit {s s' t t' : Interpreter} {limit : Nat} (h : Still (s.withLimit limit) s')
    (hs : Still s t) (hs' : Still s' t') : Still (t.withLimit limit) t' where
  current := hs'.current.trans (h.current.trans hs.current.symm)
  spaces := hs'.spaces.trans (h.spaces.trans hs.spaces.symm)
  loaders := hs'.loaders.trans (h.loaders.trans hs.loaders.symm)
  scopes := hs'.scopes.trans (h.scopes.trans hs.scopes.symm)
  file := hs'.file.trans (h.file.trans hs.file.symm)
  depth := hs'.depth.trans (h.depth.trans hs.depth.symm)
  maxDepth := hs'.maxDepth.trans h.maxDepth

/-- A run beside itself under another limit. -/
def Correspondence.limited (limit : Nat) : Correspondence :=
  .same (fun s s' => Still (s.withLimit limit) s') (fun d d' => d = d') Still.withLimit fun _ => rfl

namespace Correspondence

variable {limit : Nat}

theorem eq_of_values {v v' : Value} (h : (limited limit).Values v v') : v' = v := by
  cases h with
  | literal l => rfl
  | array a => rfl
  | sequence hblock hbody =>
    cases hblock
    cases hbody
    rfl

theorem states_limited (s : Interpreter) : (limited limit).States s (s.withLimit limit) :=
  ⟨List.forall₂_same.2 fun v _ => Values.refl (fun _ => rfl) (fun _ => rfl) v, rfl, rfl, rfl,
    Still.refl _⟩

theorem eq_of_states {s s' : Interpreter} (h : (limited limit).States s s') :
    s' = s.withLimit limit := by
  have hitems : s.stack.items = s'.stack.items :=
    List.forall₂_eq_eq_eq ▸ h.stack.imp fun _ _ hv => (eq_of_values hv).symm
  obtain ⟨-, hconsole, hrandom, hnextId, hplace⟩ := h
  obtain ⟨hcurrent, hspaces, hloaders, hscopes, hfile, hdepth, hmaxDepth⟩ := hplace
  obtain ⟨⟨items⟩, current, spaces, loaders, scopes, file, depth, maxDepth, console, random, nextId⟩
    := s
  obtain ⟨⟨items'⟩, current', spaces', loaders', scopes', file', depth', maxDepth', console',
    random', nextId'⟩ := s'
  cases hitems
  cases hconsole
  cases hrandom
  cases hnextId
  cases hcurrent
  cases hspaces
  cases hloaders
  cases hscopes
  cases hfile
  cases hdepth
  cases hmaxDepth
  rfl

end Correspondence

namespace Evaluation

/-! ## Steps that do not look at the limit -/

/-- A step does the same under every limit. -/
def Blind {α : Type} (m : Eval α) : Prop :=
  ∀ s limit, m.run (s.withLimit limit) = moved (·.withLimit limit) (m.run s)

namespace Blind

open Correspondence

variable {α : Type} {m : Eval α}

theorem of_pairs {Q : Nat → α → α → Prop} (h : ∀ limit, (limited limit).Pairs m m (Q limit))
    (hQ : ∀ limit a a', Q limit a a' → a' = a) : Blind m := by
  intro s limit
  have hout := h limit s (s.withLimit limit) (states_limited s)
  cases hrun : m.run s with
  | done a t =>
    cases hrun' : m.run (s.withLimit limit) with
    | done a' t' =>
      rw [hrun, hrun'] at hout
      rw [hQ limit a a' hout.1, eq_of_states hout.2]
      rfl
    | stopped halt' t' => rw [hrun, hrun'] at hout; exact hout.elim
  | stopped halt t =>
    cases hrun' : m.run (s.withLimit limit) with
    | done a' t' => rw [hrun, hrun'] at hout; cases halt <;> exact hout.elim
    | stopped halt' t' =>
      rw [hrun, hrun'] at hout
      cases halt <;> cases halt'
      · rw [← hout.1, eq_of_states hout.2]
        rfl
      · exact hout.elim
      · exact hout.elim
      · exact hout.1.elim

theorem of_pairs_unit {m : Eval Unit} (h : ∀ limit, (limited limit).Pairs m m fun _ _ => True) :
    Blind m :=
  of_pairs h fun _ _ _ _ => rfl

/-- A step that does not look at the limit leaves it as it is. -/
theorem maxDepth_eq (h : Blind m) (s : Interpreter) : (m.run s).state.maxDepth = s.maxDepth := by
  have hsame : m.run s = moved (·.withLimit s.maxDepth) (m.run s) := h s s.maxDepth
  cases hrun : m.run s with
  | done a t =>
    rw [hrun] at hsame
    injection hsame with _ hstate
    have hlimit := congrArg Interpreter.maxDepth hstate
    exact hlimit
  | stopped halt t =>
    rw [hrun] at hsame
    injection hsame with _ hstate
    have hlimit := congrArg Interpreter.maxDepth hstate
    exact hlimit

end Blind

section

open Correspondence

theorem blind_pure {α : Type} (a : α) : Blind (pure a) := fun _ _ => rfl

theorem blind_stop {α : Type} (halt : Halt) : Blind (Action.stop halt : Eval α) := fun _ _ => rfl

theorem blind_change {f : Interpreter → Interpreter}
    (h : ∀ s limit, f (s.withLimit limit) = (f s).withLimit limit) : Blind (Action.change f) :=
  fun s limit => congrArg (Outcome.done ()) (h s limit)

theorem blind_demand {α : Type} (x : Except RuntimeError α) : Blind (demand x) := by
  cases x <;> exact fun _ _ => rfl

theorem blind_push (value : Value) : Blind (push value) :=
  blind_change fun _ _ => rfl

theorem blind_nameOf (id : NodeId) (written : String) : Blind (nameOf id written) := fun _ _ => rfl

theorem blind_freshSpace : Blind freshSpace := fun _ _ => rfl

theorem blind_publish (space : NamespaceId) (info : ProgramInfo) : Blind (publish space info) :=
  blind_change fun _ _ => rfl

theorem blind_pop : Blind (onStack Stack.pop) :=
  .of_pairs (fun _ => Pairs.pop) fun _ _ _ => eq_of_values

theorem blind_popNumber : Blind (onStack Stack.popNumber) :=
  .of_pairs (fun _ => Pairs.popNumber) fun _ _ _ => Eq.symm

theorem blind_popArray : Blind (onStack Stack.popArray) :=
  .of_pairs (fun _ => Pairs.popArray) fun _ _ _ => Eq.symm

theorem blind_popSequence : Blind (onStack Stack.popSequence) := by
  refine .of_pairs (fun _ => Pairs.popSequence) ?_
  rintro _ ⟨block, body⟩ ⟨block', body'⟩ ⟨hblock, hbody⟩
  cases hblock
  cases hbody
  rfl

theorem blind_requireShape (check : Check) (types : List ValueType) (lexeme : String) :
    Blind (requireShape check types lexeme) :=
  .of_pairs_unit fun _ => Pairs.requireShape check types rfl

theorem blind_arithmetic (op : ArithmeticOp) (lexeme : String) : Blind (arithmetic op lexeme) :=
  .of_pairs_unit fun _ => pairs_arithmetic op rfl

theorem blind_comparison (op : ComparisonOp) : Blind (comparison op) :=
  .of_pairs_unit fun _ => pairs_comparison op

theorem blind_array (items : List Literal) :
    Blind (do push (.array (← demand (TypedArray.ofLiterals items)))) :=
  .of_pairs_unit fun _ => pairs_array items

theorem blind_branch (lexeme : String) (form : Condition) : Blind (branch lexeme form) := by
  refine .of_pairs (fun _ => pairs_branch form rfl) ?_
  rintro _ code code' (h | h)
  · exact congrArg some h.symm
  · rfl

theorem blind_defineFunction (signature : Signature) (body : Code) :
    Blind (defineFunction signature body) := by
  intro s limit
  rw [run_defineFunction, run_defineFunction]
  unfold Interpreter.withLimit
  dsimp only
  split <;> rfl

theorem blind_bindValue (id : NodeId) (name : String) (isPublic : Bool) :
    Blind (bindValue id name isPublic) := by
  intro s limit
  rw [run_bindValue, run_bindValue]
  unfold Interpreter.withLimit
  dsimp only
  split <;> rfl

theorem blind_importNames (request : Import) : Blind (importNames request) := by
  intro s limit
  have hsame : imported (s.withLimit limit) request = imported s request := rfl
  rw [run_importNames, run_importNames, hsame]
  split <;> rfl

/-- A native function that runs no code. -/
theorem blind_native (limit : Nat) (run : Code → Eval Unit) (access : Access) {f : Native}
    (hf : f.runsCode = false) : Blind (Library.perform limit run access f) := by
  rw [perform_eq limit run access hf]
  refine .of_pairs_unit fun _ => pairs_native limit f (fun _ _ _ => Pairs.pure trivial) ?_
  rintro rfl
  cases hf

end

/-! ## Steps that bear a higher limit -/

/-- An outcome that is the error of calls that nest too deep. -/
def TooDeep {α : Type} (o : Outcome Interpreter Halt α) : Prop :=
  ∃ d t limit, o = .stopped (.failed d) t ∧ d.cause = .runtime (.depthExceeded limit)

/-- A step leaves the limit as it is, and has the same outcome under a higher one, unless its calls
nest too deep. -/
def Bears {α : Type} (m : Eval α) : Prop :=
  ∀ s limit, s.maxDepth ≤ limit → (m.run s).state.maxDepth = s.maxDepth ∧
    (TooDeep (m.run s) ∨ m.run (s.withLimit limit) = moved (·.withLimit limit) (m.run s))

theorem Blind.bears {α : Type} {m : Eval α} (h : Blind m) : Bears m :=
  fun s limit _ => ⟨h.maxDepth_eq s, .inr (h s limit)⟩

namespace Bears

variable {α β : Type} {m : Eval α}

theorem bind {f : α → Eval β} (hm : Bears m) (hf : ∀ a, Bears (f a)) : Bears (m >>= f) := by
  intro s limit hlimit
  obtain ⟨hkept, hsame⟩ := hm s limit hlimit
  rw [Action.run_bind, Action.run_bind]
  cases hrun : m.run s with
  | stopped halt t =>
    rw [hrun] at hkept hsame
    refine ⟨hkept, hsame.imp ?_ fun heq => by rw [heq]; rfl⟩
    rintro ⟨d, u, n, heq, hd⟩
    cases heq
    exact ⟨d, t, n, rfl, hd⟩
  | done a t =>
    rw [hrun] at hkept hsame
    have heq : m.run (s.withLimit limit) = .done a (t.withLimit limit) := by
      rcases hsame with ⟨d, u, n, heq, -⟩ | heq
      · cases heq
      · exact heq
    have ht : t.maxDepth = s.maxDepth := hkept
    obtain ⟨hkept', hsame'⟩ := hf a t limit (ht ▸ hlimit)
    rw [heq]
    exact ⟨hkept'.trans ht, hsame'⟩

/-- A step that reads the state, but not the limit in it. -/
theorem stateful {k : Interpreter → Eval β} (hk : ∀ s, Bears (k s))
    (hsame : ∀ s limit, k (s.withLimit limit) = k s) : Bears (Action.state >>= k) := by
  intro s limit hlimit
  rw [Action.run_bind, Action.run_bind, Action.run_state, Action.run_state]
  dsimp only
  rw [hsame]
  exact hk s s limit hlimit

/-- A step inside another that changes the state before and after it, whatever the limit. -/
theorem around {m' : Eval α} {before : Interpreter → Interpreter}
    {after : Interpreter → Interpreter → Interpreter} (hm : Bears m)
    (hrun : ∀ s, m'.run s = moved (after s) (m.run (before s)))
    (hbefore : ∀ s limit, before (s.withLimit limit) = (before s).withLimit limit)
    (hafter : ∀ s t limit, after (s.withLimit limit) (t.withLimit limit) =
      (after s t).withLimit limit) : Bears m' := by
  intro s limit hlimit
  have hstart : (before s).maxDepth = s.maxDepth := by
    have h := congrArg Interpreter.maxDepth (hbefore s s.maxDepth)
    exact h
  obtain ⟨hkept, hsame⟩ := hm (before s) limit (hstart ▸ hlimit)
  have hend : ∀ t : Interpreter, t.maxDepth = (before s).maxDepth →
      (after s t).maxDepth = s.maxDepth := by
    intro t ht
    have hself : t.withLimit s.maxDepth = t := by
      rw [← hstart, ← ht]
      rfl
    have h := congrArg Interpreter.maxDepth (hafter s t s.maxDepth)
    rw [hself] at h
    exact h
  rw [hrun, hrun, hbefore]
  cases hm' : m.run (before s) with
  | done a t =>
    rw [hm'] at hkept hsame
    refine ⟨hend t hkept, .inr ?_⟩
    rcases hsame with ⟨d, u, n, heq, -⟩ | heq
    · cases heq
    · rw [heq]
      exact congrArg (Outcome.done a) (hafter s t limit)
  | stopped halt t =>
    rw [hm'] at hkept hsame
    refine ⟨hend t hkept, hsame.imp ?_ fun heq => ?_⟩
    · rintro ⟨d, u, n, heq, hd⟩
      cases heq
      exact ⟨d, _, n, rfl, hd⟩
    · rw [heq]
      exact congrArg (Outcome.stopped halt) (hafter s t limit)

theorem within (hm : Bears m) (home : NamespaceId) (file : Option String) :
    Bears (Eval.within home file m) :=
  hm.around (fun s => run_within home file m s) (fun _ _ => rfl) fun _ _ _ => rfl

theorem deeper (hm : Bears m) : Bears (Eval.deeper m) :=
  hm.around (fun s => Eval.run_deeper m s) (fun _ _ => rfl) fun _ _ _ => rfl

/-- Errors may be placed, as long as they keep their cause. -/
theorem onFailure {f : Option String → Diagnostic → Diagnostic}
    (hf : ∀ file d, (f file d).cause = d.cause) (hm : Bears m) : Bears (Eval.onFailure f m) := by
  intro s limit hlimit
  obtain ⟨hkept, hsame⟩ := hm s limit hlimit
  unfold Eval.onFailure
  dsimp only
  cases hrun : m.run s with
  | done a t =>
    rw [hrun] at hkept hsame
    refine ⟨hkept, .inr ?_⟩
    rcases hsame with ⟨d, u, n, heq, -⟩ | heq
    · cases heq
    · rw [heq]
      rfl
  | stopped halt t =>
    rw [hrun] at hkept hsame
    cases halt with
    | exhausted =>
      refine ⟨hkept, .inr ?_⟩
      rcases hsame with ⟨d, u, n, heq, -⟩ | heq
      · cases heq
      · rw [heq]
        rfl
    | failed d =>
      refine ⟨hkept, hsame.imp ?_ fun heq => by rw [heq]; rfl⟩
      rintro ⟨d', u, n, heq, hd⟩
      cases heq
      exact ⟨f t.file d, t, n, rfl, (hf t.file d).trans hd⟩

end Bears

/-! ## Runs -/

/-- A call that is entered under a limit is entered under a higher one. -/
theorem bears_requireDepth : Bears requireDepth := by
  intro s limit hlimit
  rw [run_requireDepth, run_requireDepth]
  by_cases hdepth : s.maxDepth ≤ s.depth
  · rw [if_pos hdepth]
    exact ⟨rfl, .inl ⟨_, _, _, rfl, rfl⟩⟩
  · have hdepth' : ¬(s.withLimit limit).maxDepth ≤ (s.withLimit limit).depth := fun hle =>
      hdepth (Nat.le_trans hlimit hle)
    rw [if_neg hdepth, if_neg hdepth']
    exact ⟨rfl, .inr rfl⟩

section Functions

variable {limit : Nat} {run : Code → Eval Unit} (hrun : ∀ code, Bears (run code))

include hrun

theorem bears_rounds (body : Code) (limit : Nat) (times : Float) :
    Bears (Library.rounds (run body) limit times) := by
  induction limit generalizing times with
  | zero =>
    unfold Library.rounds
    split
    · exact (blind_stop _).bears
    · exact (blind_pure ()).bears
  | succ limit ih =>
    unfold Library.rounds
    split
    · exact (hrun body).bind fun _ => ih (times - 1.0)
    · exact (blind_pure ()).bears

theorem bears_mapItems (body : Code) (items : List Literal) (array : TypedArray) (index : Nat) :
    Bears (Library.mapItems (run body) array index items) := by
  induction items generalizing array index with
  | nil => exact (blind_pure array).bears
  | cons item rest ih =>
    exact (blind_push _).bears.bind fun _ => (hrun body).bind fun _ =>
      blind_pop.bears.bind fun mapped => (blind_demand _).bears.bind fun array => ih array (index + 1)

theorem bears_native (access : Access) (f : Native) :
    Bears (Library.perform limit run access f) := by
  cases f with
  | exec => exact blind_popSequence.bears.bind fun sequence => hrun sequence.body
  | repeated =>
    exact blind_popSequence.bears.bind fun sequence => blind_popNumber.bears.bind fun times =>
      bears_rounds hrun sequence.body limit times
  | arrayMap =>
    exact blind_popSequence.bears.bind fun sequence => blind_popArray.bears.bind fun array =>
      (bears_mapItems hrun sequence.body array.items.toList array 0).bind fun array =>
        (blind_push (.array array)).bears
  | _ => exact (blind_native limit run access rfl).bears

theorem bears_perform (f : Function) : Bears (perform limit run f) := by
  cases f with
  | native function access => exact bears_native hrun access function
  | defined definition => exact hrun definition.body
  | constant value home => exact (blind_push value).bears

theorem bears_invoke (f : Function) (lexeme : String) : Bears (invoke limit run f lexeme) := by
  have home : Bears (performAtHome limit run f) := by
    unfold performAtHome
    split
    · exact .stateful (fun s => (bears_perform hrun f).within _ _) fun _ _ => rfl
    · exact bears_perform hrun f
  exact (blind_requireShape _ _ _).bears.bind fun _ => bears_requireDepth.bind fun _ =>
    home.deeper.bind fun _ => (blind_requireShape _ _ _).bears

theorem bears_callName (m : Mark NodeId) (qualifier : Option Token) (name : String) :
    Bears (callName limit run m qualifier name) := by
  refine (blind_nameOf m.tag name).bears.bind fun name => .stateful (fun s => ?_) fun _ _ => rfl
  exact (blind_demand _).bears.bind fun f =>
    (bears_invoke hrun f _).onFailure (Diagnostic.cause_throughCall _)

theorem bears_runProgram (info : ProgramInfo) (nodes : Code) :
    Bears (runProgram run info nodes) := by
  refine .stateful (fun s => ?_) fun _ _ => rfl
  dsimp only
  split
  · exact (hrun nodes).within _ _
  · exact blind_freshSpace.bears.bind fun space => ((hrun nodes).within _ _).bind fun _ =>
      (blind_publish space info).bears

theorem bears_node (n : Node NodeId) : Bears (node limit run n) := by
  cases n with
  | literal m value => exact (blind_push _).bears
  | sequence m block body => exact (blind_push _).bears
  | arithmetic m op => exact (blind_arithmetic op _).bears
  | comparison m op => exact (blind_comparison op).bears
  | array m items => exact (blind_array items).bears
  | definition m signature body => exact (blind_defineFunction signature body).bears
  | binding m name isPublic => exact (blind_bindValue _ _ _).bears
  | importing m request => exact (blind_importNames request).bears
  | identifier m qualifier name => exact bears_callName hrun m qualifier name
  | program m info nodes => exact bears_runProgram hrun info nodes
  | condition m form =>
    rw [node, condition_eq]
    refine (blind_branch _ form).bears.bind fun code => ?_
    cases code with
    | none => exact (blind_pure ()).bears
    | some code => exact hrun code

end Functions

theorem bears_exec (fuel : Nat) (code : Code) : Bears (exec fuel code) := by
  induction fuel generalizing code with
  | zero => exact (blind_stop _).bears
  | succ fuel ih =>
    induction code with
    | nil => exact (blind_pure ()).bears
    | cons n rest ihcode =>
      have hstep : Bears (step fuel (exec fuel) n) := (bears_node ih n).onFailure fun _ _ => rfl
      exact hstep.bind fun _ => ihcode

theorem bears_interpret (fuel : Nat) (scopes : ScopeTable) (p : Program NodeId) :
    Bears (interpret fuel scopes p) :=
  (blind_change fun _ _ => rfl).bears.bind fun _ =>
    (bears_runProgram (bears_exec fuel) p.info p.nodes).bind fun _ =>
      .stateful (fun s => (blind_pure s.stack.peek?).bears) fun _ _ => rfl

/-! ## The depth of calls -/

section Depth

variable {fuel : Nat} {ways : List Way} {code : Code} {s : Interpreter}

/-- What a function does that is called comes back to the depth at which it is done. -/
theorem depth_perform {n : Node NodeId} {f : Function} (h : Calls s n f) :
    ((perform fuel (exec fuel) f).run (enter f s)).state.depth = s.depth + 1 := by
  obtain ⟨m, qualifier, name, -, hcallee⟩ := h
  have hf : Discipline.anything.AllowsFunction f :=
    Discipline.allowsFunction_lookUp (Discipline.holds_anything s) (lookUp_of_callee? hcallee).1
  have hends := (Discipline.alike_perform (fun _ => alike_exec (D := .anything)
    (fun _ _ _ => Discipline.alike_importNames trivial fun _ => trivial) fuel) fuel hf (enter f s)
    (Discipline.holds_anything _)).2
  exact hends.keeps.depth.trans (depth_enter f s)

/-- Code that is started does not stand deeper than the limit. -/
theorem depth_start {n : Node NodeId} {start : Start} (h : s.depth ≤ s.maxDepth)
    (hstart : start ∈ starts fuel (exec fuel) s n) :
    start.state.depth ≤ start.state.maxDepth ∧ start.state.maxDepth = s.maxDepth := by
  have called : ∀ {f}, Calls s n f → s.depth + 1 ≤ s.maxDepth := fun ⟨_, _, _, _, hcallee⟩ =>
    (lookUp_of_callee? hcallee).2
  cases leads_starts hstart with
  | branch hstill =>
    rw [hstill.depth, hstill.maxDepth]
    exact ⟨h, rfl⟩
  | sequence hcalls hframe =>
    rw [hframe.depth, hframe.maxDepth]
    exact ⟨called hcalls, rfl⟩
  | body hcalls => exact ⟨called hcalls, rfl⟩
  | module =>
    rw [depth_opened, maxDepth_opened]
    exact ⟨h, rfl⟩

/-- Wherever a run comes to, it is not deeper than the limit. -/
theorem depth_visits (h : s.depth ≤ s.maxDepth) :
    ∀ v ∈ visits fuel ways code s,
      v.state.depth ≤ v.state.maxDepth ∧ v.state.maxDepth = s.maxDepth := by
  refine forall_visits
    (I := fun _ _ t => t.depth ≤ t.maxDepth ∧ t.maxDepth = s.maxDepth) ?_ ?_ ?_ ⟨h, rfl⟩
  · exact fun _ _ _ _ _ h => h
  · intro _ n _ t fuel u h hstep
    have hframe := frame_of_step hstep
    rw [hframe.depth, hframe.maxDepth]
    exact h
  · intro _ n _ t _ h start hstart
    obtain ⟨hdepth, hlimit⟩ := depth_start h.1 hstart
    exact ⟨hdepth, hlimit.trans h.2⟩

/-- How deep a visit goes: not beyond the limit, neither itself nor the code that it starts. A call
is entered one deeper and comes back to that depth before it is left, so that it ends where it
began. -/
structure Visit.WithinDepth (v : Visit) (limit : Nat) : Prop where
  state : v.state.depth ≤ limit
  starts : ∀ start ∈ v.starts, start.state.depth ≤ limit
  enters : ∀ f, Calls v.state v.node f →
    (enter f v.state).depth = v.state.depth + 1 ∧ v.state.depth + 1 ≤ limit
  leaves : ∀ f, Calls v.state v.node f →
    ((perform v.fuel (exec v.fuel) f).run (enter f v.state)).state.depth = v.state.depth + 1
  outcome : v.outcome.state.depth = v.state.depth

theorem withinDepth (h : s.depth ≤ s.maxDepth) {v : Visit} (hv : v ∈ visits fuel ways code s) :
    v.WithinDepth s.maxDepth := by
  obtain ⟨hdepth, hlimit⟩ := depth_visits h v hv
  refine ⟨hlimit ▸ hdepth, fun start hstart => ?_, fun f hf => ⟨depth_enter f v.state, ?_⟩,
    fun f hf => depth_perform hf, (step_frame v.fuel v.node v.state).depth⟩
  · obtain ⟨hstarted, hsame⟩ := depth_start hdepth hstart
    rw [← hlimit, ← hsame]
    exact hstarted
  · obtain ⟨_, _, _, _, hcallee⟩ := hf
    rw [← hlimit]
    exact (lookUp_of_callee? hcallee).2

theorem maxDepth_begun (scopes : ScopeTable) (p : Program NodeId) (s : Interpreter) :
    (begun scopes p s).maxDepth = s.maxDepth ∧ (begun scopes p s).depth = 0 :=
  ⟨maxDepth_opened p.info _, depth_opened p.info _⟩

end Depth

theorem Bears.eq_of_not_tooDeep {α : Type} {m : Eval α} (h : Bears m) {s : Interpreter} {limit : Nat}
    (hlimit : s.maxDepth ≤ limit) (hm : ¬TooDeep (m.run s)) :
    m.run (s.withLimit limit) = moved (·.withLimit limit) (m.run s) :=
  (h s limit hlimit).2.resolve_left hm

/-- **The depth limit cannot be observed**, but for the error that it is there for. Code, or a whole
program, that does not run into the limit has the same outcome under every higher one, and leaves the
same state but for the limit. The depth itself stays between zero and the limit: calls are entered
below the limit only, and a call that is left stands one deeper than where it was entered, however it
ends. -/
theorem depth_limit_unobservable :
    (∀ fuel code s limit, s.maxDepth ≤ limit → ¬TooDeep ((exec fuel code).run s) →
      (exec fuel code).run (s.withLimit limit) =
        moved (·.withLimit limit) ((exec fuel code).run s)) ∧
    (∀ fuel scopes p s limit, s.maxDepth ≤ limit → ¬TooDeep ((interpret fuel scopes p).run s) →
      (interpret fuel scopes p).run (s.withLimit limit) =
        moved (·.withLimit limit) ((interpret fuel scopes p).run s)) ∧
    (∀ fuel ways code s, s.depth ≤ s.maxDepth →
      ∀ v ∈ visits fuel ways code s, v.WithinDepth s.maxDepth) ∧
    ∀ fuel scopes p s, ∀ v ∈ visited fuel scopes p s, v.WithinDepth s.maxDepth := by
  refine ⟨fun fuel code _ _ => (bears_exec fuel code).eq_of_not_tooDeep,
    fun fuel scopes p _ _ => (bears_interpret fuel scopes p).eq_of_not_tooDeep,
    fun _ _ _ _ h _ => withinDepth h, fun fuel scopes p s v hv => ?_⟩
  obtain ⟨hlimit, hdepth⟩ := maxDepth_begun scopes p s
  rw [← hlimit]
  refine withinDepth ?_ hv
  rw [hdepth]
  exact Nat.zero_le _

/-- Code that binds a value to a name and calls it. -/
def boundAndCalled : Code :=
  let m (id : NodeId) : Mark NodeId := ⟨id, ⟨.identifier, "x", ⟨1, 1⟩⟩⟩
  [.literal (m 1) (.boolean true), .binding (m 2) "x" false, .identifier (m 3) none "x"]

/-- A single call fits into a limit of one, and into no smaller one. -/
theorem depth_limit_unobservable_one :
    let s := (Interpreter.withNatives {}).withLimit 1
    TooDeep ((exec 2 boundAndCalled).run (s.withLimit 0)) ∧
    ¬TooDeep ((exec 2 boundAndCalled).run s) ∧
    ∀ limit, 1 ≤ limit → (exec 2 boundAndCalled).run (s.withLimit limit) =
      moved (·.withLimit limit) ((exec 2 boundAndCalled).run s) := by
  intro s
  have hdone : ¬TooDeep ((exec 2 boundAndCalled).run s) := by
    rintro ⟨d, t, limit, h, -⟩
    cases h
  exact ⟨⟨_, _, 0, rfl, rfl⟩, hdone, fun limit hlimit =>
    depth_limit_unobservable.1 2 boundAndCalled s limit hlimit hdone⟩

end Evaluation

end Catena

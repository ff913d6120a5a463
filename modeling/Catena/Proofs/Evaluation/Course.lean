import Catena.Proofs.Evaluation.Visits

/-!
# The course of a run

What becomes of a node is accounted for by what becomes of the code that it starts (`Accounts`): it is
out of fuel only if it gave up a loop or started code that is out of fuel, and it fails only by itself,
when everything that it started has come to its end, or because something that it started has failed.

What names stand for changes at visits only: each visit finds the stock as the visit before it left
it, but for modules that have been handed over in between (`hands_visits`). What a visit does to the
stock by itself keeps what definitions, bindings, imports and new namespaces keep
(`Visit.effect_preserves`).
-/

namespace Catena

open Catena.Eval

namespace Evaluation

/-! ## The code that nodes start -/

section Nodes

variable {limit : Nat} {run : Code → Eval Unit} {s : Interpreter}

/-- The token at which a call is made. -/
def site (m : Mark NodeId) (qualifier : Option Token) : Position :=
  (qualifier.getD m.token).position

theorem run_callName (m : Mark NodeId) (qualifier : Option Token) (name : String) :
    (callName limit run m qualifier name).run s =
      match lookUp s qualifier (s.scopes.nameOf m.tag name) with
      | .ok f => (onFailure (fun file d => d.throughCall (site m qualifier) file)
          (invoke limit run f m.token.lexeme)).run s
      | .error e => .stopped (.failed (Diagnostic.ofRuntime e)) s := by
  unfold callName nameOf
  simp only [Action.run_bind, Action.run_state, Action.run_pure]
  cases lookUp s qualifier (s.scopes.nameOf m.tag name) <;> rfl

theorem run_bindValue (id : NodeId) (name : String) (isPublic : Bool) :
    (bindValue id name isPublic).run s =
      match s.stack.items with
      | value :: rest => .done ()
          { s with
            stack := ⟨rest⟩
            spaces := s.spaces.define s.current (s.scopes.nameOf id name)
              (.function (.constant value s.current)) isPublic }
      | [] => .stopped
          (.failed (Diagnostic.ofRuntime (s.stack.shapeError .pre .length [.any] name))) s := by
  unfold bindValue
  rw [Action.run_bind, run_requireShape]
  unfold Stack.requireShape
  cases h : s.stack.items with
  | nil => rfl
  | cons value rest =>
    have hshape : Stack.accepts [.any] (value :: rest) = true := rfl
    simp only [List.length_cons, List.length_nil, Stack.atLeast, hshape, Bool.not_true]
    simp [Action.run_bind, onStack, Stack.pop, h, nameOf, define]

theorem run_defineFunction (signature : Signature) (body : Code) :
    (defineFunction signature body).run s =
      if (s.spaces.get s.current).isDefined signature.name then
        .stopped (.failed (Diagnostic.ofRuntime (.alreadyDefined signature.name))) s
      else .done ()
        { s with
          spaces := s.spaces.define s.current signature.name
            (.function (.defined
              { name := signature.name, body, pre := signature.pre, post := signature.post,
                home := s.current, file := s.file })) signature.isPublic } := by
  unfold defineFunction
  rw [Action.run_bind, Action.run_state]
  dsimp only
  split <;> rfl

/-- The state after the nodes of a program that was run in `s` have left `t`. -/
def closed (info : ProgramInfo) (s t : Interpreter) : Interpreter :=
  if info.isRoot then { t with current := s.current, file := s.file }
  else
    { t with
      current := s.current
      file := s.file
      loaders := t.loaders.push
        (.module ⟨info.loaderKey, (t.spaces.get s.spaces.fresh.1).exported, info.origin⟩) }

theorem run_program (info : ProgramInfo) (nodes : Code) :
    (runProgram run info nodes).run s =
      match (run nodes).run (opened info s) with
      | .done _ t => .done () (closed info s t)
      | .stopped halt t => .stopped halt { t with current := s.current, file := s.file } := by
  unfold runProgram opened closed
  rw [Action.run_bind, Action.run_state]
  dsimp only
  split
  · dsimp only [within]
    cases (run nodes).run { s with current := s.current, file := info.file.or s.file } <;> rfl
  · rw [Action.run_bind]
    dsimp only [freshSpace]
    rw [Action.run_bind]
    dsimp only [within]
    cases (run nodes).run
      { s with
        current := s.spaces.fresh.1
        spaces := s.spaces.fresh.2
        file := info.file.or s.file } <;> rfl

/-- The outcome of a step that starts no code: it does not run out of fuel, and its failures have no
place yet. -/
def Plain {α : Type} : Outcome Interpreter Halt α → Prop
  | .done _ _ => True
  | .stopped halt _ => ∃ e, halt = .failed (Diagnostic.ofRuntime e)

theorem plain_of_quiet {α : Type} {m : Eval α} (h : Quiet m) (s : Interpreter) :
    Plain (m.run s) := by
  cases hrun : m.run s with
  | done a t => trivial
  | stopped halt t => exact (h s).2 halt t hrun

theorem plain_bindValue (id : NodeId) (name : String) (isPublic : Bool) :
    Plain ((bindValue id name isPublic).run s) := by
  rw [run_bindValue]
  split
  · trivial
  · exact ⟨_, rfl⟩

theorem plain_defineFunction (signature : Signature) (body : Code) :
    Plain ((defineFunction signature body).run s) := by
  rw [run_defineFunction]
  split
  · exact ⟨_, rfl⟩
  · trivial

theorem plain_importNames (request : Import) : Plain ((importNames request).run s) := by
  rw [run_importNames]
  split
  · trivial
  · exact ⟨_, rfl⟩


/-! ### Outcomes -/

/-- The outcome of a step, seen from the code that it started: why it is out of fuel, why it fails,
and what stops it. Errors of the step itself become diagnostics as `own` says, and `adapt` is what the
step makes of those that come out of the code. -/
structure Accounts (run : Code → Eval Unit) (loop : Prop) (own : RuntimeError → Diagnostic → Prop)
    (adapt : Diagnostic → Diagnostic) (sts : List Start) (o : Outcome Interpreter Halt Unit) :
    Prop where
  exhausted : ∀ t, o = .stopped .exhausted t →
    loop ∨ ∃ start ∈ sts, ∃ u, (run start.code).run start.state = .stopped .exhausted u
  failed : ∀ d t, o = .stopped (.failed d) t →
    (∃ e, own e d ∧ ∀ start ∈ sts, ∃ u, (run start.code).run start.state = .done () u) ∨
    ∃ start ∈ sts, ∃ d' u, (run start.code).run start.state = .stopped (.failed d') u ∧ d = adapt d'
  stopped : ∀ start ∈ sts, ∀ u, (run start.code).run start.state = .stopped .exhausted u →
    ∃ t, o = .stopped .exhausted t

namespace Accounts

variable {loop : Prop} {own : RuntimeError → Diagnostic → Prop} {adapt : Diagnostic → Diagnostic}
  {sts : List Start} {o : Outcome Interpreter Halt Unit}

theorem of_threads (h : Threads run loop s sts o) :
    Accounts run loop (fun e d => d = Diagnostic.ofRuntime e) id sts o where
  exhausted _ ho := h.exhausted ho
  failed d _ ho := by
    rcases h.failed ho with hown | ⟨start, hstart, u, hrun⟩
    · exact .inl hown
    · exact .inr ⟨start, hstart, d, u, hrun, rfl⟩
  stopped _ hmem _ hrun := h.stopped hmem hrun

theorem of_plain (h : Plain o) :
    Accounts run loop (fun e d => d = Diagnostic.ofRuntime e) adapt [] o where
  exhausted t ho := by
    subst ho
    obtain ⟨e, he⟩ := h
    cases he
  failed d t ho := by
    subst ho
    obtain ⟨e, he⟩ := h
    cases he
    exact .inl ⟨e, rfl, by simp⟩
  stopped _ hmem := by cases hmem

/-- What is done to failures is done in the file of the state that is left. -/
theorem onFailure {m : Eval Unit} {f : Option String → Diagnostic → Diagnostic}
    {own' : RuntimeError → Diagnostic → Prop} (h : Accounts run loop own adapt sts (m.run s))
    (hfile : (m.run s).state.file = s.file) (hown : ∀ e d, own e d → own' e (f s.file d)) :
    Accounts run loop own' (fun d => f s.file (adapt d)) sts ((Eval.onFailure f m).run s) := by
  unfold Eval.onFailure
  dsimp only
  cases ho : m.run s with
  | done a t =>
    rw [ho] at h
    refine ⟨fun _ hstop => (by cases hstop), fun _ _ hstop => (by cases hstop), ?_⟩
    intro start hmem u hrun
    obtain ⟨t, ht⟩ := h.stopped start hmem u hrun
    cases ht
  | stopped halt t =>
    rw [ho] at h hfile
    cases halt with
    | exhausted => exact ⟨h.exhausted, fun _ _ hstop => (by cases hstop), h.stopped⟩
    | failed d =>
      refine ⟨fun _ hstop => (by cases hstop), ?_, ?_⟩
      · rintro d' t' ⟨⟩
        change t.file = s.file at hfile
        rw [hfile]
        rcases h.failed d t rfl with ⟨e, he, hdone⟩ | ⟨start, hmem, d', u, hrun, rfl⟩
        · exact .inl ⟨e, hown e d he, hdone⟩
        · exact .inr ⟨start, hmem, d', u, hrun, rfl⟩
      · intro start hmem u hrun
        obtain ⟨t, ht⟩ := h.stopped start hmem u hrun
        cases ht

theorem mono {own' : RuntimeError → Diagnostic → Prop} (h : Accounts run loop own adapt sts o)
    (hown : ∀ e d, own e d → own' e d) : Accounts run loop own' adapt sts o where
  exhausted := h.exhausted
  failed d t ho := by
    rcases h.failed d t ho with ⟨e, he, hdone⟩ | hstart
    · exact .inl ⟨e, hown e d he, hdone⟩
    · exact .inr hstart
  stopped := h.stopped

end Accounts

end Nodes

section Steps

variable {fuel : Nat} {s : Interpreter}

theorem state_onFailure {α : Type} (f : Option String → Diagnostic → Diagnostic) (m : Eval α)
    (s : Interpreter) : ((onFailure f m).run s).state = (m.run s).state := by
  unfold onFailure
  dsimp only
  cases m.run s with
  | done a t => rfl
  | stopped halt t => cases halt <;> rfl

theorem exec_cons (fuel : Nat) (n : Node NodeId) (rest : Code) :
    exec (fuel + 1) (n :: rest) = step fuel (exec fuel) n >>= fun _ => exec (fuel + 1) rest := rfl

theorem step_frame (fuel : Nat) (n : Node NodeId) (s : Interpreter) :
    Frame s ((step fuel (exec fuel) n).run s).state := by
  have hframe := (exec_ends (fuel + 1) [n] s).keeps.toFrame
  have hsingle : exec (fuel + 1) [n] = step fuel (exec fuel) n >>= pure := rfl
  rwa [hsingle, Action.bind_pure] at hframe

theorem frame_of_step {n : Node NodeId} {t : Interpreter}
    (h : (step fuel (exec fuel) n).run s = .done () t) : Frame s t := by
  have hframe := step_frame fuel n s
  rw [h] at hframe
  exact hframe

theorem node_frame (fuel : Nat) (n : Node NodeId) (s : Interpreter) :
    Frame s ((node fuel (exec fuel) n).run s).state := by
  have hframe := step_frame fuel n s
  rwa [step, state_onFailure] at hframe

theorem step_of_done {limit : Nat} {run : Code → Eval Unit} {n : Node NodeId} {t : Interpreter}
    (h : (node limit run n).run s = .done () t) : (step limit run n).run s = .done () t := by
  unfold step onFailure
  dsimp only
  rw [h]

theorem requireShape_nil (stack : Stack) (check : Check) (lexeme : String) :
    stack.requireShape check [] lexeme = .ok () := by
  unfold Stack.requireShape
  cases hitems : stack.items <;> simp [Stack.atLeast, Stack.accepts]

/-- A name that stands for a value pushes the value, if calls do not nest too deep. -/
theorem run_constant {limit : Nat} {run : Code → Eval Unit} {m : Mark NodeId}
    {qualifier : Option Token} {name : String} {value : Value} {home : NamespaceId}
    (h : lookUp s qualifier (s.scopes.nameOf m.tag name) = .ok (.constant value home)) :
    (node limit run (.identifier m qualifier name)).run s =
      if s.maxDepth ≤ s.depth then
        .stopped (.failed ((Diagnostic.ofRuntime (.depthExceeded s.maxDepth)).throughCall
          (site m qualifier) s.file)) s
      else .done () { s with stack := s.stack.push value } := by
  rw [node, run_callName, h]
  dsimp only
  unfold onFailure
  dsimp only
  rw [run_invoke, Function.pre, requireShape_nil]
  by_cases hdepth : s.maxDepth ≤ s.depth
  · simp only [hdepth, if_true]
  · simp only [hdepth, if_false]
    unfold goOn moved
    simp only [perform, push, Action.run_change, run_requireShape, Function.post, requireShape_nil]
    rfl

/-- The tokens at which a node can be reported: its own, and for a call that of the qualifier. -/
def tokens : Node NodeId → List Token
  | .identifier m qualifier _ => [m.token, qualifier.getD m.token]
  | n => [n.mark.token]

/-- What a call makes of a failure that comes out of it; other nodes leave it as it is. -/
def relayed (n : Node NodeId) (file : Option String) (d : Diagnostic) : Diagnostic :=
  match n with
  | .identifier m qualifier _ => d.throughCall (site m qualifier) file
  | _ => d

/-- A run-time error that is raised by the node itself, before it has been located by the node. -/
def RaisedIn (n : Node NodeId) (file : Option String) (e : RuntimeError) (d : Diagnostic) : Prop :=
  d = Diagnostic.ofRuntime e ∨ d = relayed n file (Diagnostic.ofRuntime e)

theorem threads_condition {run : Code → Eval Unit} {limit : Nat} (m : Mark NodeId)
    (form : Condition) : Threads run False s (starts limit run s (.condition m form))
      ((node limit run (.condition m form)).run s) := by
  rw [node, condition_eq]
  refine Threads.bind_quiet (quiet_branch form m.token.lexeme) fun code t _ => ?_
  cases code with
  | none => exact .of_quiet (quiet_pure ()) t
  | some code => exact .of_run .branch code t

theorem accounts_program {run : Code → Eval Unit} {loop : Prop} {limit : Nat} (m : Mark NodeId)
    (info : ProgramInfo) (nodes : Code) :
    Accounts run loop (fun e d => d = Diagnostic.ofRuntime e) id
      (starts limit run s (.program m info nodes))
      ((node limit run (.program m info nodes)).run s) := by
  rw [node, run_program]
  cases hrun : (run nodes).run (opened info s) with
  | done a t =>
    refine ⟨fun _ hstop => (by cases hstop), fun _ _ hstop => (by cases hstop), ?_⟩
    intro start hmem u hstart
    obtain rfl := List.mem_singleton.1 hmem
    rw [hrun] at hstart
    cases hstart
  | stopped halt t =>
    refine ⟨?_, ?_, ?_⟩
    · rintro _ ⟨⟩
      exact .inr ⟨_, List.mem_singleton_self _, t, hrun⟩
    · rintro d _ ⟨⟩
      exact .inr ⟨_, List.mem_singleton_self _, d, t, hrun, rfl⟩
    · intro start hmem u hstart
      obtain rfl := List.mem_singleton.1 hmem
      rw [hrun] at hstart
      cases hstart
      exact ⟨_, rfl⟩

theorem accounts_node (fuel : Nat) (n : Node NodeId) (s : Interpreter) :
    Accounts (exec fuel) (∃ access, Calls s n (.native .repeated access)) (RaisedIn n s.file)
      (relayed n s.file) (starts fuel (exec fuel) s n) ((node fuel (exec fuel) n).run s) := by
  have plain : ∀ {o : Outcome Interpreter Halt Unit}, Plain o →
      Accounts (exec fuel) (∃ access, Calls s n (.native .repeated access)) (RaisedIn n s.file)
        (relayed n s.file) [] o := fun h => (Accounts.of_plain h).mono fun _ _ => .inl
  cases n with
  | literal m value => exact plain (plain_of_quiet (quiet_push _) s)
  | sequence m block body => exact plain (plain_of_quiet (quiet_push _) s)
  | arithmetic m op => exact plain (plain_of_quiet (quiet_arithmetic op m.token.lexeme) s)
  | comparison m op => exact plain (plain_of_quiet (quiet_comparison op) s)
  | array m items => exact plain (plain_of_quiet (quiet_array items) s)
  | definition m signature body => exact plain (plain_defineFunction signature body)
  | binding m name isPublic => exact plain (plain_bindValue m.tag name isPublic)
  | importing m request => exact plain (plain_importNames request)
  | condition m form =>
    exact (Accounts.of_threads ((threads_condition m form).mono False.elim)).mono fun _ _ => .inl
  | identifier m qualifier name =>
    have hframe := (node_frame fuel (.identifier m qualifier name) s).file
    rw [node, run_callName] at hframe ⊢
    cases hf : lookUp s qualifier (s.scopes.nameOf m.tag name) with
    | error e =>
      rw [starts_identifier, callee?_eq_none hf]
      exact plain ⟨e, rfl⟩
    | ok f =>
      rw [hf] at hframe
      dsimp only at hframe ⊢
      rw [state_onFailure] at hframe
      have hthreads := (threads_invoke fuel (exec fuel) hf).mono fun ⟨access, hcallee⟩ =>
        (⟨access, m, qualifier, name, rfl, hcallee⟩ : ∃ access, Calls s _ (.native .repeated access))
      exact (Accounts.of_threads hthreads).onFailure hframe fun _ _ he => .inr (by rw [he])
  | program m info nodes =>
    exact (accounts_program m info nodes).mono fun _ _ => .inl

/-- A run-time error as the node reports it that raised it, in the given file. -/
def Raised (n : Node NodeId) (file : Option String) (e : RuntimeError) (d : Diagnostic) : Prop :=
  ∃ token ∈ tokens n, d = { cause := .runtime e, position := some token.position, file }

theorem RaisedIn.locate {n : Node NodeId} {file : Option String} {e : RuntimeError} {d : Diagnostic}
    (h : RaisedIn n file e d) : Raised n file e (d.locate n.position file) := by
  have own : Raised n file e ((Diagnostic.ofRuntime e).locate n.position file) := by
    refine ⟨n.mark.token, ?_, rfl⟩
    cases n <;> simp [tokens, Node.mark]
  rcases h with rfl | rfl
  · exact own
  · unfold relayed
    split
    · next m qualifier name =>
      refine ⟨qualifier.getD m.token, by simp [tokens], ?_⟩
      simp [Diagnostic.throughCall, Diagnostic.ofRuntime, Diagnostic.locate, site]
    · exact own

/-- **What becomes of a node** follows from what becomes of the code that it starts. -/
theorem accounts_step (fuel : Nat) (n : Node NodeId) (s : Interpreter) :
    Accounts (exec fuel) (∃ access, Calls s n (.native .repeated access)) (Raised n s.file)
      (fun d => (relayed n s.file d).locate n.position s.file) (starts fuel (exec fuel) s n)
      ((step fuel (exec fuel) n).run s) :=
  (accounts_node fuel n s).onFailure (node_frame fuel n s).file fun _ _ => RaisedIn.locate

end Steps

/-! ## What names stand for -/

/-- The stock after what a visit does to it by itself; what it starts comes after that. -/
def Visit.effect (v : Visit) : Stock :=
  match v.node with
  | .definition _ signature body =>
    if (v.state.spaces.get v.state.current).isDefined signature.name then v.state.stock
    else
      { v.state.stock with
        spaces := v.state.spaces.define v.state.current signature.name
          (.function (.defined
            { name := signature.name, body, pre := signature.pre, post := signature.post,
              home := v.state.current, file := v.state.file })) signature.isPublic }
  | .binding m name isPublic =>
    match v.state.stack.items with
    | value :: _ =>
      { v.state.stock with
        spaces := v.state.spaces.define v.state.current (v.state.scopes.nameOf m.tag name)
          (.function (.constant value v.state.current)) isPublic }
    | [] => v.state.stock
  | .importing _ request =>
    match imported v.state request with
    | .ok spaces => { v.state.stock with spaces }
    | .error _ => v.state.stock
  | .program _ info _ => (opened info v.state).stock
  | _ => v.state.stock

/-- **What definitions, bindings, imports and new namespaces keep, every visit keeps.** -/
theorem Visit.effect_preserves {J : Stock → Prop} {v : Visit} (h : J v.state.stock)
    (hdefinition : ∀ m signature body, v.node = .definition m signature body →
      J { v.state.stock with
        spaces := v.state.spaces.define v.state.current signature.name
          (.function (.defined
            { name := signature.name, body, pre := signature.pre, post := signature.post,
              home := v.state.current, file := v.state.file })) signature.isPublic })
    (hbinding : ∀ m name isPublic value rest, v.node = .binding m name isPublic →
      v.state.stack.items = value :: rest →
      J { v.state.stock with
        spaces := v.state.spaces.define v.state.current (v.state.scopes.nameOf m.tag name)
          (.function (.constant value v.state.current)) isPublic })
    (himporting : ∀ m request spaces, v.node = .importing m request →
      imported v.state request = .ok spaces → J { v.state.stock with spaces })
    (hfresh : J { v.state.stock with spaces := v.state.spaces.fresh.2 }) : J v.effect := by
  unfold Visit.effect
  split
  · next m signature body hnode =>
    split
    · exact h
    · exact hdefinition m signature body hnode
  · next m name isPublic hnode =>
    split
    · next value rest hstack => exact hbinding m name isPublic value rest hnode hstack
    · exact h
  · next m request hnode =>
    split
    · next spaces himported => exact himporting m request spaces hnode himported
    · exact h
  · next m info nodes hnode => exact opened_preserves h hfresh info
  · exact h

/-- The stock is handed on from visit to visit. In between, modules are handed over. -/
inductive Hands : Stock → List Visit → Stock → Prop
  | nil (b : Stock) : Hands b [] b
  | publish {spaces : Namespaces} {loaders : LoaderStack} {vs : List Visit} {c : Stock} (key : String)
    (id : NamespaceId) (origin : Origin)
    (h : Hands ⟨spaces, loaders.push (.module ⟨key, (spaces.get id).exported, origin⟩)⟩ vs c) :
    Hands ⟨spaces, loaders⟩ vs c
  | visit {v : Visit} {vs : List Visit} {c : Stock} (h : Hands v.effect vs c) :
    Hands v.state.stock (v :: vs) c

namespace Hands

theorem append {b c d : Stock} {vs ws : List Visit} (h : Hands b vs c) (k : Hands c ws d) :
    Hands b (vs ++ ws) d := by
  induction h with
  | nil => exact k
  | publish key id origin _ ih => exact .publish key id origin (ih k)
  | visit _ ih => exact .visit (ih k)

theorem split {b d : Stock} {vs ws : List Visit} (h : Hands b (vs ++ ws) d) :
    ∃ c, Hands b vs c ∧ Hands c ws d := by
  generalize hl : vs ++ ws = l at h
  induction h generalizing vs with
  | nil b =>
    obtain ⟨rfl, rfl⟩ := List.append_eq_nil_iff.1 hl
    exact ⟨b, .nil b, .nil b⟩
  | publish key id origin _ ih =>
    obtain ⟨c, hvs, hws⟩ := ih hl
    exact ⟨c, .publish key id origin hvs, hws⟩
  | @visit v rest c hrest ih =>
    cases vs with
    | nil =>
      cases hl
      exact ⟨_, .nil _, .visit hrest⟩
    | cons w vs =>
      cases hl
      obtain ⟨c, hvs, hws⟩ := ih rfl
      exact ⟨c, .visit hvs, hws⟩

/-- What holds of the stock at first, and is kept by each visit and when a module is handed over,
holds at every visit and in the end. -/
theorem invariant {J : Stock → Prop} {b c : Stock} {vs : List Visit} (h : Hands b vs c)
    (hpublish : ∀ (spaces : Namespaces) (loaders : LoaderStack) (key : String) (id : NamespaceId)
      (origin : Origin), J ⟨spaces, loaders⟩ →
        J ⟨spaces, loaders.push (.module ⟨key, (spaces.get id).exported, origin⟩)⟩)
    (hvisit : ∀ v ∈ vs, J v.state.stock → J v.effect) (hb : J b) :
    J c ∧ ∀ v ∈ vs, J v.state.stock := by
  induction h with
  | nil => exact ⟨hb, by simp⟩
  | publish key id origin _ ih => exact ih hvisit (hpublish _ _ key id origin hb)
  | visit _ ih =>
    obtain ⟨hv, hvs⟩ := List.forall_mem_cons.1 hvisit
    obtain ⟨hc, hall⟩ := ih hvs (hv hb)
    exact ⟨hc, List.forall_mem_cons.2 ⟨hb, hall⟩⟩

end Hands

section Visits

variable {fuel : Nat} {ways : List Way}

/-- The stock is passed on through code that is started, one after the other. In between, the module
in the namespace `id` is handed over. -/
inductive Passes (run : Code → Eval Unit) (id : NamespaceId) : Stock → List Start → Stock → Prop
  | nil (b : Stock) : Passes run id b [] b
  | publish {spaces : Namespaces} {loaders : LoaderStack} {sts : List Start} {c : Stock}
    (key : String) (origin : Origin)
    (h : Passes run id ⟨spaces, loaders.push (.module ⟨key, (spaces.get id).exported, origin⟩)⟩ sts
      c) : Passes run id ⟨spaces, loaders⟩ sts c
  | start (start : Start) {sts : List Start} {c : Stock}
    (h : Passes run id ((run start.code).run start.state).state.stock sts c) :
    Passes run id start.state.stock (start :: sts) c

theorem passes_of_threads {run : Code → Eval Unit} {id : NamespaceId} {loop : Prop} {s : Interpreter}
    {sts : List Start} {o : Outcome Interpreter Halt Unit} (h : Threads run loop s sts o) :
    Passes run id s.stock sts o.state.stock := by
  induction h with
  | done a h | fails e h | gives hloop h =>
    rw [Outcome.state, h]
    exact .nil _
  | stops h hstart h' =>
    rw [Outcome.state, h', ← h]
    refine .start _ ?_
    rw [hstart]
    exact .nil _
  | goes h hstart _ ih =>
    rw [← h]
    refine .start _ ?_
    rw [hstart]
    exact ih

theorem passes_program {run : Code → Eval Unit} {limit : Nat} {s : Interpreter} (m : Mark NodeId)
    (info : ProgramInfo) (nodes : Code) :
    Passes run s.spaces.fresh.1 (opened info s).stock (starts limit run s (.program m info nodes))
      ((runProgram run info nodes).run s).state.stock := by
  refine .start ⟨.module info, nodes, opened info s⟩ ?_
  rw [run_program]
  cases (run nodes).run (opened info s) with
  | stopped halt t => exact .nil _
  | done a t =>
    dsimp only [Outcome.state]
    unfold closed
    split
    · exact .nil _
    · exact .publish info.loaderKey info.origin (.nil _)

/-- What a node does to the stock: by itself, and then through what it starts. -/
theorem passes_step (n : Node NodeId) (s : Interpreter) :
    Passes (exec fuel) s.spaces.fresh.1 (Visit.effect ⟨n, s, ways, fuel⟩)
      (starts fuel (exec fuel) s n) ((step fuel (exec fuel) n).run s).state.stock := by
  rw [step, state_onFailure]
  have quiet : ∀ {m : Eval Unit}, Quiet m →
      Passes (exec fuel) s.spaces.fresh.1 s.stock [] (m.run s).state.stock := by
    intro m hm
    rw [stock_of_still (hm s).1]
    exact .nil _
  cases n with
  | literal m value => exact quiet (quiet_push _)
  | sequence m block body => exact quiet (quiet_push _)
  | arithmetic m op => exact quiet (quiet_arithmetic op m.token.lexeme)
  | comparison m op => exact quiet (quiet_comparison op)
  | array m items => exact quiet (quiet_array items)
  | definition m signature body =>
    rw [node, run_defineFunction]
    unfold Visit.effect
    dsimp only
    split <;> exact .nil _
  | binding m name isPublic =>
    rw [node, run_bindValue]
    unfold Visit.effect
    dsimp only
    split <;> exact .nil _
  | importing m request =>
    rw [node, run_importNames]
    unfold Visit.effect
    dsimp only
    cases imported s request <;> exact .nil _
  | condition m form => exact passes_of_threads (threads_condition m form)
  | identifier m qualifier name =>
    rw [node, run_callName]
    cases hf : lookUp s qualifier (s.scopes.nameOf m.tag name) with
    | error e =>
      rw [starts_identifier, callee?_eq_none hf]
      exact .nil _
    | ok f =>
      dsimp only
      rw [state_onFailure]
      exact passes_of_threads (threads_invoke fuel (exec fuel) hf)
  | program m info nodes => exact passes_program m info nodes

/-- The visits of code that has been started. -/
def startVisits (fuel : Nat) (ways : List Way) (start : Start) : List Visit :=
  visits fuel (start.way :: ways) start.code start.state

theorem Passes.hands (ways : List Way) (hrun : ∀ ways code s, Hands s.stock (visits fuel ways code s)
      ((exec fuel code).run s).state.stock) {id : NamespaceId} {b c : Stock} {sts : List Start}
    (h : Passes (exec fuel) id b sts c) : Hands b (sts.flatMap (startVisits fuel ways)) c := by
  induction h with
  | nil b => exact .nil b
  | publish key origin _ ih => exact .publish key id origin ih
  | start start _ ih =>
    rw [List.flatMap_cons]
    exact (hrun (start.way :: ways) start.code start.state).append ih

/-- **Each visit finds what names stand for as the visit before it left it.** -/
theorem hands_visits (fuel : Nat) (ways : List Way) (code : Code) (s : Interpreter) :
    Hands s.stock (visits fuel ways code s) ((exec fuel code).run s).state.stock := by
  induction fuel generalizing ways code s with
  | zero => exact .nil _
  | succ fuel ihfuel =>
    unfold visits
    induction code generalizing s with
    | nil => exact .nil _
    | cons n rest ih =>
      have hstep := Hands.visit (v := ⟨n, s, ways, fuel⟩) ((passes_step n s).hands ways ihfuel)
      rw [reached, exec_cons, List.flatMap_cons, Action.run_bind]
      cases hrun : (step fuel (exec fuel) n).run s with
      | stopped halt t =>
        rw [hrun] at hstep
        rw [following, hrun, followed, List.flatMap_nil, List.append_nil]
        exact hstep
      | done a t =>
        rw [hrun] at hstep
        rw [following, hrun]
        exact hstep.append (ih t)

theorem mem_visits_cons {n : Node NodeId} {rest : Code} {s : Interpreter} {v : Visit} :
    v ∈ visits (fuel + 1) ways (n :: rest) s ↔
      v = ⟨n, s, ways, fuel⟩ ∨
      (∃ start ∈ starts fuel (exec fuel) s n, v ∈ startVisits fuel ways start) ∨
      ∃ t, (step fuel (exec fuel) n).run s = .done () t ∧ v ∈ visits (fuel + 1) ways rest t := by
  unfold visits startVisits
  rw [reached, List.flatMap_cons, List.mem_append, List.mem_cons, List.mem_flatMap, or_assoc]
  refine or_congr Iff.rfl (or_congr Iff.rfl ?_)
  unfold following
  cases h : (step fuel (exec fuel) n).run s with
  | stopped halt t => simp [followed]
  | done a t => simp [followed]

section Invariant

variable {J : Stock → Prop} {I : List Way → Code → Interpreter → Prop} {K Q : Visit → Prop}

theorem Passes.invariant {id : NamespaceId} (hpublish : ∀ (spaces : Namespaces)
      (loaders : LoaderStack) (key : String) (origin : Origin), J ⟨spaces, loaders⟩ →
        J ⟨spaces, loaders.push (.module ⟨key, (spaces.get id).exported, origin⟩)⟩)
    {b c : Stock} {sts : List Start} (h : Passes (exec fuel) id b sts c)
    (hstart : ∀ start ∈ sts, J start.state.stock →
      (∀ v ∈ startVisits fuel ways start, Q v) ∧
        J ((exec fuel start.code).run start.state).state.stock) (hb : J b) :
    (∀ start ∈ sts, ∀ v ∈ startVisits fuel ways start, Q v) ∧ J c := by
  induction h with
  | nil => exact ⟨by simp, hb⟩
  | publish key origin _ ih => exact ih hstart (hpublish _ _ key origin hb)
  | start _ _ ih =>
    obtain ⟨hfirst, hrest⟩ := List.forall_mem_cons.1 hstart
    obtain ⟨hQ, hJ⟩ := hfirst hb
    obtain ⟨hQ', hJ'⟩ := ih hrest hJ
    exact ⟨List.forall_mem_cons.2 ⟨hQ, hQ'⟩, hJ'⟩

/-- An invariant of the stock, and one of code in its state that may rely on the stock: what holds at
first, is handed on from node to node, and passes to the code that is started, holds wherever the run
comes to. What is known of the visits beforehand may be used at each of them. The namespace of a module
that is handed over was made at a visit. -/
theorem run_invariant (hpublish : ∀ (v : Visit) (spaces : Namespaces) (loaders : LoaderStack)
      (key : String) (origin : Origin), Q v → J ⟨spaces, loaders⟩ →
        J ⟨spaces, loaders.push
          (.module ⟨key, (spaces.get v.state.spaces.fresh.1).exported, origin⟩)⟩)
    (hvisit : ∀ ways n rest s fuel, K ⟨n, s, ways, fuel⟩ → I ways (n :: rest) s → J s.stock →
      Q ⟨n, s, ways, fuel⟩ ∧ J (Visit.effect ⟨n, s, ways, fuel⟩))
    (hnext : ∀ ways n rest s fuel t, I ways (n :: rest) s →
      (step fuel (exec fuel) n).run s = .done () t → I ways rest t)
    (hstart : ∀ ways n rest s fuel, Q ⟨n, s, ways, fuel⟩ → I ways (n :: rest) s → J s.stock →
      ∀ start ∈ starts fuel (exec fuel) s n, I (start.way :: ways) start.code start.state)
    {code : Code} {s : Interpreter} (hknown : ∀ v ∈ visits fuel ways code s, K v)
    (h : I ways code s) (hs : J s.stock) :
    (∀ v ∈ visits fuel ways code s, Q v) ∧ J ((exec fuel code).run s).state.stock := by
  induction fuel generalizing ways code s with
  | zero => exact ⟨fun v hv => (by cases hv), hs⟩
  | succ fuel ihfuel =>
    induction code generalizing s with
    | nil => exact ⟨fun v hv => (by cases hv), hs⟩
    | cons n rest ih =>
      obtain ⟨hQ, heffect⟩ := hvisit ways n rest s fuel (hknown _ (mem_visits_cons.2 (.inl rfl))) h hs
      obtain ⟨hstarts, hafter⟩ := (passes_step n s).invariant (Q := Q)
        (fun spaces loaders key origin => hpublish ⟨n, s, ways, fuel⟩ spaces loaders key origin hQ)
        (fun start hmem => ihfuel
          (fun v hv => hknown v (mem_visits_cons.2 (.inr (.inl ⟨start, hmem, hv⟩))))
          (hstart ways n rest s fuel hQ h hs start hmem)) heffect
      have later : ∀ t, (step fuel (exec fuel) n).run s = .done () t →
          ∀ v ∈ visits (fuel + 1) ways rest t, K v := fun t hstep v hv =>
        hknown v (mem_visits_cons.2 (.inr (.inr ⟨t, hstep, hv⟩)))
      rw [exec_cons, Action.run_bind]
      constructor
      · intro v hv
        rcases mem_visits_cons.1 hv with rfl | ⟨start, hmem, hv⟩ | ⟨t, hstep, hv⟩
        · exact hQ
        · exact hstarts start hmem v hv
        · rw [hstep] at hafter
          exact (ih (later t hstep) (hnext ways n rest s fuel t h hstep) hafter).1 v hv
      · cases hstep : (step fuel (exec fuel) n).run s with
        | stopped halt t =>
          rw [hstep] at hafter
          exact hafter
        | done a t =>
          rw [hstep] at hafter
          exact (ih (later t hstep) (hnext ways n rest s fuel t h hstep) hafter).2

/-- The same without an invariant of the stock. -/
theorem forall_visits (hvisit : ∀ ways n rest s fuel, I ways (n :: rest) s → Q ⟨n, s, ways, fuel⟩)
    (hnext : ∀ ways n rest s fuel t, I ways (n :: rest) s →
      (step fuel (exec fuel) n).run s = .done () t → I ways rest t)
    (hstart : ∀ ways n rest s fuel, I ways (n :: rest) s →
      ∀ start ∈ starts fuel (exec fuel) s n, I (start.way :: ways) start.code start.state)
    {code : Code} {s : Interpreter} (h : I ways code s) : ∀ v ∈ visits fuel ways code s, Q v :=
  (run_invariant (J := fun _ => True) (K := fun _ => True) (fun _ _ _ _ _ _ _ => trivial)
    (fun ways n rest s fuel _ h _ => ⟨hvisit ways n rest s fuel h, trivial⟩) hnext
    (fun ways n rest s fuel _ h _ => hstart ways n rest s fuel h) (fun _ _ => trivial) h trivial).1

end Invariant

theorem alike_exec {D : Discipline} (himports : ∀ m request, D.node (.importing m request) →
      D.Alike (importNames request) (importNames request) fun _ => True) (fuel : Nat) {code : Code}
    (hcode : D.AllowsCode code) : D.Alike (exec fuel code) (exec fuel code) fun _ => True := by
  have h := Discipline.alike_execWith himports fuel hcode
  rwa [execWith_importNames] at h

theorem alike_step {D : Discipline} (himports : ∀ m request, D.node (.importing m request) →
      D.Alike (importNames request) (importNames request) fun _ => True) (fuel : Nat)
    {n : Node NodeId} (hn : n.All D.node) :
    D.Alike (step fuel (exec fuel) n) (step fuel (exec fuel) n) fun _ => True := by
  have h : D.Alike (exec (fuel + 1) [n]) (exec (fuel + 1) [n]) fun _ => True :=
    alike_exec himports (fuel + 1) ⟨hn, trivial⟩
  have hsingle : exec (fuel + 1) [n] = step fuel (exec fuel) n >>= pure := rfl
  rwa [hsingle, Action.bind_pure] at h

/-- **Every visit keeps to the discipline** that a run keeps to. -/
theorem allowed_visits {D : Discipline} (himports : ∀ m request, D.node (.importing m request) →
      D.Alike (importNames request) (importNames request) fun _ => True) {code : Code}
    {s : Interpreter} (hs : D.Holds s) (hcode : D.AllowsCode code) :
    ∀ v ∈ visits fuel ways code s, D.Holds v.state ∧ v.node.All D.node := by
  refine forall_visits (I := fun _ code s => D.Holds s ∧ D.AllowsCode code) ?_ ?_ ?_ ⟨hs, hcode⟩
  · rintro _ n rest s _ ⟨hs, hcode⟩
    exact ⟨hs, hcode.1⟩
  · rintro _ n rest s fuel t ⟨hs, hcode⟩ hstep
    have hends := (alike_step himports fuel hcode.1 s hs).2
    rw [hstep] at hends
    exact ⟨hends.1, hcode.2⟩
  · rintro _ n rest s fuel ⟨hs, hcode⟩ start hmem
    obtain ⟨hholds, hallowed, -⟩ :=
      leads_of_mem_starts (fun _ => alike_exec himports fuel) hs hcode.1 hmem
    exact ⟨hholds, hallowed⟩

/-- There are four ways to code that is started. -/
theorem leads_starts {s : Interpreter} {n : Node NodeId} {start : Start}
    (h : start ∈ starts fuel (exec fuel) s n) : Leads s n start :=
  (leads_of_mem_starts (D := .anything)
    (fun _ => alike_exec (fun _ _ _ => Discipline.alike_importNames trivial fun _ => trivial) fuel)
    (Discipline.holds_anything s) (Node.all_of_forall (fun _ => trivial) n) h).2.2

end Visits

/-! ## Whole programs -/

/-- The state in which a program starts that is run in `s`, with its scopes. -/
def begun (scopes : ScopeTable) (p : Program NodeId) (s : Interpreter) : Interpreter :=
  opened p.info { s with scopes := s.scopes.extend scopes, depth := 0 }

theorem run_interpret (fuel : Nat) (scopes : ScopeTable) (p : Program NodeId) (s : Interpreter) :
    (interpret fuel scopes p).run s =
      match (exec fuel p.nodes).run (begun scopes p s) with
      | .done _ t =>
        .done t.stack.peek? (closed p.info { s with scopes := s.scopes.extend scopes, depth := 0 } t)
      | .stopped halt t => .stopped halt { t with current := s.current, file := s.file } := by
  unfold interpret begun
  rw [Action.run_bind, Action.run_change]
  dsimp only
  rw [Action.run_bind, run_program]
  cases (exec fuel p.nodes).run
    (opened p.info { s with scopes := s.scopes.extend scopes, depth := 0 }) with
  | stopped halt t => rfl
  | done a t =>
    have hstack : (closed p.info { s with scopes := s.scopes.extend scopes, depth := 0 } t).stack =
        t.stack := by
      unfold closed
      split <;> rfl
    dsimp only
    rw [← hstack]
    rfl

/-- The visits of a program that is run in `s`. -/
def visited (fuel : Nat) (scopes : ScopeTable) (p : Program NodeId) (s : Interpreter) : List Visit :=
  visits fuel [.module p.info] p.nodes (begun scopes p s)

end Evaluation

end Catena

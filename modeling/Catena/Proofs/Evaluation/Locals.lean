import Catena.Proofs.Evaluation.Linked
import Catena.Proofs.Evaluation.Stock
import Catena.Proofs.Linking.Names
import Catena.Proofs.Linking.Order

/-!
# The locals of functions

A local is a binding in the namespace that the function was defined in, under a name that carries the
name of the function. There is one such binding for all calls of the function. So a local has the
value that was bound last, by whichever call (`local_of_last`): a call inside a call that binds the
same local changes the value that the outer call sees from then on (`local_overwritten`).
-/

namespace Catena

open Catena.Eval Linking

/-- The discipline of code in functions and sequences: no imports and no modules, and all names are
words. -/
def Discipline.worded : Discipline where
  node n := n.Plain ∧ n.Named fun x => '$' ∉ x.toList
  array _ := True
  error _ := True
  modules := False
  node_literal _ _ := ⟨trivial, trivial⟩
  node_sequence _ _ _ := ⟨trivial, trivial⟩
  node_array _ _ := ⟨trivial, trivial⟩
  node_program h := h.1
  array_ofLiterals _ := trivial
  array_push _ _ := trivial
  array_set _ _ := trivial
  array_pop _ := trivial
  error_of _ := trivial

/-- The discipline of code whose functions have the names that a table gives them. -/
def Discipline.localized (table : ScopeTable) : Discipline where
  node n := ∀ m signature body, n = .definition m signature body →
    Scope.Localized table signature.name body
  array _ := True
  error _ := True
  modules := True
  node_literal _ _ _ _ _ := nofun
  node_sequence _ _ _ _ _ _ := nofun
  node_array _ _ _ _ _ := nofun
  node_program _ := trivial
  array_ofLiterals _ := trivial
  array_push _ _ := trivial
  array_set _ _ := trivial
  array_pop _ := trivial
  error_of _ := trivial

namespace Evaluation

/-! ## Namespaces that have been made -/

/-- If a function belongs to a namespace, it is one of the first `k`. -/
def Housed (k : Nat) (f : Function) : Prop :=
  ∀ home, f.home? = some home → home < k

/-- All functions in stock belong to namespaces that have been made. -/
def Stock.Made (b : Stock) : Prop :=
  Every (Housed b.spaces.spaces.size) b

theorem Housed.mono {k k' : Nat} (h : k ≤ k') {f : Function} (hf : Housed k f) : Housed k' f :=
  fun home hhome => Nat.lt_of_lt_of_le (hf home hhome) h

theorem Every.mono {P Q : Function → Prop} {b : Stock} (h : Every P b) (hPQ : ∀ f, P f → Q f) :
    Every Q b :=
  ⟨fun id name f hf => hPQ f (h.bound id name f hf),
    fun m hm name f hf => hPQ f (h.offered m hm name f hf)⟩

theorem size_effect (v : Visit) :
    v.state.spaces.spaces.size ≤ v.effect.spaces.spaces.size :=
  v.effect_preserves (J := fun b => v.state.spaces.spaces.size ≤ b.spaces.spaces.size)
    (Nat.le_refl _)
    (fun _ _ _ _ => Nat.le_of_eq (Namespaces.size_define ..).symm)
    (fun _ _ _ _ _ _ _ => Nat.le_of_eq (Namespaces.size_define ..).symm)
    (fun _ _ _ _ himported => size_imported himported)
    (Namespaces.grows_fresh _).size

theorem Stock.Made.effect {v : Visit} (h : v.state.stock.Made)
    (hcurrent : v.state.current < v.state.spaces.spaces.size) : v.effect.Made := by
  have hv : Every (Housed v.state.spaces.spaces.size) v.effect := by
    refine Every.effect h ?_ ?_ ?_
    · rintro m signature body - home ⟨⟩
      exact hcurrent
    · rintro m name isPublic value rest - - home ⟨⟩
      exact hcurrent
    · rintro m request - f home ⟨⟩
  exact hv.mono fun f => Housed.mono (size_effect v)

theorem size_step {fuel : Nat} {n : Node NodeId} {s t : Interpreter}
    (h : (step fuel (exec fuel) n).run s = .done () t) :
    s.spaces.spaces.size ≤ t.spaces.spaces.size := by
  have hn : n.All Discipline.anything.node := Node.all_of_forall (fun _ => trivial) n
  have hends := (alike_step (fun _ _ _ => Discipline.alike_importNames trivial fun _ => trivial) fuel
    hn s (Discipline.holds_anything s)).2
  rw [h] at hends
  exact hends.2.1.size

/-- A state in a namespace that has been made, as are those of all functions. -/
structure Built (s : Interpreter) : Prop where
  current : s.current < s.spaces.spaces.size
  made : s.stock.Made

theorem built_visits {fuel : Nat} {ways : List Way} {code : Code} {s : Interpreter} (h : Built s) :
    ∀ v ∈ visits fuel ways code s, Built v.state := by
  refine (run_invariant (K := fun _ => True) (J := Stock.Made)
    (I := fun _ _ s => s.current < s.spaces.spaces.size) ?publish ?visit ?next ?start
    (fun _ _ => trivial) h.current h.made).1
  case publish => exact fun v _ _ key origin _ h => Every.publish h key v.state.spaces.fresh.1 origin
  case visit => exact fun _ n _ s fuel _ hcurrent hs => ⟨⟨hcurrent, hs⟩, hs.effect hcurrent⟩
  case next =>
    intro _ n _ s fuel t hcurrent hstep
    rw [(frame_of_step hstep).current]
    exact Nat.lt_of_lt_of_le hcurrent (size_step hstep)
  case start =>
    intro _ n _ s fuel _ hcurrent hs start hstart
    cases leads_starts hstart with
    | branch hstill =>
      rw [hstill.current, hstill.spaces]
      exact hcurrent
    | sequence _ hframe hsize =>
      rw [hframe.current]
      exact Nat.lt_of_lt_of_le hcurrent hsize
    | @body _ d hcalls =>
      obtain ⟨m, qualifier, name, -, hcallee⟩ := hcalls
      obtain ⟨space, hbound⟩ := function?_of_lookUp (lookUp_of_callee? hcallee).1
      exact hs.bound space _ _ hbound d.home rfl
    | @module m info nodes =>
      unfold opened
      split
      · exact hcurrent
      · exact (Namespaces.size_fresh s.spaces).symm ▸ Nat.lt_succ_self _

/-! ## Code around modules -/

/-- Allowed code, with imports and modules at the top. -/
inductive Layered (D : Discipline) : Code → Prop
  | inner {code : Code} (h : D.AllowsCode code) : Layered D code
  | importing {m : Mark NodeId} {request : Import} {rest : Code} (h : Layered D rest) :
    Layered D (.importing m request :: rest)
  | module {m : Mark NodeId} {info : ProgramInfo} {nodes rest : Code} (h : Layered D nodes)
    (h' : Layered D rest) : Layered D (.program m info nodes :: rest)

section Layers

variable {D : Discipline} (himports : ∀ m request, D.node (.importing m request) →
  D.Alike (importNames request) (importNames request) fun _ => True)

theorem holds_closed {s t : Interpreter} (ht : D.Holds t) (info : ProgramInfo) :
    D.Holds (closed info s t) := by
  unfold closed
  split
  · exact ht.of_eq rfl rfl rfl
  · refine ⟨ht.stack, ht.spaces, fun l hl => ?_⟩
    rcases List.mem_cons.1 hl with rfl | hl
    · exact (ht.spaces _).exported
    · exact ht.loaders l hl

theorem holds_importing (fuel : Nat) {s : Interpreter} (hs : D.Holds s) (m : Mark NodeId)
    (request : Import) : D.Holds ((step fuel (exec fuel) (.importing m request)).run s).state := by
  rw [step, state_onFailure, node, run_importNames]
  cases himported : imported s request with
  | error e => exact hs
  | ok spaces => exact ⟨hs.stack, Discipline.allowsSpaces_imported hs himported, hs.loaders⟩

theorem holds_module {fuel : Nat} {nodes : Code} {s : Interpreter} (hs : D.Holds s)
    (hnodes : ∀ t, D.Holds t → D.Holds ((exec fuel nodes).run t).state) (m : Mark NodeId)
    (info : ProgramInfo) :
    D.Holds ((step fuel (exec fuel) (.program m info nodes)).run s).state := by
  have hinner := hnodes _ (holds_opened hs info)
  rw [step, state_onFailure, node, run_program]
  cases hrun : (exec fuel nodes).run (opened info s) with
  | done a t => rw [hrun] at hinner; exact holds_closed hinner info
  | stopped halt t => rw [hrun] at hinner; exact hinner.of_eq rfl rfl rfl

include himports

/-- Contents stay allowed, also if there are imports and modules around the code. -/
theorem holds_exec_layered (fuel : Nat) {code : Code} (hcode : Layered D code) {s : Interpreter}
    (hs : D.Holds s) : D.Holds ((exec fuel code).run s).state := by
  induction fuel generalizing code s with
  | zero => exact hs
  | succ fuel ihfuel =>
    induction hcode generalizing s with
    | inner h =>
      have hends := (alike_exec himports (fuel + 1) h s hs).2
      cases hrun : (exec (fuel + 1) _).run s with
      | done a t => rw [hrun] at hends; exact hends.1
      | stopped halt t => rw [hrun] at hends; exact hends.1
    | @importing m request rest _ ih =>
      have hstep := holds_importing fuel hs m request
      rw [exec_cons, Action.run_bind]
      cases hrun : (step fuel (exec fuel) (.importing m request)).run s with
      | done a t => rw [hrun] at hstep; exact ih hstep
      | stopped halt t => rw [hrun] at hstep; exact hstep
    | @module m info nodes rest hnodes _ _ ih =>
      have hstep := holds_module hs (fun t ht => ihfuel hnodes ht) m info
      rw [exec_cons, Action.run_bind]
      cases hrun : (step fuel (exec fuel) (.program m info nodes)).run s with
      | done a t => rw [hrun] at hstep; exact ih hstep
      | stopped halt t => rw [hrun] at hstep; exact hstep

/-- **Contents are allowed at every visit**, also if there are imports and modules around the code. -/
theorem holds_visits_layered {fuel : Nat} {ways : List Way} {code : Code} (hcode : Layered D code)
    {s : Interpreter} (hs : D.Holds s) : ∀ v ∈ visits fuel ways code s, D.Holds v.state := by
  refine forall_visits (I := fun _ code s => Layered D code ∧ D.Holds s) (fun _ _ _ _ _ h => h.2)
    ?next ?start ⟨hcode, hs⟩
  case next =>
    rintro _ n rest s fuel t ⟨hlayered, hholds⟩ hstep
    cases hlayered with
    | inner h =>
      have hends := (alike_step himports fuel h.1 s hholds).2
      rw [hstep] at hends
      exact ⟨.inner h.2, hends.1⟩
    | @importing m request _ h =>
      have hafter := holds_importing fuel hholds m request
      rw [hstep] at hafter
      exact ⟨h, hafter⟩
    | @module m info nodes _ h h' =>
      have hafter := holds_module hholds (fun t ht => holds_exec_layered himports fuel h ht) m info
      rw [hstep] at hafter
      exact ⟨h', hafter⟩
  case start =>
    rintro _ n rest s fuel ⟨hlayered, hholds⟩ start hstart
    cases hlayered with
    | inner h =>
      obtain ⟨hstate, hallowed, -⟩ :=
        leads_of_mem_starts (fun _ => alike_exec himports fuel) hholds h.1 hstart
      exact ⟨.inner hallowed, hstate⟩
    | importing => cases hstart
    | @module m info nodes _ h =>
      obtain rfl := List.mem_singleton.1 hstart
      exact ⟨h, holds_opened hholds info⟩

end Layers

/-- Linked code is layered. -/
theorem layered_of_linked {fs : FileSystem} {library : String} {top : SourceUnit} {i : Importer}
    {there : List Path} {requests : List Import} {code : Code} {es : List Event}
    (h : Linked fs library top i there requests code es)
    (hnamed : Node.AllIn (Node.Named fun x => '$' ∉ x.toList) code) :
    Layered .worded code := by
  induction h with
  | plain hplain => exact .inner (hplain.and hnamed)
  | known _ _ _ _ ih => exact .importing (ih hnamed.2)
  | fresh _ _ _ _ _ _ ihfile ihrest =>
    exact .module (ihfile hnamed.1.2) (.importing (ihrest hnamed.2.2))

/-! ## Functions with their names -/

/-- If a function was defined by a program, its body has its names. -/
def WithNames (table : ScopeTable) : Function → Prop
  | .defined d => Scope.Localized table d.name d.body
  | _ => True

theorem localized_visits {table : ScopeTable} {fuel : Nat} {ways : List Way} {code : Code}
    {s : Interpreter} (hcode : Node.AllIn (Scope.Localizes table) code)
    (hs : (Discipline.localized table).Holds s) (hstock : Every (WithNames table) s.stock) :
    ∀ v ∈ visits fuel ways code s, Every (WithNames table) v.state.stock := by
  have hallowed : ∀ v ∈ visits fuel ways code s, v.node.All (Discipline.localized table).node := fun v hv =>
    (allowed_visits (fun _ _ _ => Discipline.alike_importNames trivial fun _ => trivial) hs
      (hcode.mono fun _ hn => hn.localized) v hv).2
  refine every_visits hstock fun v hv h => Every.effect h ?_ (fun _ _ _ _ _ _ _ => trivial)
    fun _ _ _ _ => trivial
  intro m signature body hnode
  exact (hallowed v hv).self m signature body hnode

theorem alike_imports_worded (m : Mark NodeId) (request : Import)
    (h : Discipline.worded.node (.importing m request)) :
    Discipline.worded.Alike (importNames request) (importNames request) fun _ => True :=
  h.1.elim

/-! ## What is the same all along -/

theorem scopes_visits {fuel : Nat} {ways : List Way} {code : Code} {s : Interpreter} :
    ∀ v ∈ visits fuel ways code s, v.state.scopes = s.scopes := by
  refine forall_visits (I := fun _ _ t => t.scopes = s.scopes) (fun _ _ _ _ _ h => h) ?next ?start rfl
  case next =>
    intro _ n _ t fuel u h hstep
    exact (frame_of_step hstep).scopes.trans h
  case start =>
    intro _ n _ t fuel h start hstart
    cases leads_starts hstart with
    | branch hstill => exact hstill.scopes.trans h
    | sequence _ hframe => exact hframe.scopes.trans h
    | body => exact h
    | module => exact (scopes_opened _ t).trans h

/-- The visit takes place in the code that the visits start from, or in sequences that are run
there, and not in another function or module. -/
def Visit.Own (v : Visit) : Prop :=
  ∀ way ∈ v.ways, way.runsSequence = true

theorem current_of_own {fuel : Nat} {code : Code} {s : Interpreter} :
    ∀ v ∈ visits fuel [] code s, v.Own → v.state.current = s.current := by
  refine forall_visits (Q := fun v => v.Own → v.state.current = s.current)
    (I := fun ways _ t => (∀ way ∈ ways, way.runsSequence = true) → t.current = s.current)
    (fun _ _ _ _ _ h => h) ?next ?start fun _ => rfl
  case next =>
    intro _ n _ t fuel u h hstep hown
    exact (frame_of_step hstep).current.trans (h hown)
  case start =>
    intro ways n _ t fuel h start hstart hown
    obtain ⟨hway, hrest⟩ := List.forall_mem_cons.1 hown
    cases leads_starts hstart with
    | branch hstill => exact hstill.current.trans (h hrest)
    | sequence _ hframe => exact hframe.current.trans (h hrest)
    | body => cases hway
    | module => cases hway

/-! ## Bindings -/

/-- The visit binds a name of a namespace to a value. -/
def Visit.Binds (v : Visit) (home : NamespaceId) (name : String) (value : Value) : Prop :=
  v.state.current = home ∧ ∃ m written isPublic rest, v.node = .binding m written isPublic ∧
    v.state.scopes.nameOf m.tag written = name ∧ v.state.stack.items = value :: rest

theorem function?_effect_of_binds {v : Visit} {home : NamespaceId} {name : String} {value : Value}
    (h : v.Binds home name value) (hhome : home < v.state.spaces.spaces.size) :
    (v.effect.spaces.get home).function? name = some (.constant value home) := by
  obtain ⟨hcurrent, m, written, isPublic, rest, hnode, hname, hstack⟩ := h
  unfold Visit.effect
  rw [hnode]
  dsimp only
  rw [hstack, hname, hcurrent, Namespace.function?_eq_some_iff]
  dsimp only
  rw [Namespaces.get_define_self _ hhome, Namespace.get?_define, if_pos (beq_self_eq_true name)]

/-- Only a binding changes what the name of a local stands for. -/
theorem function?_effect {v : Visit} {home : NamespaceId} {name : String} {f : Function}
    (hname : '$' ∈ name.toList) (hplain : v.node.Plain)
    (hnamed : v.node.Named fun x => '$' ∉ x.toList) (hbinds : ∀ value, ¬v.Binds home name value)
    (h : (v.state.spaces.get home).function? name = some f) :
    (v.effect.spaces.get home).function? name = some f := by
  rw [Namespace.function?_eq_some_iff] at h ⊢
  rw [← h]
  refine v.effect_preserves
    (J := fun b => (b.spaces.get home).get? name = (v.state.spaces.get home).get? name)
    rfl ?definition ?binding ?importing ?module
  case definition =>
    intro m signature body hnode
    rw [hnode] at hnamed
    refine Namespaces.get?_define_of_ne _ (fun _ => ?_) _ _
    rintro rfl
    exact hnamed hname
  case binding =>
    intro m written isPublic value rest hnode hstack
    refine Namespaces.get?_define_of_ne _ (fun hhome => ?_) _ _
    rintro rfl
    exact hbinds value ⟨hhome.symm, m, written, isPublic, rest, hnode, rfl, hstack⟩
  case importing =>
    intro m request spaces hnode
    rw [hnode] at hplain
    exact hplain.elim
  case module =>
    rw [Namespaces.get_fresh]

theorem Hands.uncons {b c : Stock} {v : Visit} {vs : List Visit} (h : Hands b (v :: vs) c) :
    Hands b [] v.state.stock ∧ Hands v.effect vs c := by
  generalize hl : v :: vs = l at h
  induction h with
  | nil => cases hl
  | publish key id origin _ ih =>
    obtain ⟨hfirst, hrest⟩ := ih hl
    exact ⟨.publish key id origin hfirst, hrest⟩
  | visit h =>
    cases hl
    exact ⟨.nil _, h⟩

/-- **The name of a local stands for what was bound to it last.** -/
theorem local_of_last {fuel : Nat} {code : Code} {s : Interpreter} (hbuilt : Built s)
    (hs : Discipline.worded.Holds s) (hcode : Discipline.worded.AllowsCode code)
    {before mid after : List Visit} {b a : Visit}
    (hvisits : visits fuel [] code s = before ++ b :: mid ++ a :: after) {home : NamespaceId}
    {name : String} {value : Value} (hname : '$' ∈ name.toList) (hb : b.Binds home name value)
    (hmid : ∀ w ∈ mid, ∀ u, ¬w.Binds home name u) :
    (a.state.spaces.get home).function? name = some (.constant value home) := by
  have hallowed : ∀ v ∈ visits fuel [] code s, v.node.Plain ∧ v.node.Named fun x => '$' ∉ x.toList :=
    fun v hv => (allowed_visits alike_imports_worded hs hcode v hv).2.self
  have hsize := (built_visits hbuilt b (by rw [hvisits]; simp)).current
  rw [hb.1] at hsize
  have hhands := hands_visits fuel [] code s
  rw [hvisits] at hhands
  obtain ⟨c, hfirst, hlast⟩ := hhands.split
  obtain ⟨c', -, hmiddle⟩ := hfirst.split
  let J : Stock → Prop := fun b => (b.spaces.get home).function? name = some (.constant value home)
  have hpublish : ∀ (spaces : Namespaces) (loaders : LoaderStack) (key : String) (id : NamespaceId)
      (origin : Origin), J ⟨spaces, loaders⟩ →
        J ⟨spaces, loaders.push (.module ⟨key, (spaces.get id).exported, origin⟩)⟩ :=
    fun _ _ _ _ _ h => h
  have hc : J c := by
    refine (hmiddle.uncons.2.invariant hpublish (fun w hw h => ?_)
      (function?_effect_of_binds hb hsize)).1
    obtain ⟨hplain, hnamed⟩ := hallowed w (by rw [hvisits]; simp [hw])
    exact function?_effect hname hplain hnamed (hmid w hw) h
  exact (hlast.uncons.1.invariant hpublish (fun _ h => by cases h) hc).1

/-! ## Calls -/

/-- The visits of the call of a function that a visit makes. -/
def Visit.activation (v : Visit) (d : Definition) : List Visit :=
  visits v.fuel [] d.body (enter (.defined d) v.state)

/-- What is known of a visit that calls a function: what the function's body may rely on. -/
structure Callable (table : ScopeTable) (v : Visit) (d : Definition) : Prop where
  built : Built (enter (.defined d) v.state)
  holds : Discipline.worded.Holds (enter (.defined d) v.state)
  localized : Scope.Localized table d.name d.body
  scopes : v.state.scopes = table

theorem built_begun {scopes : ScopeTable} {p : Program NodeId} {s : Interpreter} (hs : Fresh s) :
    Built (begun scopes p s) := by
  refine ⟨?_, every_begun (hs.every _) scopes p⟩
  have hcurrent : s.current < s.spaces.spaces.size := by
    rw [hs.current, hs.spaces]
    exact Nat.zero_lt_one
  unfold begun opened
  split
  · exact hcurrent
  · exact (Namespaces.size_fresh s.spaces).symm ▸ Nat.lt_succ_self _

theorem scopes_begun {scopes : ScopeTable} {p : Program NodeId} {s : Interpreter} (hs : Fresh s) :
    (begun scopes p s).scopes = scopes := by
  have hextend : s.scopes.extend scopes = scopes := by
    rw [hs.scopes]
    exact congrArg ScopeTable.mk (List.append_nil scopes.names)
  exact (scopes_opened p.info _).trans hextend

theorem callable_of_calls {scopes : ScopeTable} {p : Program NodeId} {fuel : Nat} {s : Interpreter}
    (hlayered : Layered .worded p.nodes) (hnames : Node.AllIn (Scope.Localizes scopes) p.nodes)
    (hs : Fresh s) {v : Visit} (hv : v ∈ visited fuel scopes p s) {d : Definition}
    (hcall : Calls v.state v.node (.defined d)) : Callable scopes v d := by
  have hbuilt := built_visits (built_begun hs) v hv
  have hholds := holds_visits_layered alike_imports_worded hlayered
    (holds_begun (hs.holds _) scopes p) v hv
  have hstock := localized_visits hnames (holds_begun (hs.holds _) scopes p)
    (every_begun (hs.every _) scopes p) v hv
  obtain ⟨m, qualifier, name, -, hcallee⟩ := hcall
  obtain ⟨space, hbound⟩ := function?_of_lookUp (lookUp_of_callee? hcallee).1
  refine ⟨⟨hbuilt.made.bound space _ _ hbound d.home rfl, hbuilt.made⟩, hholds.of_eq rfl rfl rfl,
    hstock.bound space _ _ hbound, ?_⟩
  rw [scopes_visits v hv, scopes_begun hs]

/-- A name that is used after it was bound in the same body is that of the local. -/
theorem nameOf_of_localized {table : ScopeTable} {f x : String} {body : Code}
    (h : Scope.Localized table f body) {m k : Mark NodeId} {isPublic : Bool}
    {l₁ l₂ l₃ : List (Node NodeId)} (hbody : Node.spreadAll body =
      l₁ ++ .binding m x isPublic :: l₂ ++ .identifier k none x :: l₃) :
    table.nameOf m.tag x = localName f x ∧ table.nameOf k.tag x = localName f x := by
  constructor
  · rw [List.append_assoc] at hbody
    exact h.names hbody rfl
  · have huse := h.names hbody rfl
    have hbound : (l₁ ++ Node.binding m x isPublic :: l₂).any (·.binds x) = true := by
      simp [Node.binds]
    rw [Scope.owner, if_pos hbound] at huse
    exact huse

theorem outcome_of_constant {v : Visit} {m : Mark NodeId} {qualifier : Option Token} {name : String}
    (hnode : v.node = .identifier m qualifier name) {value : Value} {home : NamespaceId}
    (h : lookUp v.state qualifier (v.state.scopes.nameOf m.tag name) = .ok (.constant value home)) :
    (v.state.depth < v.state.maxDepth →
      v.outcome = .done () { v.state with stack := v.state.stack.push value }) ∧
    (v.state.maxDepth ≤ v.state.depth → ∃ d, v.outcome = .stopped (.failed d) v.state ∧
      d.cause = .runtime (.depthExceeded v.state.maxDepth)) := by
  have hrun : (node v.fuel (exec v.fuel) (.identifier m qualifier name)).run v.state = _ :=
    run_constant h
  unfold Visit.outcome
  rw [hnode]
  constructor
  · intro hdepth
    rw [if_neg (Nat.not_le.2 hdepth)] at hrun
    exact step_of_done hrun
  · intro hdepth
    rw [if_pos hdepth] at hrun
    unfold step onFailure
    dsimp only
    rw [hrun]
    exact ⟨_, rfl, rfl⟩

/-- **A local has the value that was bound to it last.** If a call of a function binds `x` and later
uses it, in the body or in sequences that it runs, the use gives the value that was bound, provided
that nothing in between binds the same local, also not a call inside the call. -/
theorem local_of_activation {fs : FileSystem} {library : String} {start : Linking.Start}
    {log : FileLog} {nextId : NodeId} {p : Program NodeId} {l : Linker}
    (hlink : (start.link fs library).run (start.linker log nextId) = .done p l)
    {fuel : Nat} {s : Interpreter} (hs : Fresh s) {v : Visit} (hv : v ∈ visited fuel l.scopes p s)
    {d : Definition} (hcall : Calls v.state v.node (.defined d))
    {before mid after : List Visit} {b a : Visit}
    (hvisits : v.activation d = before ++ b :: mid ++ a :: after) (hb : b.Own) (ha : a.Own)
    {m k : Mark NodeId} {x : String} {isPublic : Bool} (hbind : b.node = .binding m x isPublic)
    (huse : a.node = .identifier k none x) {l₁ l₂ l₃ : List (Node NodeId)}
    (hbody : Node.spreadAll d.body =
      l₁ ++ .binding m x isPublic :: l₂ ++ .identifier k none x :: l₃)
    {value : Value} {rest : List Value} (hvalue : b.state.stack.items = value :: rest)
    (hmid : ∀ w ∈ mid, ∀ u, ¬w.Binds d.home (localName d.name x) u) :
    (a.state.depth < a.state.maxDepth →
      a.outcome = .done () { a.state with stack := a.state.stack.push value }) ∧
    (a.state.maxDepth ≤ a.state.depth → ∃ e, a.outcome = .stopped (.failed e) a.state ∧
      e.cause = .runtime (.depthExceeded a.state.maxDepth)) := by
  obtain ⟨requests, es, hlinked⟩ := (meets_link_linked start log nextId).of_done hlink
  have hnames := (meets_link_localizes start log nextId).of_done hlink
  have hlayered := layered_of_linked hlinked (hnames.mono fun _ hn => hn.named)
  obtain ⟨hbuilt, hholds, hlocalized, hscopes⟩ := callable_of_calls hlayered hnames hs hv hcall
  obtain ⟨hbound, hused⟩ := nameOf_of_localized hlocalized hbody
  have hmem : ∀ w ∈ v.activation d, w.state.scopes = l.scopes := fun w hw =>
    (scopes_visits w hw).trans hscopes
  have hbmem : b ∈ v.activation d := by rw [hvisits]; simp
  have hamem : a ∈ v.activation d := by rw [hvisits]; simp
  have hbinds : b.Binds d.home (localName d.name x) value :=
    ⟨current_of_own b hbmem hb, m, x, isPublic, rest, hbind, by rw [hmem b hbmem, hbound], hvalue⟩
  have hlocal := local_of_last hbuilt hholds (hlocalized.plain.and hlocalized.named) hvisits
    (Scope.mark_mem_localName d.name x) hbinds hmid
  refine @outcome_of_constant a k none x huse value d.home ?_
  have hcurrent : a.state.current = d.home := current_of_own a hamem ha
  rw [hmem a hamem, hused]
  exact lookUp_of_bound (hcurrent ▸ hlocal)

/-! ## Calls inside calls -/

theorem map_fst_reached (f : Node NodeId → Eval Unit) (code : Code) (s : Interpreter) :
    (reached f code s).map (·.1) <+: code := by
  induction code generalizing s with
  | nil => exact List.nil_prefix
  | cons n rest ih =>
    rw [reached, List.map_cons, List.cons_prefix_cons]
    refine ⟨rfl, ?_⟩
    unfold following followed
    split
    · next t _ => exact ih t
    · exact List.nil_prefix

/-- The function that a visit calls, if it calls one that was defined. -/
def called? (v : Visit) : Option Definition :=
  match v.node with
  | .identifier m qualifier name =>
    match callee? v.state m qualifier name with
    | some (.defined d) => some d
    | _ => none
  | _ => none

theorem calls_of_called? {v : Visit} {d : Definition} (h : called? v = some d) :
    Calls v.state v.node (.defined d) := by
  unfold called? at h
  split at h
  · next m qualifier name hnode =>
    split at h
    · next hcallee =>
      cases h
      exact ⟨m, qualifier, name, hnode, hcallee⟩
    · cases h
  · cases h

/-- A program that is given as text. -/
def script (source : String) : Linking.Start :=
  .text (.ofText defaultFile []) source

/-- A text as it is linked, and the first call of a function in its run. -/
def firstCall? (source : String) : Option (Program NodeId × Linker × Visit × Definition) :=
  match ((script source).link { workingDirectory := [], entries := [] } "std").run
      ((script source).linker {} 1) with
  | .done p l =>
    match (visited 10 l.scopes p (.withNatives {})).find? fun v => (called? v).isSome with
    | some v => (called? v).map fun d => (p, l, v, d)
    | none => none
  | .stopped _ _ => none

theorem firstCall?_eq_some {source : String} {p : Program NodeId} {l : Linker} {v : Visit}
    {d : Definition} (h : firstCall? source = some (p, l, v, d)) :
    ((script source).link { workingDirectory := [], entries := [] } "std").run
        ((script source).linker {} 1) = .done p l ∧
      v ∈ visited 10 l.scopes p (.withNatives {}) ∧ Calls v.state v.node (.defined d) := by
  unfold firstCall? at h
  split at h
  · next hlink =>
    split at h
    · next hfind =>
      obtain ⟨d', hd', heq⟩ := Option.map_eq_some_iff.1 h
      cases heq
      exact ⟨hlink, List.mem_of_find?_eq_some hfind, calls_of_called? hd'⟩
    · cases h
  · cases h

/-- The visits of a call that come of one node of the body. -/
def nodeVisits (k : Nat) (r : Node NodeId × Interpreter) : List Visit :=
  ⟨r.1, r.2, [], k⟩ :: (starts k (exec k) r.2 r.1).flatMap (startVisits k [])

/-- The visits of a call, node by node. -/
theorem activation_eq {v : Visit} {d : Definition} {k : Nat} (h : v.fuel = k + 1) :
    v.activation d =
      (reached (step k (exec k)) d.body (enter (.defined d) v.state)).flatMap (nodeVisits k) := by
  unfold Visit.activation
  rw [h]
  rfl

/-- A function that binds a local and uses it. -/
def usesLocal : String :=
  "def f { let x x } true f"

/-- Whether a call visits a `let` with `true` on the stack, then a use of the same name, and no more,
and has room for another call. -/
def bindsThenUses (v : Visit) (d : Definition) : Bool :=
  match v.fuel, d.body with
  | k + 1, [.binding m x isPublic, .identifier m' none x'] =>
    match reached (step k (exec k)) [.binding m x isPublic, .identifier m' none x']
      (enter (.defined d) v.state) with
    | [(_, s), (_, t)] => x == x' && decide (t.depth < t.maxDepth) && match s.stack.items with
      | .literal (.boolean true) :: _ => true
      | _ => false
    | _ => false
  | _, _ => false

theorem exists_of_bindsThenUses {v : Visit} {d : Definition} (h : bindsThenUses v d = true) :
    ∃ k m x isPublic m' s t rest, v.fuel = k + 1 ∧
      d.body = [.binding m x isPublic, .identifier m' none x] ∧
      reached (step k (exec k)) d.body (enter (.defined d) v.state) =
        [(.binding m x isPublic, s), (.identifier m' none x, t)] ∧
      t.depth < t.maxDepth ∧ s.stack.items = .boolean true :: rest := by
  unfold bindsThenUses at h
  split at h
  · next k m x isPublic m' x' hfuel hbody =>
    split at h
    · next n s n' t hreached =>
      rw [Bool.and_eq_true, Bool.and_eq_true, beq_iff_eq, decide_eq_true_eq] at h
      obtain ⟨⟨rfl, hroom⟩, hstack⟩ := h
      split at hstack
      · next rest hitems =>
        have hnodes := map_fst_reached (step k (exec k)) d.body (enter (.defined d) v.state)
        rw [← hbody] at hreached
        rw [hreached, hbody] at hnodes
        simp only [List.map_cons, List.cons_prefix_cons] at hnodes
        obtain ⟨rfl, rfl, -⟩ := hnodes
        exact ⟨k, m, x, isPublic, m', s, t, rest, hfuel, hbody, hreached, hroom, hitems⟩
      · cases hstack
    · cases h
  · cases h

theorem local_of_activation_use : ∃ p l v d b a after rest,
    ((script usesLocal).link { workingDirectory := [], entries := [] } "std").run
        ((script usesLocal).linker {} 1) = .done p l ∧
      v ∈ visited 10 l.scopes p (.withNatives {}) ∧ Calls v.state v.node (.defined d) ∧
      v.activation d = [] ++ b :: [] ++ a :: after ∧ b.state.stack.items = .boolean true :: rest ∧
      a.outcome = .done () { a.state with stack := a.state.stack.push (.boolean true) } := by
  have hcheck : ((firstCall? usesLocal).any fun (_, _, v, d) => bindsThenUses v d) = true := by
    decide +kernel
  cases hfirst : firstCall? usesLocal with
  | none => rw [hfirst] at hcheck; cases hcheck
  | some found =>
    obtain ⟨p, l, v, d⟩ := found
    obtain ⟨hlink, hv, hcall⟩ := firstCall?_eq_some hfirst
    rw [hfirst, Option.any_some] at hcheck
    obtain ⟨k, m, x, isPublic, m', s, t, rest, hfuel, hbody, hreached, hroom, hitems⟩ :=
      exists_of_bindsThenUses hcheck
    let b : Visit := ⟨.binding m x isPublic, s, [], k⟩
    let a : Visit := ⟨.identifier m' none x, t, [], k⟩
    have hvisits : v.activation d = [] ++ b :: [] ++ a ::
        (starts k (exec k) t (.identifier m' none x)).flatMap (startVisits k []) := by
      rw [activation_eq hfuel, hreached]
      simp [b, a, starts, nodeVisits]
    have hspread : Node.spreadAll d.body = [] ++ .binding m x isPublic :: [] ++ [.identifier m' none x] := by
      rw [hbody]
      simp [Node.spreadAll, Node.spread]
    have huse := local_of_activation hlink (Fresh.withNatives {}) hv hcall hvisits
      (fun _ h => by cases h) (fun _ h => by cases h) rfl rfl hspread hitems (fun _ h => by cases h)
    exact ⟨p, l, v, d, b, a, _, rest, hlink, hv, hcall, hvisits, hitems, huse.1 hroom⟩

/-- A function that uses its local again after it has called itself. -/
def recurses : String :=
  "def f { let x x { false f } ?? x } true f"

/-- Whether a call visits a `let` with `true` on the stack first, a use of the same name that gives
`false` last, and in between no other `let` of that name that is its own. -/
def loses (v : Visit) (d : Definition) : Bool :=
  match v.fuel, d.body with
  | k + 1, [.binding m x isPublic, n₂, n₃, n₄, .identifier m' none x'] =>
    match reached (step k (exec k)) [.binding m x isPublic, n₂, n₃, n₄, .identifier m' none x']
      (enter (.defined d) v.state) with
    | [(_, s), r₂, r₃, r₄, (_, t)] =>
      x == x' && ([r₂, r₃, r₄].flatMap (nodeVisits k)).all (fun w =>
        !w.ways.all (·.runsSequence) || !w.node.binds x) &&
      (match s.stack.items with
        | .literal (.boolean true) :: _ => true
        | _ => false) &&
      match (step k (exec k) (.identifier m' none x')).run t with
      | .done _ u => match u.stack.peek? with
        | some (.literal (.boolean false)) => true
        | _ => false
      | .stopped _ _ => false
    | _ => false
  | _, _ => false

theorem exists_of_loses {v : Visit} {d : Definition} (h : loses v d = true) :
    ∃ k m x isPublic n₂ n₃ n₄ m' s r₂ r₃ r₄ t rest u, v.fuel = k + 1 ∧
      d.body = [.binding m x isPublic, n₂, n₃, n₄, .identifier m' none x] ∧
      reached (step k (exec k)) d.body (enter (.defined d) v.state) =
        [(.binding m x isPublic, s), r₂, r₃, r₄, (.identifier m' none x, t)] ∧
      (∀ w ∈ [r₂, r₃, r₄].flatMap (nodeVisits k), w.Own → w.node.binds x = false) ∧
      s.stack.items = .boolean true :: rest ∧
      (step k (exec k) (.identifier m' none x)).run t = .done () u ∧
      u.stack.peek? = some (.boolean false) := by
  unfold loses at h
  split at h
  · next k m x isPublic n₂ n₃ n₄ m' x' hfuel hbody =>
    split at h
    · next n s r₂ r₃ r₄ n' t hreached =>
      rw [Bool.and_eq_true, Bool.and_eq_true, Bool.and_eq_true, beq_iff_eq, List.all_eq_true] at h
      obtain ⟨⟨⟨rfl, hmid⟩, hstack⟩, hresult⟩ := h
      have hnodes := map_fst_reached (step k (exec k)) d.body (enter (.defined d) v.state)
      rw [← hbody] at hreached
      rw [hreached, hbody] at hnodes
      simp only [List.map_cons, List.cons_prefix_cons] at hnodes
      obtain ⟨rfl, -, -, -, rfl, -⟩ := hnodes
      split at hstack
      · next rest hitems =>
        split at hresult
        · next u hrun =>
          split at hresult
          · next htop =>
            refine ⟨k, m, x, isPublic, n₂, n₃, n₄, m', s, r₂, r₃, r₄, t, rest, u, hfuel, hbody,
              hreached, fun w hw hown => ?_, hitems, hrun, htop⟩
            have hbinds := hmid w hw
            rw [List.all_eq_true.2 hown] at hbinds
            simpa using hbinds
          · cases hresult
        · cases hresult
      · cases hstack
    · cases h
  · cases h

/-- **A call inside a call can change a local**: a call binds `x` to `true`, binds it no more, and
then `x` gives `false`, because a call of the same function in between has bound its own `x`. -/
theorem local_overwritten : ∃ p l v d mid after b a m m' x isPublic l₂ rest t,
    ((script recurses).link { workingDirectory := [], entries := [] } "std").run
        ((script recurses).linker {} 1) = .done p l ∧
      v ∈ visited 10 l.scopes p (.withNatives {}) ∧ Calls v.state v.node (.defined d) ∧
      v.activation d = b :: mid ++ a :: after ∧ b.Own ∧ a.Own ∧
      b.node = .binding m x isPublic ∧ a.node = .identifier m' none x ∧
      Node.spreadAll d.body = .binding m x isPublic :: l₂ ++ [.identifier m' none x] ∧
      b.state.stack.items = .boolean true :: rest ∧
      (∀ w ∈ mid, w.Own → w.node.binds x = false) ∧
      a.outcome = .done () t ∧ t.stack.peek? = some (.boolean false) := by
  have hcheck : ((firstCall? recurses).any fun (_, _, v, d) => loses v d) = true := by
    decide +kernel
  cases hfirst : firstCall? recurses with
  | none => rw [hfirst] at hcheck; cases hcheck
  | some found =>
    obtain ⟨p, l, v, d⟩ := found
    obtain ⟨hlink, hv, hcall⟩ := firstCall?_eq_some hfirst
    rw [hfirst, Option.any_some] at hcheck
    obtain ⟨k, m, x, isPublic, n₂, n₃, n₄, m', s, r₂, r₃, r₄, t, rest, u, hfuel, hbody, hreached,
      hmid, hitems, hrun, htop⟩ := exists_of_loses hcheck
    let b : Visit := ⟨.binding m x isPublic, s, [], k⟩
    let a : Visit := ⟨.identifier m' none x, t, [], k⟩
    have hvisits : v.activation d = b :: [r₂, r₃, r₄].flatMap (nodeVisits k) ++ a ::
        (starts k (exec k) t (.identifier m' none x)).flatMap (startVisits k []) := by
      rw [activation_eq hfuel, hreached]
      simp [b, a, starts, nodeVisits]
    have hspread : Node.spreadAll d.body =
        .binding m x isPublic :: Node.spreadAll [n₂, n₃, n₄] ++ [.identifier m' none x] := by
      rw [hbody]
      simp [Node.spreadAll, Node.spread]
    exact ⟨p, l, v, d, _, _, b, a, m, m', x, isPublic, _, rest, u, hlink, hv, hcall, hvisits,
      (fun _ h => by cases h), (fun _ h => by cases h), rfl, rfl, hspread, hitems, hmid, hrun, htop⟩

end Evaluation

end Catena

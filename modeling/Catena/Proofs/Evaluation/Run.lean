import Catena.Proofs.Evaluation.Library
import Catena.Proofs.Namespace

/-!
# A run keeps to every discipline

What holds of every step holds of every run, by induction on the fuel (`Discipline.alike_execWith`).
Imports are left open: `execWith` runs code with a meaning of imports that is given from outside, and
is `exec` where that is the meaning of the language. That a run comes back to where it started is the
special case of the discipline that allows everything.

What an import does, and why it fails, is said once (`imported_cases`, `imported_error_cases`). What
mounting and defining functions keep, it keeps (`imported_preserves`).
-/

namespace Catena

open Catena.Eval

namespace Evaluation

/-- Does what a node says, where `imports` says what an import does. -/
def nodeWith (imports : Import → Eval Unit) (limit : Nat) (run : Code → Eval Unit) :
    Node NodeId → Eval Unit
  | .importing _ request => imports request
  | n => node limit run n

/-- `step` with another meaning of imports. -/
def stepWith (imports : Import → Eval Unit) (limit : Nat) (run : Code → Eval Unit)
    (n : Node NodeId) : Eval Unit :=
  onFailure (fun file d => d.locate n.position file) (nodeWith imports limit run n)

/-- `exec` with another meaning of imports. -/
def execWith (imports : Import → Eval Unit) : Nat → Code → Eval Unit
  | 0, _ => Action.stop .exhausted
  | fuel + 1, nodes => each (stepWith imports fuel (execWith imports fuel)) nodes

theorem nodeWith_importNames (limit : Nat) (run : Code → Eval Unit) (n : Node NodeId) :
    nodeWith importNames limit run n = node limit run n := by
  cases n <;> rfl

/-- With the meaning that the language gives to imports, nothing changes. -/
theorem execWith_importNames (fuel : Nat) (code : Code) :
    execWith importNames fuel code = exec fuel code := by
  induction fuel generalizing code with
  | zero => rfl
  | succ fuel ih =>
    have same : stepWith importNames fuel (execWith importNames fuel) = step fuel (exec fuel) := by
      funext n
      rw [stepWith, nodeWith_importNames, funext ih]
      rfl
    rw [execWith, exec, same]

/-! ## Imports as a step -/

theorem run_importNames (request : Import) (s : Interpreter) :
    (importNames request).run s =
      match imported s request with
      | .ok spaces => .done () { s with spaces }
      | .error e => .stopped (.failed (Diagnostic.ofRuntime e)) s := by
  unfold importNames
  rw [Action.run_bind, Action.run_state]
  dsimp only
  rw [Action.run_bind]
  cases imported s request <;> rfl

/-- A name without a qualifier stands for what the current namespace binds it to. -/
theorem lookUp_bare (s : Interpreter) (name : String) :
    lookUp s none name =
      ((s.spaces.get s.current).function? name).elim (.error (.unknownIdentifier name)) .ok := by
  unfold lookUp
  dsimp only [bind, Except.bind]
  cases (s.spaces.get s.current).function? name <;> rfl

theorem lookUp_of_bound {s : Interpreter} {name : String} {f : Function}
    (h : (s.spaces.get s.current).function? name = some f) : lookUp s none name = .ok f := by
  rw [lookUp_bare, h]
  rfl

/-- What a name stands for is bound in the current namespace, or in one that is mounted there. -/
theorem bound_of_lookUp {s : Interpreter} {qualifier : Option Token} {name : String} {f : Function}
    (h : lookUp s qualifier name = .ok f) :
    ∃ space, (space = s.current ∨
        ∃ mounted, (s.spaces.get s.current).get? mounted = some (.child space)) ∧
      (s.spaces.get space).function? name = some f := by
  unfold lookUp at h
  dsimp only [bind, Except.bind] at h
  cases qualifier with
  | none =>
    dsimp only at h
    split at h
    · next hf =>
      cases h
      exact ⟨s.current, .inl rfl, hf⟩
    · cases h
  | some token =>
    dsimp only at h
    split at h
    · cases h
    · next space hchild =>
      split at h
      · next hf =>
        cases h
        exact ⟨space, .inr ⟨token.lexeme, Namespace.child_eq_ok_iff.1 hchild⟩, hf⟩
      · cases h

/-- Why a name stands for nothing: nothing is mounted under its qualifier, or it is not bound. -/
theorem error_of_lookUp {s : Interpreter} {qualifier : Option Token} {name : String}
    {e : RuntimeError} (h : lookUp s qualifier name = .error e) :
    (∃ token, qualifier = some token ∧ e = .invalidNamespace token.lexeme) ∨
      e = .unknownIdentifier name := by
  unfold lookUp at h
  dsimp only [bind, Except.bind] at h
  cases qualifier with
  | none =>
    dsimp only at h
    split at h
    · cases h
    · cases h
      exact .inr rfl
  | some token =>
    dsimp only at h
    split at h
    · next hchild =>
      cases h
      exact .inl ⟨token, rfl, Namespace.child_error hchild⟩
    · split at h
      · cases h
      · cases h
        exact .inr rfl

/-- What a name stands for is bound in some namespace. -/
theorem function?_of_lookUp {s : Interpreter} {qualifier : Option Token} {name : String} {f : Function}
    (h : lookUp s qualifier name = .ok f) : ∃ space, (s.spaces.get space).function? name = some f := by
  obtain ⟨space, -, hf⟩ := bound_of_lookUp h
  exact ⟨space, hf⟩

/-- One step of binding functions. -/
theorem bindFunctions_cons (loaders : LoaderStack) (key : String) (space : NamespaceId)
    (name : String × String) (names : List (String × String)) (spaces : Namespaces) :
    bindFunctions loaders key space (name :: names) spaces =
      bindFunctions loaders key space names
        (match loaders.function? key name.1 with
        | some f => spaces.define space name.2 (.function f) false
        | none => spaces) := rfl

/-- What defining a function that is served keeps, binding functions keeps. -/
theorem bindFunctions_preserves {P : Namespaces → Prop} {loaders : LoaderStack} {key : String}
    {space : NamespaceId}
    (hdefine : ∀ base served name f, loaders.function? key served = some f → P base →
      P (base.define space name (.function f) false))
    (names : List (String × String)) {spaces : Namespaces} (h : P spaces) :
    P (bindFunctions loaders key space names spaces) := by
  induction names generalizing spaces with
  | nil => exact h
  | cons name rest ih =>
    rw [bindFunctions_cons]
    refine ih ?_
    split
    · next f hf => exact hdefine _ _ _ f hf h
    · exact h

section Imported

variable {s : Interpreter} {request : Import} {spaces : Namespaces}

/-- What there is after an import, and what it takes. A whole import binds the public names in the
namespace that it mounts, any other one binds what it admits in the current namespace. -/
theorem imported_cases (h : imported s request = .ok spaces) :
    s.loaders.has request.loaderKey = true ∧
    ((request.isWhole = true ∧ ∃ child base,
        s.spaces.mount s.current request.mountName = .ok (child, base) ∧
        spaces = bindFunctions s.loaders request.loaderKey child
          ((s.loaders.names request.loaderKey).map fun name => (name, name)) base) ∨
      (request.isWhole = false ∧
        (request.isStar = false → ∀ target ∈ request.targets,
          target ∈ s.loaders.names request.loaderKey) ∧
        spaces = bindFunctions s.loaders request.loaderKey s.current
          (((s.loaders.names request.loaderKey).filter request.admits).map fun name =>
            (name, request.rename.getD name)) s.spaces)) := by
  unfold imported at h
  dsimp only at h
  split at h
  · cases h
  · next hhas =>
    refine ⟨by simpa using hhas, ?_⟩
    split at h
    · next hwhole =>
      split at h
      · cases h
      · next child base hmount =>
        cases h
        exact .inl ⟨hwhole, child, base, hmount, rfl⟩
    · next hwhole =>
      split at h
      · cases h
      · next hfind =>
        cases h
        refine .inr ⟨by simpa using hwhole, fun hstar target htarget => ?_, rfl⟩
        rw [if_neg (by simp [hstar])] at hfind
        simpa using List.find?_eq_none.1 hfind target htarget

/-- Why an import fails: nothing has its key, what it would mount cannot be mounted, or a name that it
selects is not public. -/
theorem imported_error_cases {e : RuntimeError} (h : imported s request = .error e) :
    (s.loaders.has request.loaderKey = false ∧ e = .unknownNamespace request.source) ∨
    (request.isWhole = true ∧ s.spaces.mount s.current request.mountName = .error e) ∨
    (request.isWhole = false ∧ request.isStar = false ∧ ∃ target ∈ request.targets,
      target ∉ s.loaders.names request.loaderKey ∧ e = .notPublic target request.source) := by
  unfold imported at h
  dsimp only at h
  split at h
  · next hlacks =>
    cases h
    exact .inl ⟨by simpa using hlacks, rfl⟩
  split at h
  · next hwhole =>
    split at h
    · next hmount =>
      cases h
      exact .inr (.inl ⟨hwhole, hmount⟩)
    · cases h
  · next hwhole =>
    split at h
    · next target hfind =>
      cases h
      split at hfind
      · cases hfind
      · next hstar =>
        have hmissing := List.find?_some hfind
        exact .inr (.inr ⟨by simpa using hwhole, by simpa using hstar, target,
          List.mem_of_find?_eq_some hfind, by simpa using hmissing, rfl⟩)
    · cases h

/-- **What mounting and defining functions keep, an import keeps.** -/
theorem imported_preserves {P : Namespaces → Prop} (h : imported s request = .ok spaces)
    (hs : P s.spaces)
    (hmount : ∀ child base, s.spaces.mount s.current request.mountName = .ok (child, base) → P base)
    (hdefine : ∀ base space served name f, s.loaders.function? request.loaderKey served = some f →
      P base → P (base.define space name (.function f) false)) : P spaces := by
  obtain ⟨-, ⟨-, child, base, hmounted, rfl⟩ | ⟨-, -, rfl⟩⟩ := imported_cases h
  · exact bindFunctions_preserves (hdefine · child) _ (hmount child base hmounted)
  · exact bindFunctions_preserves (hdefine · s.current) _ hs

theorem size_imported (h : imported s request = .ok spaces) :
    s.spaces.spaces.size ≤ spaces.spaces.size :=
  imported_preserves (P := fun ns => s.spaces.spaces.size ≤ ns.spaces.size) h (Nat.le_refl _)
    (fun _ _ hmount => Namespaces.size_mount hmount)
    fun _ _ _ _ _ _ hle => Nat.le_trans hle (Nat.le_of_eq (Namespaces.size_define ..).symm)

end Imported

end Evaluation

/-- A call does not change why something failed. -/
theorem Diagnostic.cause_throughCall (site : Position) (file : Option String) (d : Diagnostic) :
    (d.throughCall site file).cause = d.cause := by
  unfold throughCall
  split
  · rfl
  · split <;> rfl

namespace Discipline

variable {D : Discipline}

/-! ## Bindings -/

theorem AllowsSpace.get? {n : Namespace} (h : D.AllowsSpace n) {name : String} {b : Binding}
    (hb : n.get? name = some b) : D.AllowsBinding b :=
  h (name, b) (OrderedMap.mem_of_get? hb)

theorem AllowsSpace.function? {n : Namespace} (h : D.AllowsSpace n) {name : String} {f : Function}
    (hf : n.function? name = some f) : D.AllowsFunction f :=
  h.get? (Namespace.function?_eq_some_iff.1 hf)

theorem AllowsSpace.define {n : Namespace} (h : D.AllowsSpace n) {name : String} {b : Binding}
    (hb : D.AllowsBinding b) (isPublic : Bool) : D.AllowsSpace (n.define name b isPublic) := by
  intro entry hentry
  rcases OrderedMap.mem_insertEntry hentry with hold | hnew
  · exact h entry hold
  · rw [hnew]; exact hb

theorem allowsSpace_empty : D.AllowsSpace {} :=
  fun _ h => nomatch h

theorem AllowsSpace.foldl_publish {n : Namespace} (h : D.AllowsSpace n) (names : List String)
    {copy : Namespace} (hcopy : D.AllowsSpace copy) :
    D.AllowsSpace (names.foldl n.publish copy) := by
  induction names generalizing copy with
  | nil => exact hcopy
  | cons name rest ih =>
    refine ih ?_
    unfold Namespace.publish
    split
    · next b hb => exact hcopy.define (h.get? hb) true
    · exact hcopy

theorem AllowsSpace.exported {n : Namespace} (h : D.AllowsSpace n) : D.AllowsSpace n.exported :=
  h.foldl_publish n.published allowsSpace_empty

theorem AllowsSpaces.define {spaces : Namespaces} (h : D.AllowsSpaces spaces) (id : NamespaceId)
    {name : String} {b : Binding} (hb : D.AllowsBinding b) (isPublic : Bool) :
    D.AllowsSpaces (spaces.define id name b isPublic) := by
  intro id'
  by_cases hlt : id < spaces.spaces.size
  · by_cases hid : id' = id
    · subst hid
      rw [spaces.get_define_self hlt]
      exact (h id').define hb isPublic
    · rw [spaces.get_define_ne hid]
      exact h id'
  · rw [spaces.get_define_of_le (Nat.not_lt.1 hlt)]
    exact h id'

theorem AllowsSpaces.fresh {spaces : Namespaces} (h : D.AllowsSpaces spaces) :
    D.AllowsSpaces spaces.fresh.2 := by
  intro id
  rw [spaces.get_fresh]
  exact h id

theorem AllowsLoader.function? {l : Loader} (h : D.AllowsLoader l) {space name : String}
    {f : Function} (hf : l.function? space name = some f) : D.AllowsFunction f := by
  cases l with
  | natives =>
    obtain ⟨native, -, rfl⟩ := Option.map_eq_some_iff.1 hf
    exact trivial
  | module m =>
    unfold Loader.function? at hf
    dsimp only at hf
    split at hf
    · exact AllowsSpace.function? h hf
    · cases hf

theorem Holds.function? {s : Interpreter} (h : D.Holds s) {space name : String} {f : Function}
    (hf : s.loaders.function? space name = some f) : D.AllowsFunction f := by
  obtain ⟨l, hl, hf⟩ := Option.bind_eq_some_iff.1 hf
  exact (h.loaders l (List.mem_of_find?_eq_some hl)).function? hf

theorem Alike.define {name : String} {f : Function} {isPublic : Bool} (hf : D.AllowsFunction f) :
    D.Alike (Eval.define name (.function f) isPublic) (Eval.define name (.function f) isPublic)
      fun _ => True :=
  Alike.change
    (fun _ hs => ⟨hs.stack, hs.spaces.define (b := .function f) _ hf isPublic, hs.loaders⟩)
    fun s => .of_eq rfl rfl rfl rfl rfl rfl (s.spaces.grows_define_function _ name f isPublic)

/-! ## Imports -/

theorem AllowsSpaces.mount {spaces spaces' : Namespaces} (h : D.AllowsSpaces spaces)
    {id child : NamespaceId} {name : String} (hm : spaces.mount id name = .ok (child, spaces')) :
    D.AllowsSpaces spaces' := by
  rcases Namespaces.mount_cases hm with ⟨-, rfl⟩ | ⟨-, -, rfl⟩
  · exact h
  · exact h.fresh.define (b := .child child) id trivial false

theorem allowsSpaces_imported {s : Interpreter} (hs : D.Holds s) {request : Import}
    {spaces : Namespaces} (h : Evaluation.imported s request = .ok spaces) :
    D.AllowsSpaces spaces :=
  Evaluation.imported_preserves h hs.spaces (fun _ _ hmount => hs.spaces.mount hmount)
    fun _ space _ _ f hf hbase => hbase.define (b := .function f) space (hs.function? hf) false

/-- An import fails for lack of the namespace, or for a reason that no discipline rules out. -/
theorem error_imported {s : Interpreter} {request : Import} {e : RuntimeError}
    (h : Evaluation.imported s request = .error e)
    (hknown : ∀ source, e = .unknownNamespace source → D.error e) : D.error e := by
  obtain ⟨-, rfl⟩ | ⟨-, hmount⟩ | ⟨-, -, target, -, -, rfl⟩ := Evaluation.imported_error_cases h
  · exact hknown _ rfl
  · rw [Namespaces.mount_error hmount]
    exact D.error_of (by simp)
  · exact D.error_of (by simp)

/-- An import that may fail for lack of the namespace keeps to the discipline. -/
theorem alike_importNames {request : Import} (hmodules : D.modules)
    (hknown : ∀ source, D.error (.unknownNamespace source)) :
    D.Alike (Evaluation.importNames request) (Evaluation.importNames request) fun _ => True := by
  intro s hs
  refine ⟨rfl, ?_⟩
  rw [Evaluation.run_importNames]
  cases h : Evaluation.imported s request with
  | ok spaces =>
    refine ⟨⟨hs.stack, allowsSpaces_imported hs h, hs.loaders⟩, ?_, trivial⟩
    exact ⟨⟨rfl, rfl, rfl, rfl, rfl, List.suffix_rfl⟩, Evaluation.size_imported h,
      fun hquiet => absurd hmodules hquiet, fun hquiet => absurd hmodules hquiet⟩
  | error e =>
    refine ⟨hs, Keeps.refl s, e, rfl, error_imported h ?_⟩
    rintro source rfl
    exact hknown source

/-! ## Nodes -/

theorem alike_arithmetic (op : ArithmeticOp) (lexeme : String) :
    D.Alike (Evaluation.arithmetic op lexeme) (Evaluation.arithmetic op lexeme) fun _ => True := by
  refine Alike.bind Alike.requireShape fun _ _ => Alike.bind Alike.popNumber fun right _ =>
    Alike.bind Alike.popNumber fun left _ => ?_
  refine Alike.bind (Alike.demand (fun _ _ => trivial) ?_) fun _ _ => Alike.push trivial
  intro e he
  refine D.error_of ?_
  unfold Evaluation.calculate at he
  split at he
  · cases he
  · cases he
  · cases he
  · split at he
    · cases he; exact fun _ => nofun
    · cases he
  · split at he
    · cases he; exact fun _ => nofun
    · cases he

theorem ne_unknownNamespace_of_compareLiterals {op : ComparisonOp} {left right : Literal}
    {e : RuntimeError} (h : Evaluation.compareLiterals op left right = .error e) (source : String) :
    e ≠ .unknownNamespace source := by
  cases left <;> cases right <;> cases op <;> cases h <;> nofun

theorem alike_comparison (op : ComparisonOp) :
    D.Alike (Evaluation.comparison op) (Evaluation.comparison op) fun _ => True := by
  refine Alike.bind Alike.state fun s _ => ?_
  refine Alike.bind (Alike.demand (fun _ _ => trivial) ?_) fun _ _ =>
    Alike.bind Alike.pop fun right _ => Alike.bind Alike.pop fun left _ =>
      Alike.bind (Alike.demand (fun _ _ => trivial) ?_) fun _ _ => Alike.push trivial
  · intro e he
    unfold Stack.requireSize at he
    split at he
    · cases he
    · cases he; exact D.error_of fun _ => nofun
  · intro e he
    refine D.error_of fun source => ?_
    unfold Evaluation.compareValues at he
    split at he
    · exact ne_unknownNamespace_of_compareLiterals he source
    · cases he; nofun

theorem alike_defineFunction (signature : Signature) {body : Code} (hbody : D.AllowsCode body) :
    D.Alike (Evaluation.defineFunction signature body) (Evaluation.defineFunction signature body)
      fun _ => True :=
  Alike.bind Alike.state fun _ _ =>
    Alike.ite (fun _ => Alike.fail (D.error_of fun _ => nofun)) fun _ => Alike.define hbody

theorem alike_bindValue (id : NodeId) (name : String) (isPublic : Bool) :
    D.Alike (Evaluation.bindValue id name isPublic) (Evaluation.bindValue id name isPublic)
      fun _ => True :=
  Alike.bind Alike.requireShape fun _ _ => Alike.bind Alike.pop fun value hvalue =>
    Alike.bind Alike.state fun s _ => Alike.bind Alike.nameOf fun _ _ =>
      Alike.define (f := .constant value s.current) hvalue

theorem allowsFunction_lookUp {s : Interpreter} (hs : D.Holds s) {qualifier : Option Token}
    {name : String} {f : Function} (h : Evaluation.lookUp s qualifier name = .ok f) :
    D.AllowsFunction f := by
  obtain ⟨space, hf⟩ := Evaluation.function?_of_lookUp h
  exact (hs.spaces space).function? hf

theorem error_lookUp {s : Interpreter} {qualifier : Option Token} {name : String} {e : RuntimeError}
    (h : Evaluation.lookUp s qualifier name = .error e) : D.error e := by
  refine D.error_of fun source => ?_
  obtain ⟨token, -, rfl⟩ | rfl := Evaluation.error_of_lookUp h <;> nofun

/-! ## Nodes that run code -/

section Code

variable {run run' : Code → Eval Unit}
  (hrun : ∀ code, D.AllowsCode code → D.Alike (run code) (run' code) fun _ => True)

include hrun

theorem alike_condition (form : Condition) (lexeme : String) :
    D.Alike (Evaluation.condition run form lexeme) (Evaluation.condition run' form lexeme)
      fun _ => True := by
  cases form with
  | branched =>
    refine Alike.bind Alike.requireShape fun _ _ => Alike.bind Alike.popSequence fun otherwise ho =>
      Alike.bind Alike.popSequence fun chosen hc => Alike.bind Alike.popBoolean fun b _ => ?_
    exact Alike.ite (fun _ => hrun chosen.body hc) fun _ => hrun otherwise.body ho
  | single =>
    refine Alike.bind Alike.requireShape fun _ _ => Alike.bind Alike.popSequence fun chosen hc =>
      Alike.bind Alike.popBoolean fun b _ => ?_
    exact Alike.ite (fun _ => hrun chosen.body hc) fun _ => Alike.pure trivial

theorem alike_perform (limit : Nat) {f : Function} (hf : D.AllowsFunction f) :
    D.Alike (Evaluation.perform limit run f) (Evaluation.perform limit run' f) fun _ => True := by
  cases f with
  | native function access => exact alike_native limit hrun function
  | defined definition => exact hrun definition.body hf
  | constant value home => exact Alike.push hf

theorem alike_invoke (limit : Nat) {f : Function} (hf : D.AllowsFunction f) (lexeme : String) :
    D.Alike (Evaluation.invoke limit run f lexeme) (Evaluation.invoke limit run' f lexeme)
      fun _ => True := by
  have depth : D.Alike Evaluation.requireDepth Evaluation.requireDepth fun _ => True :=
    Alike.bind Alike.state fun _ _ => Alike.ite (fun _ => Alike.fail (D.error_of fun _ => nofun))
      fun _ => Alike.pure trivial
  have home : D.Alike (Evaluation.performAtHome limit run f) (Evaluation.performAtHome limit run' f)
      fun _ => True := by
    unfold Evaluation.performAtHome
    split
    · exact Alike.bind Alike.state fun _ _ => Alike.within (alike_perform hrun limit hf)
    · exact alike_perform hrun limit hf
  exact Alike.bind Alike.requireShape fun _ _ => Alike.bind depth fun _ _ =>
    Alike.bind (Alike.deeper home) fun _ _ => Alike.requireShape

theorem alike_callName (limit : Nat) (m : Mark NodeId) (qualifier : Option Token) (name : String) :
    D.Alike (Evaluation.callName limit run m qualifier name)
      (Evaluation.callName limit run' m qualifier name) fun _ => True := by
  refine Alike.bind Alike.nameOf fun name _ => Alike.bind Alike.state fun s hs => ?_
  refine Alike.bind (Q := D.AllowsFunction)
    (Alike.demand (fun _ => allowsFunction_lookUp hs) fun _ => error_lookUp) fun f hf => ?_
  exact Alike.onFailure (Diagnostic.cause_throughCall _) (alike_invoke hrun limit hf _)

theorem alike_runProgram (hmodules : D.modules) (info : ProgramInfo) {nodes : Code}
    (hnodes : D.AllowsCode nodes) :
    D.Alike (Evaluation.runProgram run info nodes) (Evaluation.runProgram run' info nodes)
      fun _ => True := by
  refine Alike.bind Alike.state fun s _ => Alike.ite (fun _ => Alike.within (hrun nodes hnodes)) ?_
  intro _
  have fresh : D.Alike Evaluation.freshSpace Evaluation.freshSpace fun _ => True := fun s hs =>
    ⟨rfl, ⟨hs.stack, hs.spaces.fresh, hs.loaders⟩,
      .of_eq rfl rfl rfl rfl rfl rfl s.spaces.grows_fresh, trivial⟩
  refine Alike.bind fresh fun space _ => Alike.bind (Alike.within (hrun nodes hnodes)) fun _ _ => ?_
  refine Alike.change (fun t ht => ⟨ht.stack, ht.spaces, ?_⟩)
    fun t => ⟨⟨rfl, rfl, rfl, rfl, rfl, List.suffix_cons _ _⟩, Nat.le_refl _,
      fun hquiet => absurd hmodules hquiet, fun hquiet => absurd hmodules hquiet⟩
  intro l hl
  rcases List.mem_cons.1 hl with rfl | hl
  · exact (ht.spaces space).exported
  · exact ht.loaders l hl

/-- Every node keeps to the discipline, if imports and the code inside do. -/
theorem alike_nodeWith {imports : Import → Eval Unit} (limit : Nat) {n : Node NodeId}
    (hn : n.All D.node) (himports : ∀ m request, n = .importing m request →
      D.Alike (imports request) (Evaluation.importNames request) fun _ => True) :
    D.Alike (Evaluation.nodeWith imports limit run n) (Evaluation.node limit run' n)
      fun _ => True := by
  cases n with
  | literal m value => exact Alike.push trivial
  | arithmetic m op => exact alike_arithmetic op m.token.lexeme
  | comparison m op => exact alike_comparison op
  | condition m form => exact alike_condition hrun form m.token.lexeme
  | sequence m block body => exact Alike.push hn.2
  | definition m signature body => exact alike_defineFunction signature hn.2
  | identifier m qualifier name => exact alike_callName hrun limit m qualifier name
  | importing m request => exact himports m request rfl
  | binding m name isPublic => exact alike_bindValue m.tag name isPublic
  | array m items =>
    refine Alike.bind (Q := D.array) (Alike.demand (fun _ => D.array_ofLiterals) ?_)
      fun _ ha => Alike.push ha
    intro e he
    rw [TypedArray.ofLiterals_error he]
    exact D.error_of fun _ => nofun
  | program m info nodes => exact alike_runProgram hrun (D.node_program hn.1) info hn.2

end Code

/-! ## Runs -/

theorem Alike.each {f f' : Node NodeId → Eval Unit} {code : Code} (hcode : D.AllowsCode code)
    (h : ∀ n, n.All D.node → D.Alike (f n) (f' n) fun _ => True) :
    D.Alike (Evaluation.each f code) (Evaluation.each f' code) fun _ => True := by
  induction code with
  | nil => exact Alike.pure trivial
  | cons n rest ih => exact Alike.bind (h n hcode.1) fun _ _ => ih hcode.2

/-- **Every run keeps to the discipline**, whatever imports mean, as long as that is alike to what
they mean in the language wherever the discipline allows an import. -/
theorem alike_execWith {imports : Import → Eval Unit}
    (himports : ∀ m request, D.node (.importing m request) →
      D.Alike (imports request) (Evaluation.importNames request) fun _ => True)
    (fuel : Nat) {code : Code} (hcode : D.AllowsCode code) :
    D.Alike (Evaluation.execWith imports fuel code) (Evaluation.exec fuel code)
      fun _ => True := by
  induction fuel generalizing code with
  | zero => exact Alike.exhausted
  | succ fuel ih =>
    refine Alike.each hcode fun n hn => Alike.onFailure (fun _ _ => rfl) ?_
    refine alike_nodeWith (fun _ => ih) fuel hn ?_
    rintro m request rfl
    exact himports m request hn

end Discipline

/-! ## The frame of a run -/

/-- The discipline that allows everything. -/
def Discipline.anything : Discipline where
  node _ := True
  array _ := True
  error _ := True
  modules := True
  node_literal _ _ := trivial
  node_sequence _ _ _ := trivial
  node_array _ _ := trivial
  node_program _ := trivial
  array_ofLiterals _ := trivial
  array_push _ _ := trivial
  array_set _ _ := trivial
  array_pop _ := trivial
  error_of _ := trivial

theorem Discipline.holds_anything (s : Interpreter) : anything.Holds s := by
  have code : ∀ code, anything.AllowsCode code := Node.allIn_of_forall fun _ => trivial
  have value : ∀ value, anything.AllowsValue value := by
    intro value
    cases value with
    | literal l => exact trivial
    | sequence s => exact code s.body
    | array a => exact trivial
  have space : ∀ n, anything.AllowsSpace n := by
    rintro n ⟨name, b⟩ -
    cases b with
    | child id => exact trivial
    | function f =>
      cases f with
      | native function access => exact trivial
      | defined definition => exact code definition.body
      | constant v home => exact value v
  refine ⟨fun v _ => value v, fun id => space _, fun l _ => ?_⟩
  cases l with
  | natives => exact trivial
  | module m => exact space m.exports

namespace Evaluation

/-- Every run keeps to the discipline that allows everything. -/
theorem exec_ends (fuel : Nat) (code : Code) (s : Interpreter) :
    Discipline.anything.Ends s (fun _ => True) ((exec fuel code).run s) := by
  have alike : Discipline.anything.Alike (exec fuel code) (exec fuel code) fun _ => True := by
    have h := Discipline.alike_execWith (D := .anything)
      (fun _ _ _ => Discipline.alike_importNames trivial fun _ => trivial) fuel
      (Node.allIn_of_forall (fun _ => trivial) code)
    rwa [execWith_importNames] at h
  exact (alike s (Discipline.holds_anything s)).2

/-- **A run comes back to where it started.** However code ends, whether it runs to its end, fails
or is out of fuel, the namespace, the file, the depth and its limit, and the scopes are what they
were, and the loaders are the old ones below those that were added. -/
theorem exec_frame (fuel : Nat) (code : Code) (s : Interpreter) :
    Frame s ((exec fuel code).run s).state :=
  (exec_ends fuel code s).keeps.toFrame

end Evaluation

end Catena

import Catena.Proofs.Evaluation.Course
import Catena.Proofs.Evaluation.Imports

/-!
# The functions in stock

A property that holds of every function in stock, bound in a namespace or offered by a module, is kept
by a run if it holds of what the definitions and bindings on its way add to the stock, and of native
functions if there is an import (`every_visits`).
-/

namespace Catena

namespace Namespace

theorem get?_foldl_publish {n : Namespace} (names : List String) {copy : Namespace} {name : String}
    {b : Binding} (hcopy : copy.get? name = some b → n.get? name = some b)
    (h : (names.foldl n.publish copy).get? name = some b) : n.get? name = some b := by
  induction names generalizing copy with
  | nil => exact hcopy h
  | cons first rest ih =>
    refine ih ?_ h
    unfold publish
    split
    · next binding hfirst =>
      intro hb
      rw [get?_define] at hb
      split at hb
      · next hname =>
        cases hb
        rw [eq_of_beq hname]
        exact hfirst
      · exact hcopy hb
    · exact hcopy

/-- What the copy of the public members binds is bound in the original. -/
theorem function?_of_exported {n : Namespace} {name : String} {f : Function}
    (h : n.exported.function? name = some f) : n.function? name = some f := by
  rw [function?_eq_some_iff] at *
  exact get?_foldl_publish n.published (by simp) h

end Namespace

namespace Namespaces

/-- What a name stands for after a definition is what was defined, or what it stood for before. -/
theorem get?_define_cases {ns : Namespaces} {id id' : NamespaceId} {name name' : String}
    {b b' : Binding} {isPublic : Bool}
    (h : ((ns.define id name b isPublic).get id').get? name' = some b') :
    b' = b ∨ (ns.get id').get? name' = some b' := by
  by_cases hid : id' = id
  · subst hid
    by_cases hsize : id' < ns.spaces.size
    · rw [get_define_self ns hsize, Namespace.get?_define] at h
      split at h
      · cases h
        exact .inl rfl
      · exact .inr h
    · rw [get_define_of_le ns (Nat.not_lt.1 hsize)] at h
      exact .inr h
  · rw [get_define_ne ns hid] at h
    exact .inr h

end Namespaces

namespace Evaluation

/-- Every function in stock has a property: those that are bound, and those that modules offer. -/
structure Every (P : Function → Prop) (b : Stock) : Prop where
  bound : ∀ id name f, (b.spaces.get id).function? name = some f → P f
  offered : ∀ m, Loader.module m ∈ b.loaders.loaders →
    ∀ name f, m.exports.function? name = some f → P f

namespace Every

variable {P : Function → Prop} {spaces : Namespaces} {loaders : LoaderStack}

theorem define (h : Every P ⟨spaces, loaders⟩) {b : Binding} (hb : ∀ f, b = .function f → P f)
    (id : NamespaceId) (name : String) (isPublic : Bool) :
    Every P ⟨spaces.define id name b isPublic, loaders⟩ := by
  refine ⟨fun id' name' f hf => ?_, h.offered⟩
  rcases Namespaces.get?_define_cases (Namespace.function?_eq_some_iff.1 hf) with rfl | hold
  · exact hb f rfl
  · exact h.bound id' name' f (Namespace.function?_eq_some_iff.2 hold)

theorem define_function (h : Every P ⟨spaces, loaders⟩) {f : Function} (hf : P f) (id : NamespaceId)
    (name : String) (isPublic : Bool) :
    Every P ⟨spaces.define id name (.function f) isPublic, loaders⟩ :=
  h.define (fun g hg => by cases hg; exact hf) id name isPublic

theorem fresh (h : Every P ⟨spaces, loaders⟩) : Every P ⟨spaces.fresh.2, loaders⟩ := by
  refine ⟨fun id name f hf => ?_, h.offered⟩
  rw [Namespaces.get_fresh] at hf
  exact h.bound id name f hf

theorem publish (h : Every P ⟨spaces, loaders⟩) (key : String) (id : NamespaceId) (origin : Origin) :
    Every P ⟨spaces, loaders.push (.module ⟨key, (spaces.get id).exported, origin⟩)⟩ := by
  refine ⟨h.bound, fun m hm name f hf => ?_⟩
  rcases List.mem_cons.1 hm with hnew | hold
  · cases hnew
    exact h.bound id name f (Namespace.function?_of_exported hf)
  · exact h.offered m hold name f hf

theorem mount {spaces' : Namespaces} {id child : NamespaceId} {name : String}
    (h : Every P ⟨spaces, loaders⟩) (hm : spaces.mount id name = .ok (child, spaces')) :
    Every P ⟨spaces', loaders⟩ := by
  rcases Namespaces.mount_cases hm with ⟨-, rfl⟩ | ⟨-, -, rfl⟩
  · exact h
  · exact h.fresh.define (by simp) id name false

theorem function? (h : Every P ⟨spaces, loaders⟩) (hnative : ∀ f, P (.ofNative f))
    {key name : String} {f : Function} (hf : loaders.function? key name = some f) : P f := by
  obtain ⟨native, rfl⟩ | ⟨m, hm, hoffered⟩ := LoaderStack.native_or_offered hf
  · exact hnative native
  · exact h.offered m hm name f hoffered

theorem imported {s : Interpreter} {request : Import} {spaces : Namespaces} (h : Every P s.stock)
    (hnative : ∀ f, P (.ofNative f)) (himported : imported s request = .ok spaces) :
    Every P { s.stock with spaces } :=
  imported_preserves (P := fun ns => Every P { s.stock with spaces := ns }) himported h
    (fun _ _ hmount => h.mount hmount)
    fun _ space _ name _ hf hbase =>
      hbase.define_function (h.function? hnative hf) space name false

theorem opened {s : Interpreter} (h : Every P s.stock) (info : ProgramInfo) :
    Every P (Evaluation.opened info s).stock :=
  opened_preserves h h.fresh info

theorem effect {v : Visit} (h : Every P v.state.stock)
    (hdefinition : ∀ m signature body, v.node = .definition m signature body → P (.defined
      { name := signature.name, body, pre := signature.pre, post := signature.post,
        home := v.state.current, file := v.state.file }))
    (hbinding : ∀ m name isPublic value rest, v.node = .binding m name isPublic →
      v.state.stack.items = value :: rest → P (.constant value v.state.current))
    (himporting : ∀ m request, v.node = .importing m request → ∀ f, P (.ofNative f)) :
    Every P v.effect :=
  v.effect_preserves h
    (fun m signature body hnode => h.define_function (hdefinition m signature body hnode) _ _ _)
    (fun m name isPublic value rest hnode hstack =>
      h.define_function (hbinding m name isPublic value rest hnode hstack) _ _ _)
    (fun m request _ hnode himported => h.imported (himporting m request hnode) himported)
    h.fresh

end Every

/-- **What holds of every function that is added to the stock holds of every function in it.** -/
theorem every_visits {P : Function → Prop} {fuel : Nat} {ways : List Way} {code : Code}
    {s : Interpreter} (h : Every P s.stock)
    (hvisit : ∀ v ∈ visits fuel ways code s, Every P v.state.stock → Every P v.effect) :
    ∀ v ∈ visits fuel ways code s, Every P v.state.stock :=
  ((hands_visits fuel ways code s).invariant (fun _ _ key id origin h => h.publish key id origin)
    hvisit h).2

/-! ## Fresh states -/

/-- A state in which nothing has been run yet, with any streams and any numbers. -/
structure Fresh (s : Interpreter) : Prop where
  stack : s.stack = {}
  current : s.current = 0
  spaces : s.spaces = { spaces := #[{}] }
  loaders : s.loaders = { loaders := [.natives] }
  scopes : s.scopes = {}

namespace Fresh

variable {s : Interpreter}

theorem withNatives (console : Console) : Fresh (.withNatives console) :=
  ⟨rfl, rfl, rfl, rfl, rfl⟩

theorem get_eq (h : Fresh s) (id : NamespaceId) : s.spaces.get id = {} := by
  rw [h.spaces]
  cases id <;> rfl

theorem holds (h : Fresh s) (D : Discipline) : D.Holds s := by
  refine ⟨fun v hv => ?_, fun id => ?_, fun l hl => ?_⟩
  · rw [h.stack] at hv
    cases hv
  · rw [h.get_eq]
    exact Discipline.allowsSpace_empty
  · rw [h.loaders] at hl
    rw [List.mem_singleton.1 hl]
    exact trivial

theorem every (h : Fresh s) (P : Function → Prop) : Every P s.stock := by
  refine ⟨fun id name f hf => ?_, fun m hm => ?_⟩
  · have hempty : s.stock.spaces.get id = {} := h.get_eq id
    rw [hempty] at hf
    cases hf
  · have hnatives : s.stock.loaders = _ := h.loaders
    rw [hnatives] at hm
    cases List.mem_singleton.1 hm

end Fresh

theorem holds_begun {D : Discipline} {s : Interpreter} (h : D.Holds s) (scopes : ScopeTable)
    (p : Program NodeId) : D.Holds (begun scopes p s) := by
  have hs : D.Holds { s with scopes := s.scopes.extend scopes, depth := 0 } := h.of_eq rfl rfl rfl
  exact holds_opened hs p.info

/-- What a program leaves, whether it runs to its end or not, keeps to a discipline that the program
and the state in which it is run keep to. -/
theorem holds_interpret {D : Discipline} {s : Interpreter} (hmodules : D.modules)
    (himports : ∀ m request, D.node (.importing m request) →
      D.Alike (importNames request) (importNames request) fun _ => True) (h : D.Holds s)
    (fuel : Nat) (scopes : ScopeTable) {p : Program NodeId} (hcode : D.AllowsCode p.nodes) :
    D.Holds ((interpret fuel scopes p).run s).state := by
  have hprogram := (Discipline.alike_runProgram (fun _ => alike_exec himports fuel) hmodules p.info
    hcode { s with scopes := s.scopes.extend scopes, depth := 0 } (h.of_eq rfl rfl rfl)).2.holds
  unfold interpret
  rw [Action.run_bind, Action.run_change]
  dsimp only
  rw [Action.run_bind]
  cases hrun : (runProgram (exec fuel) p.info p.nodes).run
    { s with scopes := s.scopes.extend scopes, depth := 0 } with
  | done a t =>
    rw [hrun] at hprogram
    exact hprogram
  | stopped halt t =>
    rw [hrun] at hprogram
    exact hprogram

theorem every_begun {P : Function → Prop} {s : Interpreter} (h : Every P s.stock)
    (scopes : ScopeTable) (p : Program NodeId) : Every P (begun scopes p s).stock := by
  have hs : Every P { s with scopes := s.scopes.extend scopes, depth := 0 : Interpreter }.stock := h
  exact hs.opened p.info

end Evaluation

end Catena

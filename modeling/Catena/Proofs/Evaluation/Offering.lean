import Catena.Proofs.Evaluation.Seclusion
import Catena.Proofs.Loader.Instances

/-!
# What there is to be imported

Only functions are made public: a namespace that is mounted in another one is private there. So what
loaders list are functions, in every state that a run comes to (`Offering`). Nothing is needed of the
private names, whose bindings may come and go. Together with the order in which namespaces are made
this is what imports rely on (`Interpreter.Ready`): runs keep it (`ready_visits`), and whatever a
session has run, its next run comes to such states only (`Arises.ready_visited`).
-/

namespace Catena

/-! ## Public names -/

/-- No public name stands for a namespace. -/
def Namespace.PublishesFunctions (n : Namespace) : Prop :=
  ∀ name ∈ n.published, ∀ child, n.get? name ≠ some (.child child)

namespace Namespace.PublishesFunctions

variable {n : Namespace}

theorem empty : ({} : Namespace).PublishesFunctions :=
  fun _ hname => nomatch hname

theorem define_function (h : n.PublishesFunctions) (name : String) (f : Function) (isPublic : Bool) :
    (n.define name (.function f) isPublic).PublishesFunctions := by
  intro x hx child hchild
  rw [get?_define] at hchild
  split at hchild
  · cases hchild
  · next hne =>
    refine h x ?_ child hchild
    cases isPublic with
    | false => exact List.mem_of_mem_filter hx
    | true => exact (mem_published_define.1 hx).resolve_left (by simpa using hne)

/-- What is bound privately is not public. -/
theorem define_private (h : n.PublishesFunctions) (name : String) (b : Binding) :
    (n.define name b false).PublishesFunctions := by
  intro x hx child hchild
  obtain ⟨hx, hne⟩ := List.mem_filter.1 hx
  rw [get?_define, if_neg (by simpa using hne)] at hchild
  exact h x hx child hchild

end Namespace.PublishesFunctions

/-! ## The stock of a run -/

namespace Evaluation

/-- What is public are functions: in namespaces, and what loaders list. -/
structure Offering (b : Stock) : Prop where
  spaces : ∀ id, (b.spaces.get id).PublishesFunctions
  loaders : ∀ l ∈ b.loaders.loaders, l.ServesFunctions

namespace Offering

variable {spaces spaces' : Namespaces} {loaders : LoaderStack}

/-- One namespace may be changed for another one that publishes functions. -/
theorem define (h : Offering ⟨spaces, loaders⟩) {id : NamespaceId} {name : String} {b : Binding}
    {isPublic : Bool} (hb : ((spaces.get id).define name b isPublic).PublishesFunctions) :
    Offering ⟨spaces.define id name b isPublic, loaders⟩ := by
  refine ⟨fun id' => ?_, h.loaders⟩
  by_cases hsize : id < spaces.spaces.size
  · by_cases hid : id' = id
    · rw [hid, spaces.get_define_self hsize]
      exact hb
    · rw [spaces.get_define_ne hid]
      exact h.spaces id'
  · rw [spaces.get_define_of_le (Nat.not_lt.1 hsize)]
    exact h.spaces id'

theorem define_function (h : Offering ⟨spaces, loaders⟩) (id : NamespaceId) (name : String)
    (f : Function) (isPublic : Bool) :
    Offering ⟨spaces.define id name (.function f) isPublic, loaders⟩ :=
  h.define ((h.spaces id).define_function name f isPublic)

theorem fresh (h : Offering ⟨spaces, loaders⟩) : Offering ⟨spaces.fresh.2, loaders⟩ := by
  refine ⟨fun id => ?_, h.loaders⟩
  rw [Namespaces.get_fresh]
  exact h.spaces id

theorem publish (h : Offering ⟨spaces, loaders⟩) (key : String) (id : NamespaceId)
    (origin : Origin) :
    Offering ⟨spaces, loaders.push (.module ⟨key, (spaces.get id).exported, origin⟩)⟩ :=
  ⟨h.spaces, List.forall_mem_cons.2 ⟨⟨spaces.get id, rfl, h.spaces id⟩, h.loaders⟩⟩

theorem mount (h : Offering ⟨spaces, loaders⟩) {id child : NamespaceId} {name : String}
    (hm : spaces.mount id name = .ok (child, spaces')) : Offering ⟨spaces', loaders⟩ := by
  rcases Namespaces.mount_cases hm with ⟨-, rfl⟩ | ⟨-, -, rfl⟩
  · exact h
  · exact h.fresh.define ((h.fresh.spaces id).define_private name _)

theorem imported {s : Interpreter} {request : Import} {spaces : Namespaces} (h : Offering s.stock)
    (himported : imported s request = .ok spaces) : Offering { s.stock with spaces } :=
  imported_preserves (P := fun ns => Offering { s.stock with spaces := ns }) himported h
    (fun _ _ hmount => h.mount hmount)
    fun _ space _ name f _ hbase => hbase.define_function space name f false

theorem opened {s : Interpreter} (h : Offering s.stock) (info : ProgramInfo) :
    Offering (opened info s).stock :=
  opened_preserves h h.fresh info

/-- No node makes anything public but a function. -/
theorem effect {v : Visit} (h : Offering v.state.stock) : Offering v.effect :=
  v.effect_preserves h (fun _ _ _ _ => h.define_function _ _ _ _)
    (fun _ _ _ _ _ _ _ => h.define_function _ _ _ _)
    (fun _ _ _ _ himported => h.imported himported) h.fresh

end Offering

end Evaluation

/-! ## States in which code imports -/

/-- The loader has a function for every name that it lists. -/
def Loader.Provides (l : Loader) : Prop :=
  ∀ space name, name ∈ l.names space → (l.function? space name).isSome

theorem Loader.ServesFunctions.provides {l : Loader} (h : l.ServesFunctions) : l.Provides :=
  fun _ _ hname => h.mem_names_iff.1 hname

/-- Loaders that have functions for the names that they list have them together. -/
theorem LoaderStack.exists_of_mem_names {s : LoaderStack} (hs : ∀ l ∈ s.loaders, l.Provides)
    {space name : String} (h : name ∈ s.names space) : ∃ f, s.function? space name = some f := by
  obtain ⟨l, hl, -, hname⟩ := mem_names.1 h
  rw [← Option.isSome_iff_exists, function?_eq, List.findSome?_isSome_iff]
  exact ⟨l, hl, hs l hl space name hname⟩

/-- What imports rely on: the current namespace has been made, namespaces are mounted in older ones, and
what loaders list are functions. -/
structure Interpreter.Ready (s : Interpreter) : Prop where
  current : s.current < s.spaces.spaces.size
  nested : s.spaces.Nested
  provides : ∀ l ∈ s.loaders.loaders, l.Provides

namespace Evaluation

/-- **Wherever a run comes to, imports find what they rely on.** -/
theorem ready_visits {fuel : Nat} {ways : List Way} {code : Code} {s : Interpreter} (hs : Built s)
    (hnested : s.spaces.Nested) (hoffering : Offering s.stock) :
    ∀ v ∈ visits fuel ways code s, v.state.Ready := by
  intro v hv
  have hhands := hands_visits fuel ways code s
  have hbuilt : ∀ v ∈ visits fuel ways code s, Built v.state := built_visits hs
  have hnests := (hhands.invariant (J := fun b => b.spaces.Nested) (fun _ _ _ _ _ h => h)
    (fun v hv h => nested_effect h (hbuilt v hv).current) hnested).2
  have hoffers := (hhands.invariant (J := Offering) (fun _ _ key id origin h => h.publish key id origin)
    (fun _ _ h => h.effect) hoffering).2
  exact ⟨(hbuilt v hv).current, hnests v hv, fun l hl => ((hoffers v hv).loaders l hl).provides⟩

namespace Fresh

variable {s : Interpreter}

theorem nested (hs : Fresh s) : s.spaces.Nested := by
  intro id name child hchild
  rw [hs.get_eq] at hchild
  cases hchild

theorem offering (hs : Fresh s) : Offering s.stock := by
  refine ⟨fun id => ?_, fun l hl => ?_⟩
  · rw [show s.stock.spaces.get id = {} from hs.get_eq id]
    exact .empty
  · rw [show s.stock.loaders = _ from hs.loaders] at hl
    rw [List.mem_singleton.1 hl]
    exact trivial

end Fresh

theorem Offering.begun {s : Interpreter} (h : Offering s.stock) (scopes : ScopeTable)
    (p : Program NodeId) : Offering (begun scopes p s).stock := by
  have hs : Offering { s with scopes := s.scopes.extend scopes, depth := 0 : Interpreter }.stock := h
  exact hs.opened p.info

/-- A program leaves public functions only, however it ends. -/
theorem offering_interpret {s : Interpreter} (h : Offering s.stock) (fuel : Nat) (scopes : ScopeTable)
    (p : Program NodeId) : Offering ((interpret fuel scopes p).run s).state.stock := by
  have hhands := hands_visits fuel [.module p.info] p.nodes (begun scopes p s)
  have hend := (hhands.invariant (J := Offering) (fun _ _ key id origin h => h.publish key id origin)
    (fun _ _ h => h.effect) (h.begun scopes p)).1
  rw [run_interpret]
  cases hrun : (exec fuel p.nodes).run (begun scopes p s) with
  | stopped halt t =>
    rw [hrun] at hend
    exact hend
  | done a t =>
    rw [hrun] at hend
    unfold closed
    dsimp only [Outcome.state]
    split
    · exact hend
    · exact hend.publish _ _ _

end Evaluation

/-! ## Sessions -/

namespace Session

open Evaluation

variable {config : Config} {s : Session}

theorem Arises.offering (h : Arises config s) : Offering s.interpreter.stock := by
  refine h.invariant (I := fun s => Offering s.stock) ?_ (fun _ _ hs => hs) (fun _ _ _ hs => hs)
    fun _ _ _ _ p _ l _ hs => offering_interpret hs ampleFuel l.scopes p
  intro console random
  have hfresh : Fresh (Session.new config console random).interpreter := ⟨rfl, rfl, rfl, rfl, rfl⟩
  exact hfresh.offering

/-- **Whatever a session has run, the next run comes to states in which imports find what they rely
on.** -/
theorem Arises.ready_visited (h : Arises config s) (l : Linker) (p : Program NodeId) (fuel : Nat) :
    ∀ v ∈ visited fuel l.scopes p (s.remember l).interpreter, v.state.Ready := by
  have hremember : Secluded (s.remember l).interpreter := h.secluded.of_eq rfl rfl rfl rfl
  have hoffering : Offering (s.remember l).interpreter.stock := h.offering
  have hbegun := secluded_begun hremember l.scopes p
  exact ready_visits hbegun.built hbegun.nested (hoffering.begun l.scopes p)

end Session

end Catena

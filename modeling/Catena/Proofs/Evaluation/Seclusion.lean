import Catena.Proofs.Evaluation.Locals
import Catena.Proofs.Session

/-!
# Namespaces that others cannot reach

Code changes the namespace that is current, and a function makes the namespace current that it belongs
to. So a namespace is safe from code that runs elsewhere if nothing leads to it that such code can get
hold of: no other namespace binds a function that belongs to it or has it mounted, and no module offers
such a function. Then it is *sealed* (`Sealed`).

Whatever is run, a namespace stays sealed until it is handed over itself (`sealed_exec`), and while
another one is current its bindings stay as they are (`get_exec_of_sealed`). A new namespace is sealed;
the one that a session runs in is never handed over. So whenever a module is run, the namespace of its
importer is sealed, and the module leaves it alone (`importer_untouched`).
-/

namespace Catena

open Linking

/-- A binding leads to a namespace: it is that namespace, or a function that belongs to it. -/
def Binding.LeadsTo (k : NamespaceId) : Binding → Prop
  | .function f => f.home? = some k
  | .child id => id = k

namespace Evaluation

/-- Nothing leads to the namespace `k` but its own bindings. -/
structure Sealed (k : NamespaceId) (b : Stock) : Prop where
  bound : ∀ id name binding, id ≠ k → (b.spaces.get id).get? name = some binding →
    ¬binding.LeadsTo k
  offered : ∀ m, Loader.module m ∈ b.loaders.loaders →
    ∀ name f, m.exports.function? name = some f → f.home? ≠ some k

namespace Sealed

variable {k : NamespaceId} {spaces : Namespaces} {loaders : LoaderStack}

theorem define (h : Sealed k ⟨spaces, loaders⟩) {id : NamespaceId} {b : Binding}
    (hb : id ≠ k → ¬b.LeadsTo k) (name : String) (isPublic : Bool) :
    Sealed k ⟨spaces.define id name b isPublic, loaders⟩ := by
  refine ⟨fun id' name' b' hid hget => ?_, h.offered⟩
  by_cases hsame : id' = id
  · rcases Namespaces.get?_define_cases hget with rfl | hold
    · exact hb (hsame ▸ hid)
    · exact h.bound id' name' b' hid hold
  · rw [Namespaces.get_define_ne _ hsame] at hget
    exact h.bound id' name' b' hid hget

theorem fresh (h : Sealed k ⟨spaces, loaders⟩) : Sealed k ⟨spaces.fresh.2, loaders⟩ := by
  refine ⟨fun id name b hid hget => ?_, h.offered⟩
  rw [Namespaces.get_fresh] at hget
  exact h.bound id name b hid hget

/-- Handing over another namespace offers no function that belongs to this one. -/
theorem publish (h : Sealed k ⟨spaces, loaders⟩) {id : NamespaceId} (hid : id ≠ k) (key : String)
    (origin : Origin) :
    Sealed k ⟨spaces, loaders.push (.module ⟨key, (spaces.get id).exported, origin⟩)⟩ := by
  refine ⟨h.bound, fun m hm name f hf => ?_⟩
  rcases List.mem_cons.1 hm with hnew | hold
  · cases hnew
    have hbound := Namespace.function?_eq_some_iff.1 (Namespace.function?_of_exported hf)
    exact h.bound id name (.function f) hid hbound
  · exact h.offered m hold name f hf

theorem function? (h : Sealed k ⟨spaces, loaders⟩) {key name : String} {f : Function}
    (hf : loaders.function? key name = some f) : f.home? ≠ some k := by
  obtain ⟨native, rfl⟩ | ⟨m, hm, hoffered⟩ := LoaderStack.native_or_offered hf
  · nofun
  · exact h.offered m hm name f hoffered

theorem mount {spaces' : Namespaces} {id child : NamespaceId} {name : String}
    (h : Sealed k ⟨spaces, loaders⟩) (hk : k < spaces.spaces.size)
    (hm : spaces.mount id name = .ok (child, spaces')) : Sealed k ⟨spaces', loaders⟩ := by
  rcases Namespaces.mount_cases hm with ⟨-, rfl⟩ | ⟨-, rfl, rfl⟩
  · exact h
  · refine h.fresh.define ?_ name false
    exact fun _ => (Nat.ne_of_lt hk).symm

/-- What is mounted in another namespace is another namespace. -/
theorem mount_ne {spaces' : Namespaces} {id child : NamespaceId} {name : String}
    (h : Sealed k ⟨spaces, loaders⟩) (hk : k < spaces.spaces.size) (hid : id ≠ k)
    (hm : spaces.mount id name = .ok (child, spaces')) :
    child ≠ k ∧ spaces'.get k = spaces.get k := by
  rcases Namespaces.mount_cases hm with ⟨hchild, rfl⟩ | ⟨-, rfl, rfl⟩
  · exact ⟨h.bound id name (.child child) hid hchild, rfl⟩
  · refine ⟨(Nat.ne_of_lt hk).symm, ?_⟩
    rw [Namespaces.get_define_ne _ hid.symm, Namespaces.get_fresh]

variable {s : Interpreter} {request : Import}

theorem imported (h : Sealed k s.stock) (hk : k < s.spaces.spaces.size)
    (himported : imported s request = .ok spaces) : Sealed k { s.stock with spaces } :=
  imported_preserves (P := fun ns => Sealed k { s.stock with spaces := ns }) himported h
    (fun _ _ hmount => h.mount hk hmount)
    fun _ _ _ name f hf hbase => hbase.define (b := .function f) (fun _ => h.function? hf) name false

/-- An import binds names of the current namespace, or of one that is mounted there. -/
theorem get_imported (h : Sealed k s.stock) (hk : k < s.spaces.spaces.size)
    (hcurrent : s.current ≠ k) (himported : Evaluation.imported s request = .ok spaces) :
    spaces.get k = s.spaces.get k := by
  obtain ⟨-, ⟨-, child, base, hmount, rfl⟩ | ⟨-, -, rfl⟩⟩ := imported_cases himported
  · obtain ⟨hchild, hsame⟩ := h.mount_ne hk hcurrent hmount
    rw [get_bindFunctions_ne _ _ hchild.symm, hsame]
  · rw [get_bindFunctions_ne _ _ hcurrent.symm]

variable {v : Visit}

/-- What a visit does by itself leaves a namespace sealed, the current one or another. -/
theorem effect (h : Sealed k v.state.stock) (hk : k < v.state.spaces.spaces.size) :
    Sealed k v.effect := by
  -- what is defined or bound belongs to the namespace that it is put in
  have hhome : ∀ {f : Function}, f.home? = some v.state.current →
      v.state.current ≠ k → f.home? ≠ some k :=
    fun hf hcurrent hk => hcurrent (Option.some.inj (hf.symm.trans hk))
  exact v.effect_preserves h (fun _ _ _ _ => h.define (hhome rfl) _ _)
    (fun _ _ _ _ _ _ _ => h.define (hhome rfl) _ _)
    (fun _ _ _ _ himported => h.imported hk himported) h.fresh

/-- A visit in another namespace changes nothing in a sealed one by itself. -/
theorem get_effect (h : Sealed k v.state.stock) (hk : k < v.state.spaces.spaces.size)
    (hcurrent : v.state.current ≠ k) : v.effect.spaces.get k = v.state.spaces.get k :=
  v.effect_preserves (J := fun b => b.spaces.get k = v.state.spaces.get k) rfl
    (fun _ _ _ _ => Namespaces.get_define_ne _ hcurrent.symm ..)
    (fun _ _ _ _ _ _ _ => Namespaces.get_define_ne _ hcurrent.symm ..)
    (fun _ _ _ _ himported => h.get_imported hk hcurrent himported)
    (Namespaces.get_fresh ..)

/-- The functions that can be called in another namespace belong elsewhere. -/
theorem lookUp (h : Sealed k s.stock) (hcurrent : s.current ≠ k) {qualifier : Option Token}
    {name : String} {f : Function} (hf : lookUp s qualifier name = .ok f) : f.home? ≠ some k := by
  obtain ⟨space, hspace, hbound⟩ := bound_of_lookUp hf
  have hother : space ≠ k := by
    rcases hspace with rfl | ⟨mounted, hmounted⟩
    · exact hcurrent
    · exact h.bound s.current mounted (.child space) hcurrent hmounted
  exact h.bound space name (.function f) hother (Namespace.function?_eq_some_iff.1 hbound)

end Sealed

/-! ## Runs -/

section Runs

variable {k : NamespaceId} {s : Interpreter} (fuel : Nat) (code : Code)

/-- **A namespace stays sealed whatever is run**, also if it is the current one: functions that are
defined in it are bound in it, and other namespaces are handed over, but not this one. -/
theorem sealed_exec (hk : k < s.spaces.spaces.size) (h : Sealed k s.stock) :
    k < ((exec fuel code).run s).state.spaces.spaces.size ∧
      Sealed k ((exec fuel code).run s).state.stock := by
  refine (run_invariant (K := fun _ => True) (I := fun _ _ _ => True)
    (J := fun b => k < b.spaces.spaces.size ∧ Sealed k b)
    (Q := fun v => k < v.state.spaces.spaces.size) ?publish ?visit (fun _ _ _ _ _ _ _ _ => trivial)
    (fun _ _ _ _ _ _ _ _ _ _ => trivial) (fun v (_ : v ∈ visits fuel [] code s) => trivial) trivial
    ⟨hk, h⟩).2
  case publish =>
    rintro v spaces loaders key origin hv ⟨hk, h⟩
    exact ⟨hk, h.publish (Nat.ne_of_gt hv) key origin⟩
  case visit =>
    rintro ways n _ s fuel - - ⟨hk, h⟩
    exact ⟨hk, Nat.lt_of_lt_of_le hk (size_effect ⟨n, s, ways, fuel⟩), h.effect hk⟩

/-- **What is run elsewhere leaves a sealed namespace as it is.** -/
theorem get_exec_of_sealed (hk : k < s.spaces.spaces.size) (h : Sealed k s.stock)
    (hcurrent : s.current ≠ k) :
    ((exec fuel code).run s).state.spaces.get k = s.spaces.get k := by
  -- being elsewhere is what code relies on: it calls no function that belongs to the sealed namespace
  refine (run_invariant (K := fun _ => True) (I := fun _ _ s => s.current ≠ k)
    (J := fun b => (k < b.spaces.spaces.size ∧ Sealed k b) ∧ b.spaces.get k = s.spaces.get k)
    (Q := fun v => k < v.state.spaces.spaces.size) ?publish ?visit ?next ?start
    (fun v (_ : v ∈ visits fuel [] code s) => trivial) hcurrent ⟨⟨hk, h⟩, rfl⟩).2.2
  case publish =>
    rintro v spaces loaders key origin hv ⟨⟨hk, h⟩, hget⟩
    exact ⟨⟨hk, h.publish (Nat.ne_of_gt hv) key origin⟩, hget⟩
  case visit =>
    rintro ways n _ t fuel - hcurrent ⟨⟨hk, h⟩, hget⟩
    exact ⟨hk, ⟨Nat.lt_of_lt_of_le hk (size_effect ⟨n, t, ways, fuel⟩), h.effect hk⟩,
      (h.get_effect hk hcurrent).trans hget⟩
  case next =>
    intro _ n _ t fuel u hcurrent hstep
    exact (frame_of_step hstep).current ▸ hcurrent
  case start =>
    rintro _ n _ t fuel hk hcurrent ⟨⟨-, h⟩, -⟩ start hstart
    cases leads_starts hstart with
    | branch hstill => exact hstill.current ▸ hcurrent
    | sequence _ hframe => exact hframe.current ▸ hcurrent
    | @body _ d hcalls =>
      obtain ⟨m, qualifier, name, -, hcallee⟩ := hcalls
      exact fun hhome => h.lookUp hcurrent (lookUp_of_callee? hcallee).1 (congrArg some hhome)
    | @module m info nodes =>
      unfold opened
      split
      · exact hcurrent
      · exact Nat.ne_of_gt hk

/-- Running a module leaves the current namespace as it is, if that is sealed. -/
theorem get_module_of_sealed {v : Visit} {m : Mark NodeId} {info : ProgramInfo} {nodes : Code}
    (hnode : v.node = .program m info nodes) (hroot : info.isRoot = false)
    (hcurrent : v.state.current < v.state.spaces.spaces.size)
    (h : Sealed v.state.current v.state.stock) :
    v.outcome.state.spaces.get v.state.current = v.state.spaces.get v.state.current := by
  have hopened : opened info v.state =
      { v.state with
        spaces := v.state.spaces.fresh.2
        current := v.state.spaces.fresh.1
        file := info.file.or v.state.file } := by
    unfold opened
    rw [hroot]
    rfl
  have hrun : ((exec v.fuel nodes).run (opened info v.state)).state.spaces.get v.state.current =
      v.state.spaces.get v.state.current := by
    rw [← Namespaces.get_fresh v.state.spaces, hopened]
    refine get_exec_of_sealed v.fuel nodes ?_ h.fresh (Nat.ne_of_gt hcurrent)
    rw [Namespaces.size_fresh]
    exact Nat.lt_succ_of_lt hcurrent
  unfold Visit.outcome
  rw [hnode, step, state_onFailure, node, run_program]
  cases hexec : (exec v.fuel nodes).run (opened info v.state) with
  | stopped halt t =>
    rw [hexec] at hrun
    exact hrun
  | done a t =>
    rw [hexec] at hrun
    unfold closed
    rw [hroot]
    exact hrun

theorem alike_imports_plain (m : Mark NodeId) (request : Import)
    (h : Discipline.plain.node (.importing m request)) :
    Discipline.plain.Alike (importNames request) (importNames request) fun _ => True :=
  h.elim

theorem made_exec (h : Built s) : ((exec fuel code).run s).state.stock.Made :=
  ((hands_visits fuel [] code s).invariant (J := Stock.Made)
    (fun _ _ key id origin h => Every.publish h key id origin)
    (fun v hv hs => hs.effect (built_visits h v hv).current) h.made).1

theorem nested_effect {v : Visit} (h : v.state.spaces.Nested)
    (hcurrent : v.state.current < v.state.spaces.spaces.size) : v.effect.spaces.Nested :=
  v.effect_preserves (J := fun b => b.spaces.Nested) h
    (fun _ _ _ _ => (Namespaces.grows_define_function ..).nested h)
    (fun _ _ _ _ _ _ _ => (Namespaces.grows_define_function ..).nested h)
    (fun _ _ _ _ himported => nested_imported hcurrent h himported)
    ((Namespaces.grows_fresh _).nested h)

theorem nested_exec (h : Built s) (hs : s.spaces.Nested) :
    ((exec fuel code).run s).state.spaces.Nested :=
  ((hands_visits fuel [] code s).invariant (J := fun b => b.spaces.Nested) (fun _ _ _ _ _ h => h)
    (fun v hv hs => nested_effect hs (built_visits h v hv).current) hs).1

end Runs

/-! ## Importers -/

/-- A state in which modules can be run: no other code in it imports, what it leads to has been made,
and the current namespace is sealed. -/
structure Secluded (s : Interpreter) : Prop where
  holds : Discipline.plain.Holds s
  built : Built s
  nested : s.spaces.Nested
  closed : Sealed s.current s.stock

namespace Secluded

variable {s t : Interpreter}

theorem of_eq (h : Secluded s) (stack : t.stack = s.stack) (current : t.current = s.current)
    (spaces : t.spaces = s.spaces) (loaders : t.loaders = s.loaders) : Secluded t := by
  have hstock : t.stock = s.stock := by
    unfold Interpreter.stock
    rw [spaces, loaders]
  refine ⟨h.holds.of_eq stack spaces loaders, ⟨?_, ?_⟩, ?_, ?_⟩
  · rw [current, spaces]
    exact h.built.current
  · rw [hstock]
    exact h.built.made
  · rw [spaces]
    exact h.nested
  · rw [current, hstock]
    exact h.closed

/-- Nothing leads to a namespace that is made just now. -/
theorem opened (h : Secluded s) (info : ProgramInfo) : Secluded (opened info s) := by
  unfold Evaluation.opened
  split
  · exact h.of_eq rfl rfl rfl rfl
  · have hsize : s.spaces.fresh.1 < s.spaces.fresh.2.spaces.size := by
      rw [Namespaces.size_fresh]
      exact Nat.lt_succ_self _
    refine ⟨⟨h.holds.stack, h.holds.spaces.fresh, h.holds.loaders⟩, ⟨hsize, ?_⟩,
      (Namespaces.grows_fresh _).nested h.nested, ?_⟩
    · exact (Every.fresh h.built.made).mono fun f => Housed.mono (Namespaces.grows_fresh _).size
    · refine ⟨fun id name b _ hget hleads => ?_, fun m hm name f hf hhome => ?_⟩
      · replace hget : (s.spaces.get id).get? name = some b :=
          Namespaces.get_fresh s.spaces id ▸ hget
        cases b with
        | child child =>
          have hmade := (h.nested id name child hget).2
          exact Nat.ne_of_lt hmade hleads
        | function f =>
          have hmade := h.built.made.bound id name f (Namespace.function?_eq_some_iff.2 hget)
          exact Nat.lt_irrefl _ (hmade _ hleads)
      · exact Nat.lt_irrefl _ (h.built.made.offered m hm name f hf _ hhome)

/-- Running imports, modules and other code leaves the current namespace sealed. -/
theorem exec (h : Secluded s) (fuel : Nat) {code : Code} (hcode : Layered .plain code) :
    Secluded ((exec fuel code).run s).state := by
  have hcurrent := (exec_ends fuel code s).keeps.toFrame.current
  obtain ⟨hmade, hsealed⟩ := sealed_exec fuel code h.built.current h.closed
  exact ⟨holds_exec_layered alike_imports_plain fuel hcode h.holds,
    ⟨hcurrent.symm ▸ hmade, made_exec fuel code h.built⟩,
    nested_exec fuel code h.built h.nested,
    hcurrent.symm ▸ hsealed⟩

theorem step (h : Secluded s) {fuel : Nat} {n : Node NodeId} (hn : Layered .plain [n])
    (hstep : (Evaluation.step fuel (Evaluation.exec fuel) n).run s = .done () t) : Secluded t := by
  have hexec := h.exec (fuel + 1) hn
  have hsingle : Evaluation.exec (fuel + 1) [n] =
      Evaluation.step fuel (Evaluation.exec fuel) n >>= pure := rfl
  rw [hsingle, Action.bind_pure, hstep] at hexec
  exact hexec

end Secluded

theorem Layered.head {D : Discipline} {n : Node NodeId} {rest : Code} (h : Layered D (n :: rest)) :
    Layered D [n] := by
  cases h with
  | inner h => exact .inner ⟨h.1, trivial⟩
  | importing => exact .importing (.inner trivial)
  | module h => exact .module h (.inner trivial)

theorem Layered.tail {D : Discipline} {n : Node NodeId} {rest : Code} (h : Layered D (n :: rest)) :
    Layered D rest := by
  cases h with
  | inner h => exact .inner h.2
  | importing h => exact h
  | module _ h => exact h

/-- Wherever a run comes to a module, the current namespace has been made and is sealed. -/
theorem sealed_of_module {fuel : Nat} {ways : List Way} {code : Code} {s : Interpreter}
    (hcode : Layered .plain code) (hs : Secluded s) :
    ∀ v ∈ visits fuel ways code s, ∀ m info nodes, v.node = .program m info nodes →
      v.state.current < v.state.spaces.spaces.size ∧ Sealed v.state.current v.state.stock := by
  -- modules stand in code around which the current namespace is sealed; other code has no modules
  refine forall_visits (I := fun _ code s =>
    (Discipline.plain.AllowsCode code ∧ Discipline.plain.Holds s) ∨ (Layered .plain code ∧ Secluded s)) ?visit ?next ?start (.inr ⟨hcode, hs⟩)
  case visit =>
    rintro _ n rest s _ (⟨hcode, -⟩ | ⟨-, hs⟩) m info nodes rfl
    · exact hcode.1.self.elim
    · exact ⟨hs.built.current, hs.closed⟩
  case next =>
    rintro _ n rest s fuel t (⟨hcode, hs⟩ | ⟨hcode, hs⟩) hstep
    · have hends := (alike_step alike_imports_plain fuel hcode.1 s hs).2
      rw [hstep] at hends
      exact .inl ⟨hcode.2, hends.1⟩
    · exact .inr ⟨hcode.tail, hs.step hcode.head hstep⟩
  case start =>
    have plain : ∀ {n : Node NodeId} {s : Interpreter} {fuel : Nat} {start : Start},
        n.All Discipline.plain.node → Discipline.plain.Holds s → start ∈ starts fuel (exec fuel) s n →
        Discipline.plain.AllowsCode start.code ∧ Discipline.plain.Holds start.state := by
      intro n s fuel start hn hs hstart
      obtain ⟨hholds, hallowed, -⟩ :=
        leads_of_mem_starts (fun _ => alike_exec alike_imports_plain fuel) hs hn hstart
      exact ⟨hallowed, hholds⟩
    rintro _ n rest s fuel (⟨hcode, hs⟩ | ⟨hcode, hs⟩) start hstart
    · exact .inl (plain hcode.1 hs hstart)
    · cases hcode with
      | inner h => exact .inl (plain h.1 hs.holds hstart)
      | importing => cases hstart
      | @module m info nodes _ h =>
        obtain rfl := List.mem_singleton.1 hstart
        exact .inr ⟨h, hs.opened info⟩

end Evaluation

/-! ## What is linked -/

namespace Linking

variable {fs : FileSystem} {library : String}

open Evaluation

section Layers

variable {load : Path → Origin → Linking (Program NodeId)} {unit : SourceUnit} {l : Linker}
  (hload : ∀ path origin l, Meets (load path origin) l (fun p _ => Layered .plain p.nodes)
    fun _ _ => True)

include hload

theorem meets_resolve_layered {position : Position} {request : Import} :
    Meets (resolve fs library load unit position request) l
      (fun found _ => ∀ p, found = some p → Layered .plain p.nodes) fun _ _ => True := by
  refine meets_resolve ?alone ?missing ?circle ?known ?fresh
  case alone => exact fun _ _ => nofun
  case missing => exact fun _ _ _ _ _ _ _ _ _ _ => trivial
  case circle => exact fun _ _ _ _ _ _ _ _ => trivial
  case known => exact fun _ _ _ _ _ _ => nofun
  case fresh =>
    intro path origin _ _ _
    refine (hload path origin (connected unit path l)).mono ?_ fun _ _ _ => trivial
    rintro p _ hp _ ⟨⟩
    exact hp

theorem meets_splice_layered {nodes : Code} (hfirst : Scope.ImportsFirst nodes) :
    Meets (splice (resolve fs library load unit) nodes) l (fun code _ => Layered .plain code)
      fun _ _ => True := by
  induction hfirst generalizing l with
  | plain hplain =>
    refine (meets_splice_plain hplain).mono ?_ fun _ _ he => he
    rintro code l' ⟨rfl, -⟩
    exact .inner hplain
  | @importing m request rest _ ih =>
    refine meets_splice_importing ((meets_resolve_layered hload).mono ?_ fun _ _ he => he)
    intro found l₁ hfound id l₂ _
    refine ih.mono ?_ fun _ _ he => he
    intro others _ hothers
    cases found with
    | none => exact .importing hothers
    | some p => exact .module (hfound p rfl) (.importing hothers)

theorem meets_linkText_layered {source : String} :
    Meets (linkText fs library load unit source) l
      (fun p _ => p.info = unit.info ∧ Layered .plain p.nodes) fun _ _ => True := by
  refine meets_linkText (fun p n l₁ hp _ => ?_) fun _ _ _ _ _ => trivial
  refine (meets_splice_layered hload (importsFirst_of_program? hp n)).mono ?_ fun _ _ he => he
  exact fun nodes _ hnodes _ _ => ⟨rfl, hnodes⟩

end Layers

theorem meets_linkFile_layered (fuel : Nat) (path : Path) (origin : Origin) (l : Linker) :
    Meets (linkFile fs library fuel path origin) l
      (fun p _ => p.info.isRoot = true ∧ Layered .plain p.nodes) fun _ _ => True := by
  induction fuel generalizing path origin l with
  | zero => exact trivial
  | succ fuel ih =>
    unfold linkFile
    split
    · exact trivial
    · refine (meets_linkText_layered fun path origin l =>
        (ih path origin l).mono (fun _ _ h => h.2) fun _ _ he => he).mono ?_ fun _ _ he => he
      rintro p _ ⟨hinfo, hnodes⟩
      exact ⟨by rw [hinfo]; rfl, hnodes⟩

/-- **Linked code is layered**, whatever the linker knows already. -/
theorem meets_link_layered (start : Start) (l : Linker) :
    Meets (start.link fs library) l (fun p _ => p.info.isRoot = true ∧ Layered .plain p.nodes)
      fun _ _ => True := by
  cases start with
  | file path =>
    exact Meets.bind ((meets_linkFile_layered (fuelFor fs) path .user l).mono (fun _ _ h => h)
      fun _ _ he => he)
  | text unit source =>
    refine (meets_linkText_layered fun path origin l =>
      (meets_linkFile_layered (fuelFor fs) path origin l).mono (fun _ _ h => h.2)
        fun _ _ he => he).mono ?_ fun _ _ he => he
    rintro p _ ⟨hinfo, hnodes⟩
    exact ⟨by rw [hinfo]; rfl, hnodes⟩

end Linking

/-! ## Sessions -/

namespace Session

open Evaluation

/-- A session that some steps lead to from a fresh one. Between two steps the streams and the files may
change. -/
inductive Arises (config : Config) : Session → Prop
  | new (console : Console) (random : RandomSource) :
    Arises config (Session.new config console random)
  | withConsole {s : Session} (h : Arises config s) (console : Console) :
    Arises config (s.withConsole console)
  | runFile {s : Session} (h : Arises config s) (fs : FileSystem) (written : String)
    (log : FileLog) : Arises config (s.runFile fs written log).session
  | runSource {s : Session} (h : Arises config s) (fs : FileSystem) (source : String)
    (log : FileLog) : Arises config (s.runSource fs source log).session

/-- What holds of a fresh state, and is kept when the streams change and by each step that comes to
linking, holds of the states of all sessions. -/
theorem Arises.invariant_of_finish {config : Config} {I : Interpreter → Prop}
    (hnew : ∀ console random, I (Session.new config console random).interpreter)
    (hconsole : ∀ (s : Interpreter) (console : Console), I s → I { s with console })
    (hfinish : ∀ (s : Session) (fs : FileSystem) (library : String) (start : Linking.Start)
      (root : String) (log : FileLog), I s.interpreter →
        I (s.finish (start.link fs library) root log).session.interpreter)
    {s : Session} (h : Arises config s) : I s.interpreter := by
  induction h with
  | new console random => exact hnew console random
  | withConsole _ console ih => exact hconsole _ console ih
  | runFile _ fs written log ih =>
    unfold Session.runFile
    split
    · exact ih
    split
    · exact ih
    · next path _ => exact hfinish _ fs _ (.file path) path.text log ih
  | runSource _ fs source log ih => exact hfinish _ fs _ (.text (unit fs) source) _ log ih

/-- Of such a step, it is enough to know what becomes of numbers and names, and what a linked program
does. -/
theorem Arises.invariant {config : Config} {I : Interpreter → Prop}
    (hnew : ∀ console random, I (Session.new config console random).interpreter)
    (hconsole : ∀ (s : Interpreter) (console : Console), I s → I { s with console })
    (hnames : ∀ (s : Interpreter) (nextId : NodeId) (scopes : ScopeTable), I s →
      I { s with nextId, scopes })
    (hrun : ∀ (s : Interpreter) (fs : FileSystem) (library : String) (start : Linking.Start)
      (p : Program NodeId) (l l' : Linker), (start.link fs library).run l = .done p l' → I s →
        I ((interpret ampleFuel l'.scopes p).run s).state)
    {s : Session} (h : Arises config s) : I s.interpreter := by
  refine h.invariant_of_finish hnew hconsole fun s fs library start root log hs => ?_
  cases hlink : (start.link fs library).run (s.linker root log) with
  | stopped e l =>
    rw [finish_of_stopped hlink]
    exact hnames _ _ _ hs
  | done p l =>
    rw [finish_of_done hlink]
    split
    · obtain ⟨console, hsession⟩ := ((s.linked l).printProgram_eq p l.log).1
      rw [hsession]
      exact hconsole _ _ (hnames _ _ _ hs)
    · rw [session_runProgram]
      exact hrun _ fs library start p _ l hlink (hnames _ _ _ hs)

theorem secluded_new (config : Config) (console : Console) (random : RandomSource) :
    Secluded (Session.new config console random).interpreter := by
  have hfresh : Fresh (Session.new config console random).interpreter := ⟨rfl, rfl, rfl, rfl, rfl⟩
  have hempty := hfresh.get_eq
  refine ⟨hfresh.holds _, ⟨Nat.zero_lt_one, hfresh.every _⟩, ?_, ?_⟩
  · intro id name child hchild
    rw [hempty] at hchild
    cases hchild
  · refine ⟨fun id name b _ hget => ?_, fun m hm => ?_⟩
    · have hget' : ((Session.new config console random).interpreter.spaces.get id).get? name =
        some b := hget
      rw [hempty] at hget'
      cases hget'
    · cases List.mem_singleton.1 hm

theorem secluded_begun {s : Interpreter} (h : Secluded s) (scopes : ScopeTable)
    (p : Program NodeId) : Secluded (begun scopes p s) :=
  (h.of_eq (t := { s with scopes := s.scopes.extend scopes, depth := 0 }) rfl rfl rfl rfl).opened _

theorem secluded_interpret {s : Interpreter} (h : Secluded s) (fuel : Nat) (scopes : ScopeTable)
    {p : Program NodeId} (hroot : p.info.isRoot = true) (hcode : Layered .plain p.nodes) :
    Secluded ((interpret fuel scopes p).run s).state := by
  have hexec := (secluded_begun h scopes p).exec fuel hcode
  have hframe := (exec_ends fuel p.nodes (begun scopes p s)).keeps.toFrame
  have hbegun : (begun scopes p s).current = s.current := by
    unfold begun opened
    rw [hroot]
    rfl
  rw [run_interpret]
  cases hrun : (exec fuel p.nodes).run (begun scopes p s) with
  | stopped halt t =>
    rw [hrun] at hexec hframe
    exact hexec.of_eq rfl (hframe.current.trans hbegun).symm rfl rfl
  | done a t =>
    rw [hrun] at hexec hframe
    unfold closed
    rw [hroot]
    exact hexec.of_eq rfl (hframe.current.trans hbegun).symm rfl rfl

/-- **The namespace that a session runs in is sealed**, whatever steps it has made. -/
theorem Arises.secluded {config : Config} {s : Session} (h : Arises config s) :
    Secluded s.interpreter := by
  refine h.invariant (secluded_new config) (fun _ _ hs => hs.of_eq rfl rfl rfl rfl)
    (fun _ _ _ hs => hs.of_eq rfl rfl rfl rfl) ?_
  intro s fs library start p l l' hlink hs
  obtain ⟨hroot, hcode⟩ := (meets_link_layered start l).of_done hlink
  exact secluded_interpret hs ampleFuel l'.scopes hroot hcode

/-- **A module cannot touch its importer's bindings.** Whatever steps a session has made, and whatever
is linked and run next: when a module has been run, however it ended, the namespace that was current
binds the same names to the same things, in the same order, and the same of them are public. -/
theorem importer_untouched {config : Config} {s : Session} (hs : Arises config s) {fs : FileSystem}
    {start : Linking.Start} {root : String} {log : FileLog} {p : Program NodeId} {l : Linker}
    (hlink : (start.link fs s.config.library).run (s.linker root log) = .done p l) {fuel : Nat}
    {v : Visit} (hv : v ∈ visited fuel l.scopes p (s.remember l).interpreter) {m : Mark NodeId}
    {info : ProgramInfo} {nodes : Code} (hnode : v.node = .program m info nodes)
    (hroot : info.isRoot = false) :
    v.outcome.state.spaces.get v.state.current = v.state.spaces.get v.state.current := by
  obtain ⟨-, hcode⟩ := (meets_link_layered start (s.linker root log)).of_done hlink
  have hremember : Secluded (s.remember l).interpreter := hs.secluded.of_eq rfl rfl rfl rfl
  obtain ⟨hmade, hsealed⟩ :=
    sealed_of_module hcode (secluded_begun hremember l.scopes p) v hv m info nodes hnode
  exact get_module_of_sealed hnode hroot hmade hsealed

/-! ## A module that runs code of its importer -/

/-- A module that runs the sequence that it finds on the stack. -/
def borrowing : FileSystem where
  workingDirectory := []
  entries := [(["m.twl"], .file "import * from <sequences>\nexec".toUTF8.toList)]

/-- A session that has bound `y` and left a sequence on the stack that binds `y` too. -/
def lender : Session :=
  ((Session.new {} {}).runSource borrowing "{ true let y } false let y" {}).session

/-- Whether a visit runs a module. -/
def runsModule (v : Visit) : Bool :=
  match v.node with
  | .program _ info _ => !info.isRoot
  | _ => false

theorem exists_of_runsModule {v : Visit} (h : runsModule v = true) :
    ∃ m info nodes, v.node = .program m info nodes ∧ info.isRoot = false := by
  unfold runsModule at h
  split at h
  · next m info nodes hnode => exact ⟨m, info, nodes, hnode, by simpa using h⟩
  · cases h

/-- The import of the module, as a text. -/
def borrowed : Linking.Start :=
  .text (unit borrowing) "import \"m.twl\""

/-- The next step of the session as it is linked, and its first visit that runs a module. -/
def firstModule? : Option (Program NodeId × Linker × Visit) :=
  match (borrowed.link borrowing lender.config.library).run (lender.linker "" {}) with
  | .done p l =>
    ((visited 10 l.scopes p (lender.remember l).interpreter).find? runsModule).map fun v => (p, l, v)
  | .stopped _ _ => none

theorem firstModule?_eq_some {p : Program NodeId} {l : Linker} {v : Visit}
    (h : firstModule? = some (p, l, v)) :
    (borrowed.link borrowing lender.config.library).run (lender.linker "" {}) = .done p l ∧
      v ∈ visited 10 l.scopes p (lender.remember l).interpreter ∧ runsModule v = true := by
  unfold firstModule? at h
  split at h
  · next hlink =>
    obtain ⟨v, hfind, heq⟩ := Option.map_eq_some_iff.1 h
    cases heq
    exact ⟨hlink, List.mem_of_find?_eq_some hfind, List.find?_some hfind⟩
  · cases h

/-- The sequence binds `y` for the module and not for the session that has made it. -/
theorem importer_untouched_borrowed : ∃ p l v m info nodes, Arises {} lender ∧
    (borrowed.link borrowing lender.config.library).run (lender.linker "" {}) = .done p l ∧
    v ∈ visited 10 l.scopes p (lender.remember l).interpreter ∧
    v.node = .program m info nodes ∧ info.isRoot = false ∧
    (v.state.spaces.get v.state.current).names = ["y"] ∧
    (v.outcome.state.spaces.get v.state.spaces.fresh.1).isDefined "y" = true ∧
    v.outcome.state.spaces.get v.state.current = v.state.spaces.get v.state.current := by
  have hlender : Arises {} lender := .runSource (.new {} {}) borrowing _ {}
  have hcheck : (firstModule?.any fun (_, _, v) =>
      (v.state.spaces.get v.state.current).names == ["y"] &&
        (v.outcome.state.spaces.get v.state.spaces.fresh.1).isDefined "y") = true := by
    decide +kernel
  cases hfirst : firstModule? with
  | none => rw [hfirst] at hcheck; cases hcheck
  | some found =>
    obtain ⟨p, l, v⟩ := found
    obtain ⟨hlink, hv, hruns⟩ := firstModule?_eq_some hfirst
    obtain ⟨m, info, nodes, hnode, hroot⟩ := exists_of_runsModule hruns
    rw [hfirst, Option.any_some, Bool.and_eq_true, beq_iff_eq] at hcheck
    exact ⟨p, l, v, m, info, nodes, hlender, hlink, hv, hnode, hroot, hcheck.1, hcheck.2,
      importer_untouched hlender hlink hv hnode hroot⟩

end Session

end Catena

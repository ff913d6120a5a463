import Catena.Proofs.Evaluation.Offering
import Catena.Proofs.Tree.Heads

/-!
# Imports bind what they name and nothing else

How a namespace comes from another one by binding some names privately is said once (`Namespace.Binds`):
which names have a new binding, that all others have the old one, what is still public, and that the
names that were there keep their places. A definition binds one name, and what one step binds goes over
what the step before it has bound. From this it is read off what each form of import binds, in which
namespace, and when an import fails; then it changes nothing (`imports_exact`). What this takes of a
state is what every state has that a session comes to (`Session.Arises.importsExactly`).
-/

namespace Catena

/-! ## Bindings that are added -/

/-- The second namespace comes from the first by binding the names that are `taken`, privately. -/
structure Namespace.Binds (n n' : Namespace) (taken : String → Option Binding) : Prop where
  get? : ∀ x, n'.get? x = (taken x).or (n.get? x)
  published : n'.published = n.published.filter fun x => (taken x).isNone
  /-- Names that were there before come first, in their order. -/
  names : n.names <+: n'.names

namespace Namespace.Binds

variable {n n' n'' : Namespace} {taken taken' : String → Option Binding}

theorem refl (n : Namespace) : n.Binds n fun _ => none where
  get? _ := rfl
  published := (List.filter_eq_self.2 fun _ _ => rfl).symm
  names := List.prefix_refl _

theorem define (n : Namespace) (name : String) (b : Binding) :
    n.Binds (n.define name b false) fun x => if x = name then some b else none where
  get? x := by
    rw [get?_define]
    by_cases h : x = name <;> simp [h]
  published := by
    refine List.filter_congr fun x _ => ?_
    by_cases h : x = name <;> simp [h]
  names := by
    rw [names_define]
    split
    · exact List.prefix_refl _
    · exact List.prefix_append _ _

/-- What is bound later counts. -/
theorem trans (h : n.Binds n' taken) (k : n'.Binds n'' taken') :
    n.Binds n'' fun x => (taken' x).or (taken x) where
  get? x := by rw [k.get?, h.get?, Option.or_assoc]
  published := by
    rw [k.published, h.published, List.filter_filter]
    refine List.filter_congr fun x _ => ?_
    cases taken' x <;> simp
  names := h.names.trans k.names

theorem congr (h : n.Binds n' taken) (hsame : ∀ x, taken x = taken' x) : n.Binds n' taken' :=
  funext hsame ▸ h

end Namespace.Binds

/-- How a namespace comes to be mounted in another one: it has been before, or it is made and bound. -/
inductive Namespaces.Mounts (ns : Namespaces) (id : NamespaceId) (name : String)
    (child : NamespaceId) : Namespaces → Prop
  | there (h : (ns.get id).get? name = some (.child child)) : Mounts ns id name child ns
  | made {ns' : Namespaces} (hfree : (ns.get id).get? name = none) (hnew : child = ns.spaces.size)
    (hempty : ns'.get child = {})
    (hbinds : (ns.get id).Binds (ns'.get id) fun x => if x = name then some (.child child) else none)
    (hothers : ∀ other, other ≠ id → ns'.get other = ns.get other) : Mounts ns id name child ns'

theorem Namespaces.mounts_of_mount {ns ns' : Namespaces} {id child : NamespaceId} {name : String}
    (hid : id < ns.spaces.size) (h : ns.mount id name = .ok (child, ns')) :
    Mounts ns id name child ns' := by
  rcases mount_cases h with ⟨hchild, rfl⟩ | ⟨hfree, rfl, rfl⟩
  · exact .there hchild
  · have hid' : id < ns.fresh.2.spaces.size := by
      rw [size_fresh]
      exact Nat.lt_succ_of_lt hid
    refine .made hfree rfl ?_ ?_ fun other hother => ?_
    · rw [get_define_ne _ (Nat.ne_of_gt hid), get_fresh]
      simp [get]
    · rw [get_define_self _ hid', get_fresh]
      exact .define _ name _
    · rw [get_define_ne _ hother, get_fresh]

/-- What is mounted is another namespace, which has been made. -/
theorem Interpreter.Ready.of_mount {s : Interpreter} (hs : s.Ready) {name : String}
    {child : NamespaceId} {spaces : Namespaces}
    (h : s.spaces.mount s.current name = .ok (child, spaces)) :
    child < spaces.spaces.size ∧ child ≠ s.current := by
  obtain ⟨hnested, hchild⟩ := hs.nested.mount hs.current h
  obtain ⟨hbelow, hmade⟩ := hnested _ _ _ hchild
  exact ⟨hmade, Nat.ne_of_gt hbelow⟩

/-- Mounting fails exactly if a function has the name. -/
theorem Namespaces.mount_eq_error_iff {ns : Namespaces} {id : NamespaceId} {name : String} :
    (∃ e, ns.mount id name = .error e) ↔ ∃ f, (ns.get id).get? name = some (.function f) := by
  unfold mount Namespace.isDefined OrderedMap.contains Namespace.child
  show _ ↔ ∃ f, (ns.get id).bindings.get? name = _
  unfold Namespace.get?
  cases (ns.get id).bindings.get? name with
  | none => simp
  | some b => cases b <;> simp [Except.map]

namespace Evaluation

/-! ## Functions that are bound -/

/-- What names are bound to that are `given` functions. -/
def bindingsOf (names : List String) (given : String → Option Function) (x : String) :
    Option Binding :=
  if x ∈ names then (given x).map .function else none

theorem bindingsOf_cons (name : String) (names : List String) (given : String → Option Function)
    (x : String) : bindingsOf (name :: names) given x =
      if x = name then (given name).map .function else bindingsOf names given x := by
  unfold bindingsOf
  by_cases h : x = name
  · subst h
    simp
  · simp [h]

theorem bindingsOf_eq {names names' : List String} (hnames : ∀ x, x ∈ names ↔ x ∈ names')
    (given : String → Option Function) (x : String) :
    bindingsOf names given x = bindingsOf names' given x := by
  unfold bindingsOf
  by_cases h : x ∈ names
  · rw [if_pos h, if_pos ((hnames x).1 h)]
  · rw [if_neg h, if_neg (mt (hnames x).2 h)]

section Bind

variable {loaders : LoaderStack} {key : String} {space : NamespaceId}

/-- Where each new name belongs to one function, these names are bound to these functions. -/
theorem binds_bindFunctions (given : String → Option Function) {names : List (String × String)}
    (hgiven : ∀ name ∈ names, loaders.function? key name.1 = given name.2) {spaces : Namespaces}
    (hspace : space < spaces.spaces.size) :
    (spaces.get space).Binds ((bindFunctions loaders key space names spaces).get space)
      (bindingsOf (names.map Prod.snd) given) := by
  induction names generalizing spaces with
  | nil => exact (Namespace.Binds.refl _).congr fun x => (if_neg List.not_mem_nil).symm
  | cons name rest ih =>
    obtain ⟨hfirst, hrest⟩ := List.forall_mem_cons.1 hgiven
    rw [bindFunctions_cons, hfirst]
    cases hf : given name.2 with
    | none =>
      refine (ih hrest hspace).congr fun x => ?_
      rw [List.map_cons, bindingsOf_cons]
      split
      · next h => rw [h, bindingsOf, hf, Option.map_none, ite_self]
      · rfl
    | some f =>
      have hspace' : space < (spaces.define space name.2 (.function f) false).spaces.size := by
        rw [Namespaces.size_define]
        exact hspace
      have hlater := ih hrest hspace'
      rw [spaces.get_define_self hspace] at hlater
      refine ((Namespace.Binds.define _ name.2 _).trans hlater).congr fun x => ?_
      rw [List.map_cons, bindingsOf_cons]
      split
      · next h =>
        rw [h, bindingsOf, hf]
        split <;> rfl
      · exact Option.or_none

end Bind

/-! ## What an import does -/

/-- The reasons for which imports fail. -/
def Rejects (s : Interpreter) (request : Import) : Prop :=
  s.loaders.has request.loaderKey = false ∨
  (request.isWhole = false ∧ request.isStar = false ∧
    ∃ target ∈ request.targets, target ∉ s.loaders.names request.loaderKey) ∨
  (request.isWhole = true ∧
    ∃ f, (s.spaces.get s.current).get? request.mountName = some (.function f))

/-- What an import may do to a state, given how it ends. -/
structure ImportsExactly (s : Interpreter) (request : Import)
    (o : Outcome Interpreter Halt Unit) : Prop where
  /-- It changes nothing if it fails, and only namespaces if it succeeds. -/
  ends : (∃ d, o = .stopped (.failed d) s) ∨ ∃ spaces, o = .done () { s with spaces }
  fails : (∃ halt t, o = .stopped halt t) ↔ Rejects s request
  /-- Every public name stands for a function. -/
  served : ∀ name ∈ s.loaders.names request.loaderKey,
    ∃ f, s.loaders.function? request.loaderKey name = some f
  /-- Imported as a whole: the namespace that is mounted takes every name. -/
  whole : request.isWhole = true → ∀ t, o = .done () t → ∃ child base,
    s.spaces.Mounts s.current request.mountName child base ∧ child ≠ s.current ∧
    (base.get child).Binds (t.spaces.get child)
      (bindingsOf (s.loaders.names request.loaderKey) (s.loaders.function? request.loaderKey)) ∧
    ∀ other, other ≠ child → t.spaces.get other = base.get other
  /-- Otherwise only the current namespace changes. -/
  others : request.isWhole = false → ∀ t, o = .done () t →
    ∀ other, other ≠ s.current → t.spaces.get other = s.spaces.get other
  star : request.isStar = true → ∀ t, o = .done () t →
    (s.spaces.get s.current).Binds (t.spaces.get s.current)
      (bindingsOf (s.loaders.names request.loaderKey) (s.loaders.function? request.loaderKey))
  selected : request.isWhole = false → request.isStar = false → request.rename = none →
    ∀ t, o = .done () t → (s.spaces.get s.current).Binds (t.spaces.get s.current)
      (bindingsOf request.targets (s.loaders.function? request.loaderKey))
  renamed : ∀ other, request.rename = some other → ∃ target, request.targets = [target] ∧
    ∀ t, o = .done () t → (s.spaces.get s.current).Binds (t.spaces.get s.current)
      (bindingsOf [other] fun _ => s.loaders.function? request.loaderKey target)

section Imported

variable {s : Interpreter} {request : Import} {spaces : Namespaces}

theorem imported_eq_error_iff : (∃ e, imported s request = .error e) ↔ Rejects s request := by
  unfold Rejects
  rw [← Namespaces.mount_eq_error_iff]
  constructor
  · rintro ⟨e, h⟩
    obtain ⟨hlacks, -⟩ | ⟨hwhole, hmount⟩ | ⟨hwhole, hstar, target, htarget, hmissing, -⟩ :=
      imported_error_cases h
    · exact .inl hlacks
    · exact .inr (.inr ⟨hwhole, e, hmount⟩)
    · exact .inr (.inl ⟨hwhole, hstar, target, htarget, hmissing⟩)
  · intro hrejects
    cases himported : imported s request with
    | error e => exact ⟨e, rfl⟩
    | ok spaces =>
      obtain ⟨hhas, hdone⟩ := imported_cases himported
      obtain hlacks | ⟨hpart, hstar, target, htarget, hmissing⟩ | ⟨hwhole, e, herror⟩ := hrejects
      · cases hhas.symm.trans hlacks
      · obtain ⟨hwhole, -⟩ | ⟨-, hpublic, -⟩ := hdone
        · cases hwhole.symm.trans hpart
        · exact absurd (hpublic hstar target htarget) hmissing
      · obtain ⟨-, child, base, hmount, -⟩ | ⟨hpart, -⟩ := hdone
        · cases hmount.symm.trans herror
        · cases hwhole.symm.trans hpart

/-- The functions of the names that an import takes, under the names that it gives. -/
theorem binds_taken (hcurrent : s.current < s.spaces.spaces.size)
    (h : imported s request = .ok spaces) (hwhole : request.isWhole = false)
    {names : List String} {given : String → Option Function}
    (hgiven : ∀ name ∈ (s.loaders.names request.loaderKey).filter request.admits,
      s.loaders.function? request.loaderKey name = given (request.rename.getD name))
    (hnames : ∀ x, (∃ name ∈ s.loaders.names request.loaderKey, request.admits name = true ∧
      request.rename.getD name = x) ↔ x ∈ names) :
    (s.spaces.get s.current).Binds (spaces.get s.current) (bindingsOf names given) := by
  rw [(imported_part h hwhole).2]
  refine (binds_bindFunctions given ?_ hcurrent).congr (bindingsOf_eq (fun x => ?_) _)
  · intro pair hpair
    obtain ⟨name, hname, rfl⟩ := List.mem_map.1 hpair
    exact hgiven name hname
  · rw [← hnames, List.map_map]
    simp only [List.mem_map, List.mem_filter, Function.comp_apply, and_assoc]

theorem admits_of_not_isStar (hstar : request.isStar = false) {name : String} :
    request.admits name = true ↔ name ∈ request.targets := by
  rw [Import.admits, hstar, Bool.false_or, List.contains_iff_mem]

theorem binds_whole (hs : s.Ready) (h : imported s request = .ok spaces)
    (hwhole : request.isWhole = true) : ∃ child base,
      s.spaces.Mounts s.current request.mountName child base ∧ child ≠ s.current ∧
      (base.get child).Binds (spaces.get child)
        (bindingsOf (s.loaders.names request.loaderKey)
          (s.loaders.function? request.loaderKey)) ∧
      ∀ other, other ≠ child → spaces.get other = base.get other := by
  obtain ⟨-, ⟨-, child, base, hmount, rfl⟩ | ⟨hnot, -⟩⟩ := imported_cases h
  · obtain ⟨hmade, hother⟩ := hs.of_mount hmount
    refine ⟨child, base, Namespaces.mounts_of_mount hs.current hmount, hother, ?_,
      fun other hother => get_bindFunctions_ne _ _ hother _ _⟩
    refine (binds_bindFunctions (s.loaders.function? request.loaderKey) ?_
      hmade).congr (bindingsOf_eq (fun x => ?_) _)
    · intro pair hpair
      obtain ⟨name, -, rfl⟩ := List.mem_map.1 hpair
      rfl
    · rw [List.map_map]
      exact Iff.of_eq (congrArg (x ∈ ·) (List.map_id _))
  · cases hwhole.symm.trans hnot

theorem get_imported_ne (h : imported s request = .ok spaces) (hwhole : request.isWhole = false)
    {other : NamespaceId} (hother : other ≠ s.current) :
    spaces.get other = s.spaces.get other := by
  rw [(imported_part h hwhole).2]
  exact get_bindFunctions_ne _ _ hother _ _

theorem binds_star (hs : s.Ready) {r : Tree.Request} (h : imported s r.import = .ok spaces)
    (hstar : r.import.isStar = true) :
    (s.spaces.get s.current).Binds (spaces.get s.current)
      (bindingsOf (s.loaders.names r.import.loaderKey)
        (s.loaders.function? r.import.loaderKey)) := by
  have hrename := r.rename_of_isStar hstar
  refine binds_taken hs.current h (not_isWhole_of_isStar hstar) (fun name _ => ?_) fun x => ?_
  · rw [hrename]
    rfl
  · rw [hrename]
    simp [Import.admits, hstar]

theorem binds_selected (hs : s.Ready) (h : imported s request = .ok spaces)
    (hwhole : request.isWhole = false) (hstar : request.isStar = false)
    (hrename : request.rename = none) :
    (s.spaces.get s.current).Binds (spaces.get s.current)
      (bindingsOf request.targets (s.loaders.function? request.loaderKey)) := by
  refine binds_taken hs.current h hwhole (fun name _ => ?_) fun x => ?_
  · rw [hrename]
    rfl
  · rw [hrename]
    simp only [admits_of_not_isStar hstar, Option.getD_none, exists_eq_right_right]
    exact and_iff_right_of_imp ((imported_part h hwhole).1 hstar x)

theorem binds_renamed (hs : s.Ready) (h : imported s request = .ok spaces) {target other : String}
    (htargets : request.targets = [target]) (hne : target ≠ starTarget)
    (hrename : request.rename = some other) :
    (s.spaces.get s.current).Binds (spaces.get s.current)
      (bindingsOf [other] fun _ => s.loaders.function? request.loaderKey target) := by
  have hwhole : request.isWhole = false := by
    rw [Import.isWhole, htargets]
    rfl
  have hstar : request.isStar = false := by
    rw [Import.isStar, htargets, beq_eq_false_iff_ne]
    exact fun h => hne (List.cons.inj h).1
  have hadmits : ∀ name, request.admits name = true ↔ name = target := by
    intro name
    rw [admits_of_not_isStar hstar, htargets, List.mem_singleton]
  have hpublic : target ∈ s.loaders.names request.loaderKey :=
    (imported_part h hwhole).1 hstar target (htargets ▸ List.mem_singleton_self target)
  refine binds_taken hs.current h hwhole (fun name hname => ?_) fun x => ?_
  · rw [(hadmits name).1 (List.mem_filter.1 hname).2]
  · rw [hrename, List.mem_singleton]
    simp only [hadmits, Option.getD_some]
    constructor
    · rintro ⟨_, -, -, rfl⟩
      rfl
    · rintro rfl
      exact ⟨target, hpublic, rfl, rfl⟩

theorem ImportsExactly.of_rejects (hs : s.Ready) {r : Tree.Request} (h : Rejects s r.import)
    (d : Diagnostic) : ImportsExactly s r.import (.stopped (.failed d) s) where
  ends := .inl ⟨d, rfl⟩
  fails := iff_of_true ⟨_, _, rfl⟩ h
  served _ := LoaderStack.exists_of_mem_names hs.provides
  whole _ := nofun
  others _ := nofun
  star _ := nofun
  selected _ _ _ := nofun
  renamed _ hother :=
    (r.targets_of_rename hother).imp fun _ htarget => ⟨htarget.1, fun _ => nofun⟩

/-- What becomes of the diagnostic does not matter. -/
theorem ImportsExactly.onFailure (hs : s.Ready) {r : Tree.Request} {m : Eval Unit}
    (h : ImportsExactly s r.import (m.run s)) (f : Option String → Diagnostic → Diagnostic) :
    ImportsExactly s r.import ((Eval.onFailure f m).run s) := by
  rcases h.ends with ⟨d, hd⟩ | ⟨spaces, hdone⟩
  · have hrun : (Eval.onFailure f m).run s = .stopped (.failed (f s.file d)) s := by
      simp only [Eval.onFailure, hd]
    rw [hrun]
    exact .of_rejects hs (h.fails.1 ⟨_, _, hd⟩) _
  · have hrun : (Eval.onFailure f m).run s = m.run s := by
      simp only [Eval.onFailure, hdone]
    rw [hrun]
    exact h

/-- **An import that the grammar allows does exactly what it says.** -/
theorem importsExactly (hs : s.Ready) (r : Tree.Request) :
    ImportsExactly s r.import ((importNames r.import).run s) := by
  rw [run_importNames]
  have herror : (∃ e, imported s r.import = .error e) ↔ Rejects s r.import := imported_eq_error_iff
  cases himported : imported s r.import with
  | error e =>
    rw [himported] at herror
    exact .of_rejects hs (herror.1 ⟨e, rfl⟩) _
  | ok spaces =>
    rw [himported] at herror
    refine
      { ends := .inr ⟨_, rfl⟩
        fails := iff_of_false (by rintro ⟨_, _, ⟨⟩⟩) (mt herror.2 (by rintro ⟨_, ⟨⟩⟩))
        served := fun _ => LoaderStack.exists_of_mem_names hs.provides
        whole := ?_
        others := ?_
        star := ?_
        selected := ?_
        renamed := ?_ }
    · rintro hwhole _ ⟨⟩
      exact binds_whole hs himported hwhole
    · rintro hwhole _ ⟨⟩ other hother
      exact get_imported_ne himported hwhole hother
    · rintro hstar _ ⟨⟩
      exact binds_star hs himported hstar
    · rintro hwhole hstar hrename _ ⟨⟩
      exact binds_selected hs himported hwhole hstar hrename
    · intro other hrename
      obtain ⟨target, htargets, hne⟩ := r.targets_of_rename hrename
      refine ⟨target, htargets, ?_⟩
      rintro _ ⟨⟩
      exact binds_renamed hs himported htargets hne hrename

end Imported

theorem Fresh.ready {s : Interpreter} (hs : Fresh s) : s.Ready := by
  refine ⟨?_, hs.nested, fun l hl => (hs.offering.loaders l hl).provides⟩
  rw [hs.current, hs.spaces]
  exact Nat.zero_lt_one

/-- **Imports bind what they name and nothing else.** Take a text that can be read and an import in it,
however deep, and evaluate it in a state whose namespaces and loaders are in order. It fails exactly if
no loader has its key, a name that it selects is not public there, or what it would mount has the name
of a function; then nothing changes. Otherwise nothing changes but namespaces: the one that is mounted
takes all public names, or else the current one takes privately all of them, or those that are selected,
or a single one under the new name. All other bindings and the order of the names stay. -/
theorem imports_exact {name source : String} {p : Program Unit}
    (hread : Tree.ofSource name source = .ok p) :
    Node.AllIn (fun n => ∀ mark request, n = .importing mark request →
      ∀ (k : NodeId) (limit : Nat) (run : Code → Eval Unit) (s : Interpreter), s.Ready →
        ImportsExactly s request ((step limit run (n.number k).1).run s)) p.nodes := by
  obtain ⟨scanned, -, hrequested⟩ := Tree.allIn_requested_of_ofSource hread
  refine hrequested.mono fun n hn => ?_
  rintro mark request rfl k limit run s hs
  obtain ⟨r, -, rfl⟩ := hn mark request rfl
  rw [Node.number, step, node]
  exact (importsExactly hs r).onFailure hs _

/-- An import of one name under another one. -/
def saying : String :=
  "import println from <io> as say"

/-- Whether the nodes are this import. -/
def isSaying : List (Node Unit) → Bool
  | [.importing _ ⟨source, targets, rename⟩] =>
    source == "io" && targets == ["println"] && rename == some "say"
  | _ => false

/-- The new name is bound, and the old one is not. -/
theorem imports_exact_saying :
    ∃ (p : Program Unit) (n : Node Unit) (f : Function) (t : Interpreter),
      Tree.ofSource "main" saying = .ok p ∧ p.nodes = [n] ∧
      (step 0 (exec 0) (n.number 0).1).run (.withNatives {}) = .done () t ∧
      (t.spaces.get 0).get? "say" = some (.function f) ∧
      (t.spaces.get 0).get? "println" = none := by
  have hany : ((Tree.ofSource "main" saying).toOption.any fun p => isSaying p.nodes) = true := by
    decide +kernel
  obtain ⟨p, hread, hcheck⟩ := Tree.exists_of_any_ofSource hany
  have himports := imports_exact hread
  unfold isSaying at hcheck
  split at hcheck
  · next mark source targets rename hnodes =>
    simp only [Bool.and_eq_true, beq_iff_eq] at hcheck
    obtain ⟨⟨rfl, rfl⟩, rfl⟩ := hcheck
    rw [hnodes] at himports
    have hexact := himports.1 mark _ rfl 0 0 (exec 0) (.withNatives {})
      (Fresh.withNatives {}).ready
    have hpublic : "println" ∈ (Interpreter.withNatives {}).loaders.names "io" := by decide
    have haccepted : ¬Rejects (.withNatives {}) ⟨"io", ["println"], some "say"⟩ := by
      rintro (hlacks | ⟨-, -, target, htarget, hmissing⟩ | ⟨hwhole, -⟩)
      · exact absurd hlacks (by decide)
      · rw [List.mem_singleton.1 htarget] at hmissing
        exact hmissing hpublic
      · cases hwhole
    obtain ⟨f, hf⟩ := hexact.served "println" hpublic
    obtain ⟨d, hd⟩ | ⟨spaces, hdone⟩ := hexact.ends
    · exact absurd (hexact.fails.1 ⟨_, _, hd⟩) haccepted
    · obtain ⟨target, htargets, hbinds⟩ := hexact.renamed "say" rfl
      cases htargets
      refine ⟨p, _, f, _, hread, hnodes, hdone, ?_, (hbinds _ hdone).get? "println"⟩
      refine ((hbinds _ hdone).get? "say").trans ?_
      rw [bindingsOf, if_pos (List.mem_singleton_self _), hf]
      rfl
  · cases hcheck

end Evaluation

open Evaluation in
/-- **Whatever a session has run, the imports of its next run bind what they name and nothing else.**
All imports of a text are requests of the grammar (`Tree.allIn_requested_of_ofSource`). -/
theorem Session.Arises.importsExactly {config : Config} {s : Session} (hs : Arises config s)
    {l : Linker} {p : Program NodeId} {fuel : Nat} {v : Visit}
    (hv : v ∈ visited fuel l.scopes p (s.remember l).interpreter) {m : Mark NodeId}
    {r : Tree.Request} (hnode : v.node = .importing m r.import) :
    ImportsExactly v.state r.import v.outcome := by
  have hready := hs.ready_visited l p fuel v hv
  unfold Visit.outcome step
  rw [hnode, node]
  exact (Evaluation.importsExactly hready r).onFailure hready _

end Catena

import Catena.Loader.Instances
import Catena.Proofs.Loader
import Mathlib.Data.List.Nodup

/-!
# What is listed is found

A loader lists a name exactly if it has a function under it: a native one, or one that a module
exports. So the names that loaders list together are those that one of them has a function for, and the
newest of these gives it (`LoaderStack.names_eq_listing`, `LoaderStack.function?_eq_some_iff`).

The functions that loaders have made are those that they would make again (`Provider.Sound`). So what
has been asked before does not matter (`ProviderStack.lookup_listed`).
-/

namespace Catena

/-! ## The exports of a module -/

namespace Namespace

/-- A copy that has some public members of a namespace, each listed once. -/
structure CopyOf (n copy : Namespace) : Prop where
  nodup : copy.published.Nodup
  bound : ∀ name ∈ copy.published, name ∈ n.published ∧
    ∃ b, copy.get? name = some b ∧ n.get? name = some b

theorem nodup_published_define {n : Namespace} (h : n.published.Nodup) (name : String) (b : Binding) :
    (n.define name b true).published.Nodup := by
  unfold define
  simp only [Bool.not_true, Bool.false_eq_true, if_false]
  split
  · exact h
  · next hnew =>
    refine List.nodup_append.2 ⟨h, List.nodup_singleton name, fun a ha c hc => ?_⟩
    rw [List.mem_singleton.1 hc]
    rintro rfl
    exact hnew (List.contains_iff_mem.2 ha)

theorem CopyOf.publish {n copy : Namespace} (h : CopyOf n copy) {name : String}
    (hname : name ∈ n.published) : CopyOf n (n.publish copy name) := by
  unfold Namespace.publish
  split
  · next b hb =>
    refine ⟨nodup_published_define h.nodup name b, fun name' hname' => ?_⟩
    rw [get?_define]
    by_cases heq : name' = name
    · subst heq
      exact ⟨hname, b, by simp, hb⟩
    · rw [if_neg (by simpa using heq)]
      exact h.bound name' ((mem_published_define.1 hname').resolve_left heq)
  · exact h

theorem copyOf_exported (n : Namespace) : CopyOf n n.exported := by
  have hfold : ∀ (names : List String) (copy : Namespace), (∀ name ∈ names, name ∈ n.published) →
      CopyOf n copy → CopyOf n (names.foldl n.publish copy) := by
    intro names
    induction names with
    | nil => exact fun _ _ h => h
    | cons name rest ih =>
      intro copy hnames h
      obtain ⟨hname, hrest⟩ := List.forall_mem_cons.1 hnames
      exact ih _ hrest (h.publish hname)
  rw [exported_eq]
  exact hfold n.published {} (fun _ => id) ⟨List.nodup_nil, by simp⟩

end Namespace

/-- The exports of a module are the public members of a namespace, and all of them are functions. -/
def Module.ExportsFunctions (m : Module) : Prop :=
  ∃ n : Namespace, m.exports = n.exported ∧
    ∀ name ∈ n.published, ∀ child, n.get? name ≠ some (.child child)

namespace Module.ExportsFunctions

variable {m : Module}

theorem nodup (h : m.ExportsFunctions) : m.exports.published.Nodup := by
  obtain ⟨n, hn, -⟩ := h
  rw [hn]
  exact n.copyOf_exported.nodup

theorem mem_published_iff (h : m.ExportsFunctions) {name : String} :
    name ∈ m.exports.published ↔ (m.exports.function? name).isSome := by
  obtain ⟨n, hn, hfunctions⟩ := h
  rw [hn]
  constructor
  · intro hname
    obtain ⟨hpublic, b, hb, hb'⟩ := n.copyOf_exported.bound name hname
    cases b with
    | function f => rw [Namespace.function?_eq_some_iff.2 hb, Option.isSome_some]
    | child id => exact absurd hb' (hfunctions name hpublic id)
  · intro hf
    obtain ⟨f, hf⟩ := Option.isSome_iff_exists.1 hf
    refine Namespace.mem_published_exported ?_
    rw [Namespace.function?_eq_some_iff.1 hf, Option.isSome_some]

end Module.ExportsFunctions

/-! ## A loader -/

namespace Loader

/-- A loader of native functions, or of a module that exports functions. -/
def ServesFunctions : Loader → Prop
  | natives => True
  | module m => m.ExportsFunctions

variable {l : Loader} {space name : String}

theorem nodup_members (space : String) : ((Native.members space).map (·.entry.name)).Nodup := by
  have hall : (Native.all.map fun native => (native.entry.home, native.entry.name)).Nodup := by
    decide
  have hmembers : ((Native.members space).map fun native =>
      (native.entry.home, native.entry.name)).Nodup :=
    hall.sublist (List.filter_sublist.map _)
  have hhome : ((Native.members space).map fun native => (native.entry.home, native.entry.name)) =
      ((Native.members space).map (·.entry.name)).map (space, ·) := by
    rw [List.map_map]
    refine List.map_congr_left fun native hnative => ?_
    rw [← eq_of_beq (List.mem_filter.1 hnative).2]
    rfl
  rw [hhome] at hmembers
  exact hmembers.of_map _

theorem ServesFunctions.nodup (h : l.ServesFunctions) (space : String) : (l.names space).Nodup := by
  cases l with
  | natives => exact nodup_members space
  | module m =>
    unfold names
    dsimp only
    split
    · exact Module.ExportsFunctions.nodup h
    · exact List.nodup_nil

/-- **A loader lists the names that it has functions for.** -/
theorem ServesFunctions.mem_names_iff (h : l.ServesFunctions) :
    name ∈ l.names space ↔ l.contains space name = true := by
  cases l with
  | natives =>
    refine ⟨fun hname => ?_, lists_natives space name⟩
    obtain ⟨native, hnative, rfl⟩ := List.mem_map.1 hname
    obtain ⟨hmem, hhome⟩ := List.mem_filter.1 hnative
    unfold contains function?
    rw [Option.isSome_map, Native.find?, List.find?_isSome]
    exact ⟨native, hmem, by simp [hhome]⟩
  | module m =>
    unfold names contains function?
    dsimp only
    split
    · exact Module.ExportsFunctions.mem_published_iff h
    · simp

/-- A loader has functions under keys that it knows only. -/
theorem contains_of_not_has (h : l.has space = false) : l.contains space name = false := by
  unfold contains
  cases hf : l.function? space name with
  | none => rfl
  | some f =>
    rw [has_of_function? hf] at h
    cases h

theorem names_of_not_has (h : l.has space = false) : l.names space = [] := by
  cases l with
  | natives => simpa [has, names] using h
  | module m =>
    have hkey : ¬(m.key == space) = true := by simpa [has] using h
    simp [names, hkey]

end Loader

/-! ## Loaders on top of each other -/

namespace LoaderStack

/-- The names that loaders list, those of newer ones first and each once. -/
def listing (space : String) : List Loader → List String
  | [] => []
  | l :: older => l.names space ++ (listing space older).filter (· ∉ l.names space)

theorem union_cons (names : List String) (name : String) (more : List String) :
    union names (name :: more) =
      union (if names.contains name then names else names ++ [name]) more := rfl

/-- What is added keeps its order. -/
theorem union_eq {names more : List String} (h : more.Nodup) :
    union names more = names ++ more.filter (· ∉ names) := by
  induction more generalizing names with
  | nil => simp [union]
  | cons name rest ih =>
    obtain ⟨hname, hrest⟩ := List.nodup_cons.1 h
    rw [union_cons, ih hrest]
    by_cases hmem : name ∈ names
    · rw [if_pos (List.contains_iff_mem.2 hmem), List.filter_cons_of_neg (by simpa using hmem)]
    · rw [if_neg (mt List.contains_iff_mem.1 hmem), List.filter_cons_of_pos (by simpa using hmem),
        List.append_assoc]
      congr 1
      rw [List.singleton_append, List.cons.injEq]
      refine ⟨rfl, List.filter_congr fun other hother => ?_⟩
      have hne : other ≠ name := fun heq => hname (heq ▸ hother)
      simp [hne]

theorem foldl_names {loaders : List Loader} (h : ∀ l ∈ loaders, l.ServesFunctions) (space : String)
    (names : List String) :
    loaders.foldl (fun names l => if l.has space then union names (l.names space) else names) names =
      names ++ (listing space loaders).filter (· ∉ names) := by
  induction loaders generalizing names with
  | nil => simp [listing]
  | cons l older ih =>
    obtain ⟨hl, holder⟩ := List.forall_mem_cons.1 h
    have hstep : (if l.has space then union names (l.names space) else names) =
        names ++ (l.names space).filter (· ∉ names) := by
      by_cases hhas : l.has space = true
      · rw [if_pos hhas, union_eq (hl.nodup space)]
      · rw [if_neg hhas, Loader.names_of_not_has (Bool.not_eq_true _ ▸ hhas)]
        simp
    rw [List.foldl_cons, hstep, ih holder, listing, List.filter_append, List.append_assoc,
      List.filter_filter]
    congr 2
    refine List.filter_congr fun name _ => ?_
    by_cases hname : name ∈ names <;> simp [hname]

/-- **The names of newer loaders come first**, in their own order. -/
theorem names_eq_listing {s : LoaderStack} (h : ∀ l ∈ s.loaders, l.ServesFunctions) (space : String) :
    s.names space = listing space s.loaders := by
  rw [names, foldl_names h]
  simp

theorem nodup_listing {loaders : List Loader} (h : ∀ l ∈ loaders, l.ServesFunctions)
    (space : String) : (listing space loaders).Nodup := by
  induction loaders with
  | nil => exact List.nodup_nil
  | cons l older ih =>
    obtain ⟨hl, holder⟩ := List.forall_mem_cons.1 h
    refine List.nodup_append.2 ⟨hl.nodup space, (ih holder).filter _, fun a ha b hb => ?_⟩
    rintro rfl
    simpa [ha] using (List.mem_filter.1 hb).2

theorem mem_listing_iff {loaders : List Loader} (h : ∀ l ∈ loaders, l.ServesFunctions)
    {space name : String} :
    name ∈ listing space loaders ↔ loaders.any (·.contains space name) = true := by
  induction loaders with
  | nil => simp [listing]
  | cons l older ih =>
    obtain ⟨hl, holder⟩ := List.forall_mem_cons.1 h
    rw [listing, List.mem_append, List.mem_filter, List.any_cons, Bool.or_eq_true,
      ← hl.mem_names_iff, ← ih holder]
    by_cases hname : name ∈ l.names space <;> simp [hname]

/-- A function is found exactly if some loader has it. -/
theorem contains_eq (s : LoaderStack) (space name : String) :
    s.contains space name = (s.function? space name).isSome := by
  rw [function?_eq, Bool.eq_iff_iff, List.findSome?_isSome_iff, contains, List.any_eq_true]
  rfl

/-- **The newest loader that has a function gives it.** -/
theorem function?_eq_some_iff {s : LoaderStack} {space name : String} {f : Function} :
    s.function? space name = some f ↔ ∃ newer l older, s.loaders = newer ++ l :: older ∧
      l.function? space name = some f ∧ ∀ l' ∈ newer, l'.contains space name = false := by
  rw [function?_eq, List.findSome?_eq_some_iff]
  simp [Loader.contains]

end LoaderStack

/-! ## Loaders in use -/

namespace Provider

variable {p : Provider}

/-- What has been made is what would be made again. -/
def Sound : Provider → Prop
  | natives made => ∀ home name native f, Native.find? home name = some native →
      made.get? (home, name) = some f → f = .ofNative native
  | module _ => True

theorem sound_ofLoader (l : Loader) : (ofLoader l).Sound := by
  cases l with
  | natives => exact fun _ _ _ _ _ h => nomatch h
  | module m => trivial

theorem loader_ofLoader (l : Loader) : (ofLoader l).loader = l := by
  cases l <;> rfl

/-- **Asking a loader** gives what it serves and changes nothing that it serves. -/
theorem Sound.ask (h : p.Sound) (space name : String) :
    (p.ask space name).1 = p.loader.function? space name ∧
      (p.ask space name).2.loader = p.loader ∧ (p.ask space name).2.Sound := by
  cases p with
  | module m => exact ⟨rfl, rfl, trivial⟩
  | natives made =>
    unfold Provider.ask loader Loader.function?
    dsimp only
    cases hfind : Native.find? space name with
    | none => exact ⟨rfl, rfl, h⟩
    | some native =>
      obtain ⟨hmem, hname⟩ := Native.mem_members_of_find? hfind
      have hhome := eq_of_beq (List.mem_filter.1 hmem).2
      dsimp only
      rw [hhome, hname]
      cases hmade : made.get? (space, name) with
      | some f =>
        rw [h space name native f hfind hmade]
        exact ⟨rfl, rfl, h⟩
      | none =>
        refine ⟨rfl, rfl, fun home name' native' f hfind' hmade' => ?_⟩
        rw [OrderedMap.get?_insert] at hmade'
        split at hmade'
        · next hkey =>
          cases eq_of_beq hkey
          rw [hfind] at hfind'
          cases hfind'
          cases hmade'
          rfl
        · exact h home name' native' f hfind' hmade'

end Provider

namespace ProviderStack

variable {s : ProviderStack} {loaders : List Loader}

/-- Asking loaders in turn gives what they serve together. -/
theorem askFirst_spec {ps : List Provider} (h : ∀ p ∈ ps, p.Sound) (space name : String) :
    (askFirst space name ps).1 = (ps.map Provider.loader).findSome? (·.function? space name) ∧
      (askFirst space name ps).2.map Provider.loader = ps.map Provider.loader ∧
      ∀ p ∈ (askFirst space name ps).2, p.Sound := by
  induction ps with
  | nil => exact ⟨rfl, rfl, h⟩
  | cons p rest ih =>
    obtain ⟨hp, hrest⟩ := List.forall_mem_cons.1 h
    obtain ⟨hanswer, hloaders, hsound⟩ := ih hrest
    obtain ⟨hown, hloader, hp'⟩ := hp.ask space name
    rw [askFirst, List.map_cons, List.findSome?_cons]
    by_cases hserves : (p.loader.has space && p.loader.contains space name) = true
    · rw [if_pos hserves]
      obtain ⟨f, hf⟩ := Option.isSome_iff_exists.1 (Bool.and_eq_true_iff.1 hserves).2
      refine ⟨?_, ?_, List.forall_mem_cons.2 ⟨hp', hrest⟩⟩
      · dsimp only
        rw [hown, hf]
      · dsimp only
        rw [List.map_cons, hloader]
    · rw [if_neg hserves]
      have hnone : p.loader.function? space name = none := by
        cases hf : p.loader.function? space name with
        | none => rfl
        | some f =>
          refine absurd ?_ hserves
          rw [Loader.has_of_function? hf, Loader.contains, hf]
          rfl
      refine ⟨?_, ?_, List.forall_mem_cons.2 ⟨hp, hsound⟩⟩
      · dsimp only
        rw [hanswer, hnone]
      · dsimp only
        rw [List.map_cons, hloaders]

/-- The stacks that come about when the given loaders, the newest first, have been pushed, and any
functions been asked for before, between and after. -/
inductive Built : List Loader → ProviderStack → Prop
  | empty : Built [] {}
  | pushed {loaders : List Loader} {s : ProviderStack} (h : Built loaders s) {l : Loader}
    (hl : l.ServesFunctions) : Built (l :: loaders) (s.push l)
  | asked {loaders : List Loader} {s : ProviderStack} (h : Built loaders s) (space name : String) :
    Built loaders (s.ask space name).2

theorem Built.serves (h : Built loaders s) : ∀ l ∈ loaders, l.ServesFunctions := by
  induction h with
  | empty => simp
  | pushed _ hl ih => exact List.forall_mem_cons.2 ⟨hl, ih⟩
  | asked _ _ _ ih => exact ih

/-- What has been asked for leaves the loaders as they were pushed. -/
theorem Built.spec (h : Built loaders s) :
    s.loaders = { loaders } ∧ ∀ p ∈ s.providers, p.Sound := by
  induction h with
  | empty => exact ⟨rfl, by simp⟩
  | @pushed loaders s _ l _ ih =>
    refine ⟨?_, List.forall_mem_cons.2 ⟨Provider.sound_ofLoader l, ih.2⟩⟩
    have hold : s.providers.map Provider.loader = loaders := congrArg LoaderStack.loaders ih.1
    rw [ProviderStack.loaders, push, List.map_cons, Provider.loader_ofLoader, hold]
  | asked _ space name ih =>
    obtain ⟨-, hloaders, hsound⟩ := askFirst_spec ih.2 space name
    refine ⟨?_, hsound⟩
    rw [← ih.1]
    exact congrArg LoaderStack.mk hloaders

theorem Built.ask_eq (h : Built loaders s) (space name : String) :
    (s.ask space name).1 = ({ loaders } : LoaderStack).function? space name := by
  rw [← h.spec.1, LoaderStack.function?_eq]
  exact (askFirst_spec h.spec.2 space name).1

/-- Two stacks give the same answers about a namespace. -/
structure Agree (space : String) (s s' : ProviderStack) : Prop where
  names : s'.names space = s.names space
  contains : ∀ name, s'.contains space name = s.contains space name
  ask : ∀ name, (s'.ask space name).1 = (s.ask space name).1

theorem Built.agree_asked (h : Built loaders s) (space other name : String) :
    Agree space s (s.ask other name).2 := by
  have h' := h.asked other name
  refine ⟨?_, fun n => ?_, fun n => ?_⟩
  · rw [names, names, h'.spec.1, h.spec.1]
  · rw [contains, contains, h'.spec.1, h.spec.1]
  · rw [h'.ask_eq, h.ask_eq]

theorem Built.agree_pushed (h : Built loaders s) {space : String} {l : Loader}
    (hl : l.ServesFunctions) (hother : l.has space = false) : Agree space s (s.push l) := by
  have h' := h.pushed hl
  refine ⟨?_, fun n => ?_, fun n => ?_⟩
  · rw [names, names, h'.spec.1, h.spec.1, LoaderStack.names_eq_listing h'.serves,
      LoaderStack.names_eq_listing h.serves, LoaderStack.listing, Loader.names_of_not_has hother]
    simp
  · rw [contains, contains, h'.spec.1, h.spec.1, LoaderStack.contains, List.any_cons,
      Loader.contains_of_not_has hother, Bool.false_or]
    rfl
  · rw [h'.ask_eq, h.ask_eq, LoaderStack.function?_eq, LoaderStack.function?_eq, List.findSome?_cons,
      Option.not_isSome_iff_eq_none.1 (Bool.eq_false_iff.1 (Loader.contains_of_not_has hother))]

/-- **What loaders list is what they have functions for.** However a stack has come about by pushing
loaders of native functions and of modules, and by asking for functions in between: each name that it
lists in a namespace is listed once, a name is listed if and only if the stack has a function under it,
and this function is that of the newest loader that has one. Newer loaders are listed first. Neither
asking nor pushing loaders for other namespaces changes an answer, and the answers are those of
loaders that have not been asked for anything. -/
theorem lookup_listed {loaders : List Loader} {s : ProviderStack} (h : Built loaders s)
    (space : String) :
    (s.names space).Nodup ∧ s.names space = LoaderStack.listing space loaders ∧
    (∀ name, (name ∈ s.names space ↔ s.contains space name = true) ∧
      (s.contains space name = true ↔ (s.ask space name).1.isSome = true)) ∧
    (∀ name f, (s.ask space name).1 = some f ↔ ∃ newer l older, loaders = newer ++ l :: older ∧
      l.function? space name = some f ∧ ∀ l' ∈ newer, l'.contains space name = false) ∧
    (∀ other name, Agree space s (s.ask other name).2) ∧
    (∀ l : Loader, l.ServesFunctions → l.has space = false → Agree space s (s.push l)) ∧
    ({ loaders } : LoaderStack).names space = s.names space ∧
    ∀ name, ({ loaders } : LoaderStack).contains space name = s.contains space name ∧
      ({ loaders } : LoaderStack).function? space name = (s.ask space name).1 := by
  have hnames : s.names space = LoaderStack.listing space loaders := by
    rw [names, h.spec.1]
    exact LoaderStack.names_eq_listing h.serves space
  refine ⟨?_, hnames, fun name => ⟨?_, ?_⟩, fun name f => ?_, h.agree_asked space,
    fun l hl => h.agree_pushed hl, ?_, fun name => ⟨?_, (h.ask_eq space name).symm⟩⟩
  · rw [hnames]
    exact LoaderStack.nodup_listing h.serves space
  · rw [hnames, LoaderStack.mem_listing_iff h.serves, contains, h.spec.1]
    rfl
  · rw [h.ask_eq, contains, h.spec.1, LoaderStack.contains_eq]
  · rw [h.ask_eq, LoaderStack.function?_eq_some_iff]
  · rw [names, h.spec.1]
  · rw [contains, h.spec.1]

/-- A module that is pushed after a native function has been made takes its name over. -/
theorem lookup_listed_shadowed :
    let f : Function := .constant (.boolean true) 0
    let n := (({} : Namespace).define "palindrome" (.function f) true).define "lower" (.function f) true
    let m : Module := ⟨"strings", n.exported, .user⟩
    let s := ((({} : ProviderStack).push .natives).ask "strings" "lower").2.push (.module m)
    Built [.module m, .natives] s ∧
      s.names "strings" = ["palindrome", "lower", "upper", "reverse", "sformat"] ∧
      (s.ask "strings" "lower").1 = some f := by
  intro f n m s
  have hfunctions : (Loader.module m).ServesFunctions := by
    refine ⟨n, rfl, fun name hname child => ?_⟩
    have hall : ∀ name ∈ n.published, (n.function? name).isSome := by decide
    obtain ⟨g, hg⟩ := Option.isSome_iff_exists.1 (hall name hname)
    rw [Namespace.function?_eq_some_iff.1 hg]
    nofun
  have hbuilt : Built [.module m, .natives] s :=
    ((Built.empty.pushed (l := .natives) trivial).asked "strings" "lower").pushed hfunctions
  obtain ⟨-, hnames, -, hfunction, -⟩ := lookup_listed hbuilt "strings"
  refine ⟨hbuilt, ?_, (hfunction "lower" f).2 ⟨[], .module m, [.natives], rfl, rfl, by simp⟩⟩
  rw [hnames]
  decide

end ProviderStack

end Catena

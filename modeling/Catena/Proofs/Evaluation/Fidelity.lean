import Catena.Proofs.Evaluation.Linked
import Catena.Proofs.Linking.Circles
import Catena.Session

/-!
# Whose functions an import takes

Each file is run once, and the modules that files became stand on a shelf, the latest first
(`Shelf`). An import by path leads to one file, but looks for functions under the bare name of it: it
takes every name from the latest file of that name that has it (`provider?`). So it takes exactly the
functions of its own file only if no other file of the same name is in the way (`Undisturbed`), and
it finds nothing at all if no file of that name was read for the user, as when its own file was read
as a library module.

Both are exact (`Fares`), and hold of every import by path that is carried out when an entry file
runs in a fresh session (`FindsByPath`).
-/

namespace Catena.Evaluation

open Linking

/-! ## Files of one name -/

/-- A file with the same name as `g`, read for the user. -/
def Namesake (g : Path) (j : Path × Origin) : Prop :=
  j.2 = .user ∧ j.1.fileName = g.fileName

/-- The file that a name under a key is taken from, and the function that it gives: of the files
under the key, the latest that has the name. -/
def provider? (shelf : Shelf) (key name : String) : Option ((Path × Origin) × Function) :=
  shelf.findSome? fun x =>
    if x.2.key = key then (x.2.exports.function? name).map (x.1, ·) else none

/-- Exactly the functions of the file `g` are taken, each under the name that it has there. -/
def Faithful (shelf : Shelf) (g : Path) : Prop :=
  ∃ m, ((g, .user), m) ∈ shelf ∧
    ∀ name, provider? shelf g.fileName name = (m.exports.function? name).map ((g, .user), ·)

/-- The file `g` was read for the user, its namesakes that were run after it export nothing, and
those that were run before it export only names that `g` exports too. -/
def Undisturbed (shelf : Shelf) (g : Path) : Prop :=
  ∃ later m earlier, shelf = later ++ ((g, .user), m) :: earlier ∧
    (∀ x ∈ later, Namesake g x.1 → ∀ name, x.2.exports.function? name = none) ∧
    ∀ x ∈ earlier, Namesake g x.1 → ∀ name, (x.2.exports.function? name).isSome →
      (m.exports.function? name).isSome

section Shelf

variable {shelf : Shelf} {g : Path}

theorem isSome_provider? {key name : String} :
    (provider? shelf key name).isSome ↔
      ∃ x ∈ shelf, x.2.key = key ∧ (x.2.exports.function? name).isSome := by
  unfold provider?
  rw [List.findSome?_isSome_iff]
  refine exists_congr fun x => and_congr_right fun _ => ?_
  split
  · next h => simp [h]
  · next h => simp [h]

/-- Names are taken from files that are there. -/
theorem mem_of_provider? {key name : String} {j : Path × Origin} {f : Function}
    (h : provider? shelf key name = some (j, f)) : j ∈ shelf.map (·.1) := by
  obtain ⟨x, hx, hprovides⟩ := List.exists_of_findSome?_eq_some h
  split at hprovides
  · obtain ⟨f', -, heq⟩ := Option.map_eq_some_iff.1 hprovides
    cases heq
    exact List.mem_map_of_mem hx
  · cases hprovides

theorem provider?_append (later earlier : Shelf) (key name : String) :
    provider? (later ++ earlier) key name =
      (provider? later key name).or (provider? earlier key name) :=
  List.findSome?_append

theorem provider?_cons_namesake {x : (Path × Origin) × Module} {key : String} (hkey : x.2.key = key)
    (earlier : Shelf) (name : String) : provider? (x :: earlier) key name =
      ((x.2.exports.function? name).map (x.1, ·)).or (provider? earlier key name) := by
  unfold provider?
  rw [List.findSome?_cons, if_pos hkey]
  cases x.2.exports.function? name <;> rfl

section Iff

variable (hkeys : ∀ x ∈ shelf, x.2.key = g.fileName ↔ Namesake g x.1)

include hkeys

theorem Faithful.undisturbed (honce : (shelf.map (·.1.1)).Nodup) (h : Faithful shelf g) :
    Undisturbed shelf g := by
  obtain ⟨m, hm, htaken⟩ := h
  obtain ⟨later, earlier, rfl⟩ := List.append_of_mem hm
  refine ⟨later, m, earlier, rfl, ?_, ?_⟩
  · intro x hx hname name
    by_contra hexports
    -- the name is then taken from a file of `later`, and `g` is not among them
    have hkey : x.2.key = g.fileName := (hkeys x (List.mem_append_left _ hx)).2 hname
    have hfound : (provider? later g.fileName name).isSome :=
      isSome_provider?.2 ⟨x, hx, hkey, Option.isSome_iff_ne_none.2 hexports⟩
    obtain ⟨⟨j, f⟩, hprovides⟩ := Option.isSome_iff_exists.1 hfound
    have hg := htaken name
    rw [provider?_append, hprovides, Option.some_or] at hg
    obtain ⟨f', -, heq⟩ := Option.map_eq_some_iff.1 hg.symm
    cases heq
    obtain ⟨y, hy, hyg⟩ := List.mem_map.1 (mem_of_provider? hprovides)
    rw [List.map_append, List.map_cons, List.nodup_append] at honce
    refine honce.2.2 y.1.1 (List.mem_map_of_mem hy) g List.mem_cons_self ?_
    rw [hyg]
  · intro x hx hname name hexports
    have hmem : x ∈ later ++ ((g, .user), m) :: earlier :=
      List.mem_append_right _ (List.mem_cons_of_mem _ hx)
    have hfound := isSome_provider?.2 ⟨x, hmem, (hkeys x hmem).2 hname, hexports⟩
    rw [htaken name, Option.isSome_map] at hfound
    exact hfound

theorem Undisturbed.faithful (h : Undisturbed shelf g) : Faithful shelf g := by
  obtain ⟨later, m, earlier, rfl, hlater, hearlier⟩ := h
  have hmem : ((g, .user), m) ∈ later ++ ((g, .user), m) :: earlier :=
    List.mem_append_right _ List.mem_cons_self
  have hkey : m.key = g.fileName := (hkeys _ hmem).2 ⟨rfl, rfl⟩
  refine ⟨m, hmem, fun name => ?_⟩
  have hnone : provider? later g.fileName name = none := by
    rw [← Option.not_isSome_iff_eq_none, isSome_provider?]
    rintro ⟨x, hx, hx', hexports⟩
    have hname := (hkeys x (List.mem_append_left _ hx)).1 hx'
    rw [hlater x hx hname name] at hexports
    cases hexports
  rw [provider?_append, hnone, Option.none_or, provider?_cons_namesake hkey]
  cases hm : m.exports.function? name with
  | some f => rfl
  | none =>
    rw [Option.map_none, Option.none_or, ← Option.not_isSome_iff_eq_none, isSome_provider?]
    rintro ⟨x, hx, hx', hexports⟩
    have hmem' : x ∈ later ++ ((g, .user), m) :: earlier :=
      List.mem_append_right _ (List.mem_cons_of_mem _ hx)
    have hexports' := hearlier x hx ((hkeys x hmem').1 hx') name hexports
    rw [hm] at hexports'
    cases hexports'

/-- **An import takes exactly the functions of its file if and only if the file is undisturbed.** -/
theorem faithful_iff (honce : (shelf.map (·.1.1)).Nodup) :
    Faithful shelf g ↔ Undisturbed shelf g :=
  ⟨Faithful.undisturbed hkeys honce, Undisturbed.faithful hkeys⟩

end Iff

end Shelf

/-! ## Imports by path -/

/-- Where an import went well, the names of the namespace that it binds in stand for the functions
`f`, and other names for what they stood for before. -/
def Binds (request : Import) (s : Interpreter) (spaces : Namespaces)
    (f : String → Option Function) : Prop :=
  ∃ space, (if request.isStar then space = s.current
      else (spaces.get s.current).get? request.mountName = some (.child space)) ∧
    ∀ name, (spaces.get space).get? name =
      ((f name).map .function).or ((s.spaces.get space).get? name)

/-- How an import of the file `g` by its path fares in the state `t`, where the modules of `shelf`
are served. -/
structure Fares (shelf : Shelf) (g : Path) (request : Import) (t : Interpreter) : Prop where
  unknown : (∃ source, imported t request = .error (.unknownNamespace source)) ↔
    ¬∃ x ∈ shelf, Namesake g x.1
  binds : request.isWhole ∨ request.isStar → ∀ spaces, imported t request = .ok spaces →
    Binds request t spaces fun name => (provider? shelf g.fileName name).map (·.2)
  faithful : Faithful shelf g ↔ Undisturbed shelf g

section Import

variable {fs : FileSystem} {library : String} {shelf : Shelf} {s : Interpreter}

/-- Under the name of a source file, the loaders serve what the shelf has. -/
theorem Serves.function?_eq (h : Serves fs library [.natives] shelf s) {key : String}
    (hkey : hasEnding sourceExtension key) (name : String) :
    s.loaders.function? key name = (provider? shelf key name).map (·.2) := by
  have hnatives : Loader.natives.function? key name = none := by
    rw [← Option.not_isSome_iff_eq_none]
    intro hsome
    obtain ⟨f, hf⟩ := Option.isSome_iff_exists.1 hsome
    have hhas := Loader.has_of_function? hf
    rw [Loader.not_has_natives hkey] at hhas
    cases hhas
  have hmodule : ∀ x : (Path × Origin) × Module, (Loader.module x.2).function? key name =
      (if x.2.key = key then (x.2.exports.function? name).map (x.1, ·) else none).map (·.2) := by
    intro x
    unfold Loader.function?
    by_cases hx : x.2.key = key
    · cases hf : x.2.exports.function? name <;> simp [hx, hf]
    · simp [hx]
  rw [LoaderStack.function?_eq, h.loaders, List.findSome?_append, List.findSome?_singleton,
    hnatives, Option.or_none, List.findSome?_map, provider?, List.map_findSome?]
  exact congrArg (shelf.findSome? ·) (funext hmodule)

theorem Serves.lists (h : Serves fs library [.natives] shelf s) :
    ∀ l ∈ s.loaders.loaders, l.Lists := by
  intro l hl
  rw [h.loaders] at hl
  rcases List.mem_append.1 hl with hl | hl
  · obtain ⟨x, hx, rfl⟩ := List.mem_map.1 hl
    obtain ⟨n, hn⟩ := (h.modules x hx).eq_exported
    rw [hn]
    exact Loader.lists_exported _ n _
  · rw [List.mem_singleton.1 hl]
    exact Loader.lists_natives

theorem Serves.fares (h : Serves fs library [.natives] shelf s) (hs : Sound s) {g : Path}
    {request : Import} (hproper : request.Proper) (hext : request.isExternal)
    (hname : g.fileName = request.loaderKey)
    (hkeys : ∀ x ∈ shelf, x.2.key = g.fileName ↔ Namesake g x.1)
    (honce : (shelf.map (·.1.1)).Nodup) : Fares shelf g request s := by
  have hkey : hasEnding sourceExtension request.loaderKey := hasEnding_loaderKey hext
  refine ⟨?_, ?_, faithful_iff hkeys honce⟩
  · have hknown : s.loaders.has request.loaderKey ↔ ∃ x ∈ shelf, Namesake g x.1 := by
      rw [Serving.has_iff ⟨shelf, rfl, h⟩, Known]
      constructor
      · rintro (⟨l, hl, hhas⟩ | ⟨j, hj, hfile⟩)
        · rw [List.mem_singleton.1 hl, Loader.not_has_natives hkey] at hhas
          cases hhas
        · obtain ⟨x, hx, rfl⟩ := List.mem_map.1 hj
          refine ⟨x, hx, (hkeys x hx).1 ?_⟩
          rw [(h.modules x hx).key_eq, hfile, hname]
      · rintro ⟨x, hx, hnamesake⟩
        refine Or.inr ⟨x.1, List.mem_map_of_mem hx, ?_⟩
        rw [← (h.modules x hx).key_eq, (hkeys x hx).2 hnamesake, hname]
    rw [← hknown, Bool.not_eq_true]
    constructor
    · rintro ⟨source, herror⟩
      exact (imported_unknownNamespace_iff.1 herror).1
    · intro hlacks
      exact ⟨request.source, imported_unknownNamespace_iff.2 ⟨hlacks, rfl⟩⟩
  · intro hform spaces hok
    have hover : ∀ (n : Namespace) (name : String), overlaid s.loaders request.loaderKey n name =
        (((provider? shelf g.fileName name).map (·.2)).map .function).or (n.get? name) := by
      intro n name
      rw [overlaid, h.function?_eq hkey, hname]
    by_cases hstar : request.isStar
    · refine ⟨s.current, by rw [if_pos hstar], fun name => ?_⟩
      rw [get?_imported_star hstar (hproper.star hstar) h.lists hs.current hok, hover]
    · have hwhole := hform.resolve_right hstar
      obtain ⟨child, hchild, hbound⟩ := imported_whole hwhole h.lists hs.current hs.nested hok
      refine ⟨child, by rw [if_neg hstar]; exact hchild, fun name => ?_⟩
      rw [hbound, hover]

end Import

/-! ## Entry files -/

theorem sound_new (config : Config) (console : Console) (random : RandomSource) :
    Sound (Session.new config console random).interpreter := by
  have hempty : ∀ id, (Session.new config console random).interpreter.spaces.get id = {} := by
    intro id
    cases id with
    | zero => rfl
    | succ id => rfl
  refine ⟨⟨nofun, fun id => ?_, fun l hl => ?_⟩, Nat.zero_lt_one, fun id name child hchild => ?_⟩
  · rw [hempty]
    exact Discipline.allowsSpace_empty
  · rw [List.mem_singleton.1 hl]
    exact trivial
  · rw [hempty] at hchild
    cases hchild

/-- An import by path that is carried out in code that was linked from nothing. -/
theorem Asking.exists_shelf {fs : FileSystem} {library : String} {top : SourceUnit}
    {i₀ i : Importer} {requests : List Import} {code : Code} {es before more : List Event}
    {request : Import} {t : Interpreter} (hlinked : Linked fs library top i₀ [] requests code es)
    (hes : es = before ++ .asks i request :: more)
    (h : Asking fs library top [.natives] [] before i request t) (hext : request.isExternal) :
    ∃ g shelf, fs.canonical (i.unit top).directory request.source = .ok g ∧
      Serves fs library [.natives] shelf t ∧ (shelf.map (·.1.1)).Nodup ∧
      g ∈ shelf.map (·.1.1) ∧ Fares shelf g request t := by
  obtain ⟨j, hleads⟩ := h.found hext
  have hfound := hleads.canonical_external hext
  have hname := fileName_external hext hfound
  obtain ⟨shelf, hfiles, hserves⟩ := h.serving
  have hpaths : shelf.map (·.1.1) = (offered before).map (·.1) := by
    rw [← hfiles, List.map_map]
    rfl
  have honce : (shelf.map (·.1.1)).Nodup := by
    have hall := hlinked.nodup List.nodup_nil
    rw [hes, after, List.append_nil, offered_append, List.map_append] at hall
    rw [hpaths]
    exact (List.nodup_append.1 hall).2.1
  have hkeys : ∀ x ∈ shelf, x.2.key = j.1.fileName ↔ Namesake j.1 x.1 := by
    intro x hx
    have hoffered : x.1 ∈ offered es := by
      rw [hes, offered_append, ← hfiles]
      exact List.mem_append_right _ (List.mem_map_of_mem hx)
    obtain ⟨unit, request', hproper, hleads'⟩ := hlinked.leads_of_offered hoffered
    rw [(hserves.modules x hx).key_eq]
    refine hleads'.fileKey_eq_iff hproper ?_
    rw [hname]
    exact hasEnding_loaderKey hext
  refine ⟨j.1, shelf, hfound, hserves, honce, ?_,
    hserves.fares h.sound h.proper hext hname hkeys honce⟩
  have hthere := h.there j hleads
  rw [after, List.append_nil] at hthere
  rw [hpaths]
  exact hthere

/-- What is known of an import that is carried out in a state `t`. If it is by path, the path leads to
a file `g`, seen from the directory of the importing file; each file has been run at most once, `g`
among them, and the import fares as the files that were run let it. -/
def FindsByPath (fs : FileSystem) (library : String) (request : Import) (t : Interpreter) : Prop :=
  request.isExternal → ∃ importer g shelf,
    request ∈ requests fs importer ∧ fs.canonical importer.parent request.source = .ok g ∧
    Serves fs library [.natives] shelf t ∧ (shelf.map (·.1.1)).Nodup ∧ g ∈ shelf.map (·.1.1) ∧
    Fares shelf g request t

/-- **What imports by path find when an entry file runs in a fresh session.** Whenever one is carried
out, it lacks its namespace exactly if no file of the name of its own file was read for the user. If
it binds all names, it takes each from the latest file of that name that has it: from its own file,
and from no other, exactly if that is undisturbed. -/
theorem imports_of_linkEntry {fs : FileSystem} (config : Config) {entry : Path} {log : FileLog}
    {console : Console} {random : RandomSource} {p : Program NodeId} {l : Linker}
    (hlink : (linkEntry fs config.library entry).run
      (freshLinker entry log (Session.new config console random).interpreter.nextId) = .done p l)
    (fuel : Nat) :
    EveryImport fuel l.scopes p
      { (Session.new config console random).interpreter with nextId := l.nextId }
      (FindsByPath fs config.library) := by
  have hclosed : Closed fs config.library [] := fun _ h => absurd h List.not_mem_nil
  obtain ⟨hinfo, es, hlinked, -, -⟩ :=
    (meets_linkEntry_linked (.ofFile entry .user) entry hclosed).of_done hlink
  have hroot : p.info.isRoot = true := by
    rw [hinfo]
    rfl
  have hs : Sound { (Session.new config console random).interpreter with nextId := l.nextId } :=
    (sound_new config console random).of_eq rfl rfl rfl Nat.zero_lt_one
  refine (interpret_linked hroot hlinked hs fuel l.scopes).1.mono ?_
  rintro request t ⟨before, more, i, hes, hasking⟩ hext
  obtain ⟨g, shelf, hfound, rest⟩ := hasking.exists_shelf hlinked hes hext
  have hmem : Event.asks i request ∈ es := by
    rw [hes]
    exact List.mem_append_right _ List.mem_cons_self
  rcases hlinked.mem_requests hmem with ⟨rfl, hrequest⟩ | ⟨k, rfl, hrequest⟩
  · exact ⟨entry, g, shelf, hrequest, hfound, rest⟩
  · exact ⟨k.1, g, shelf, hrequest, hfound, rest⟩

/-! ## Two examples -/

/-- Two files of one name, the second of which is imported with all its names. -/
def twins : FileSystem where
  workingDirectory := []
  entries :=
    [(["main.twl"], .file "import \"a/x.twl\"\nimport * from \"b/x.twl\"".toUTF8.toList),
      (["a", "x.twl"], .file "public def f { }".toUTF8.toList),
      (["b", "x.twl"], .file "public def g { }".toUTF8.toList)]

/-- Whether a file can be linked from nothing. -/
def links (fs : FileSystem) (library : String) (entry : Path) : Bool :=
  match (linkEntry fs library entry).run (freshLinker entry {} 1) with
  | .done _ _ => true
  | .stopped _ _ => false

theorem imports_of_twins :
    ∃ p l, (linkEntry twins "std" ["main.twl"]).run (freshLinker ["main.twl"] {} 1) = .done p l ∧
      EveryImport ampleFuel l.scopes p
        { (Session.new { library := "std" } {}).interpreter with nextId := l.nextId }
        (FindsByPath twins "std") := by
  have hlinks : links twins "std" ["main.twl"] = true := by decide +kernel
  unfold links at hlinks
  cases hlink : (linkEntry twins "std" ["main.twl"]).run (freshLinker ["main.twl"] {} 1) with
  | done p l => exact ⟨p, l, rfl, imports_of_linkEntry { library := "std" } hlink _⟩
  | stopped e l => rw [hlink] at hlinks; cases hlinks

/-- A file that is imported as a library module and then by its path. -/
def borrowed : FileSystem where
  workingDirectory := []
  entries :=
    [(["main.twl"], .file "import <x>\nimport \"std/x.twl\"".toUTF8.toList),
      (["std", "x.twl"], .file "public def f { }".toUTF8.toList)]

/-- The namespace for lack of which a program failed. -/
def lacking? (r : RunReport) : Option String :=
  match r.result with
  | .error (.diagnostic { cause := .runtime (.unknownNamespace source), .. }) => some source
  | _ => none

/-- An import by path can take functions of another file, and can find nothing although its file has
been run: the star import of one twin also binds the function `f` of the other, and the import of a
library module by its path lacks its namespace. -/
theorem imports_of_namesakes :
    (((Session.new { library := "std" } {}).runFile twins "main.twl" {}).session.interpreter.spaces.get
        0).names = ["x", "g", "f"] ∧
      lacking? ((Session.new { library := "std" } {}).runFile borrowed "main.twl" {}) =
        some "std/x.twl" := by
  decide +kernel

end Catena.Evaluation

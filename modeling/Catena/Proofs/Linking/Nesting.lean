import Catena.Proofs.Linking.Alone
import Catena.Proofs.Linking.Order

/-!
# How deep files are read inside each other

Linking a file reads the files that it imports, and so on, guided by the contents of the files alone.
That this ends needs no fuel. `linkDistinct` has none: it carries the files that are being read
(`OpenFiles`), which are distinct and can be read, and refuses to read one of them again. There are
finitely many, so it ends. It never comes to refuse (`meets_linkDistinct`): the files that are being
read form a chain of recorded imports (`Opened`), and a file that comes twice in it would make a circle,
which is looked for before a file is read.

Linking with fuel does the same where there is fuel for each file inside the others, and so it needs no
more of it than there are files (`agrees_linkFile`).
-/

namespace Catena

/-! ## What there is in a file system -/

namespace FileSystem

/-- All paths that lead somewhere. -/
def places (fs : FileSystem) : List Path :=
  (fs.workingDirectory :: fs.entries.map (·.1)).flatMap List.inits

/-- Whether a path leads to what an import can ask for: a regular file, or something else with the name
of a source file. -/
def isSource (fs : FileSystem) (p : Path) : Bool :=
  match fs.entry? p with
  | some (.file _) => true
  | some .directory => hasEnding sourceExtension p.fileName
  | none => false

/-- The files that there are, each once. -/
def files (fs : FileSystem) : List Path :=
  (fs.places.filter fs.isSource).dedup

variable {fs : FileSystem}

theorem mem_places_iff {p : Path} :
    p ∈ fs.places ↔ p <+: fs.workingDirectory ∨ ∃ q ∈ fs.entries.map (·.1), p <+: q := by
  simp [places]

theorem isSome_entry?_iff {p : Path} : (fs.entry? p).isSome ↔ p ∈ fs.places := by
  rw [mem_places_iff]
  unfold entry?
  cases hlookup : fs.entries.lookup p with
  | some entry =>
    obtain ⟨l₁, l₂, heq, -⟩ := List.lookup_eq_some_iff.1 hlookup
    refine iff_of_true rfl (.inr ⟨p, ?_, List.prefix_refl p⟩)
    rw [heq]
    simp
  | none =>
    dsimp only
    split
    · next h => simpa using h
    · next h => simpa using h

theorem isSome_entry?_of_isPrefix {p q : Path} (h : p <+: q) (hq : (fs.entry? q).isSome) :
    (fs.entry? p).isSome := by
  rw [isSome_entry?_iff, mem_places_iff] at hq ⊢
  rcases hq with hwork | ⟨r, hr, hqr⟩
  · exact .inl (h.trans hwork)
  · exact .inr ⟨r, hr, h.trans hqr⟩

theorem isSome_entry?_of_follow {p q : Path} {parts : List String} (hp : (fs.entry? p).isSome)
    (h : fs.follow p parts = .ok q) : (fs.entry? q).isSome := by
  fun_induction FileSystem.follow fs p parts with
  | case1 p => cases h; exact hp
  | case2 => cases h
  | case3 => cases h
  | case4 p part rest _ _ ih => exact ih hp h
  | case5 p rest _ _ ih =>
    have habove : p.parent <+: p := List.dropLast_prefix p
    exact ih (isSome_entry?_of_isPrefix habove hp) h
  | case6 => cases h
  | case7 p part rest _ _ _ _ hthere ih => exact ih hthere h
  | case8 => cases h

/-- What a written path leads to is there. -/
theorem isSome_entry?_of_canonical {base q : Path} {written : String}
    (h : fs.canonical base written = .ok q) : (fs.entry? q).isSome := by
  unfold canonical at h
  split at h
  · cases h
  split at h
  · cases h
  obtain ⟨parts, hparts⟩ := splitPath_eq_concat written
  have hne : splitPath written ≠ [] := by simp [hparts]
  obtain ⟨part, rest, hsplit⟩ := List.exists_cons_of_ne_nil hne
  -- the first component is only followed from something that is there
  have hstart : (fs.entry? (startOf base written)).isSome := by
    rw [hsplit, follow] at h
    split at h
    · cases h
    · cases h
    · next hentry => rw [hentry]; rfl
  exact isSome_entry?_of_follow hstart h

theorem mem_files_of_isSource {p : Path} (h : fs.isSource p = true) : p ∈ fs.files := by
  have hthere : (fs.entry? p).isSome := by
    unfold isSource at h
    cases hentry : fs.entry? p with
    | none => rw [hentry] at h; cases h
    | some entry => rfl
  exact List.mem_dedup.2 (List.mem_filter.2 ⟨isSome_entry?_iff.1 hthere, h⟩)

theorem isSource_of_read {p : Path} {source : String} (h : fs.read p = .ok source) :
    fs.isSource p = true := by
  unfold read at h
  unfold isSource
  cases hentry : fs.entry? p with
  | none => rw [hentry] at h; cases h
  | some entry =>
    cases entry with
    | file bytes => rfl
    | directory => rw [hentry] at h; cases h

end FileSystem

namespace Linking

open DependencyGraph

variable {fs : FileSystem} {library : String}

/-- What an import leads to is a file. -/
theorem LeadsTo.isSource {unit : SourceUnit} {request : Import} {j : Path × Origin}
    (h : LeadsTo fs library unit request j) : fs.isSource j.1 = true := by
  cases h with
  | @byPath path external found =>
    unfold FileSystem.isSource
    cases hentry : fs.entry? path with
    | none =>
      have hthere := FileSystem.isSome_entry?_of_canonical found
      rw [hentry] at hthere
      cases hthere
    | some entry =>
      cases entry with
      | file bytes => rfl
      | directory =>
        dsimp only
        rw [fileName_external external found]
        exact hasEnding_loaderKey external
  | @asModule path _ _ there found =>
    unfold FileSystem.isFile at there
    unfold FileSystem.isSource
    rw [found] at there
    dsimp only at there ⊢
    cases hentry : fs.entry? path with
    | none => rw [hentry] at there; cases there
    | some entry =>
      cases entry with
      | file bytes => rfl
      | directory => rw [hentry] at there; cases there

/-! ## Linking without fuel -/

/-- Files that are being read, the innermost first. -/
structure OpenFiles (fs : FileSystem) where
  paths : List Path
  distinct : paths.Nodup
  readable : ∀ path ∈ paths, ∃ source, fs.read path = .ok source

namespace OpenFiles

/-- No file is being read. -/
def none : OpenFiles fs :=
  ⟨[], .nil, fun _ h => absurd h List.not_mem_nil⟩

/-- One more file is being read. -/
def push (opened : OpenFiles fs) {path : Path} {source : String} (hnew : path ∉ opened.paths)
    (hread : fs.read path = .ok source) : OpenFiles fs :=
  ⟨path :: opened.paths, List.nodup_cons.2 ⟨hnew, opened.distinct⟩,
    List.forall_mem_cons.2 ⟨⟨source, hread⟩, opened.readable⟩⟩

theorem length_le (opened : OpenFiles fs) : opened.paths.length ≤ fs.entries.length := by
  have hlisted : opened.paths ⊆ fs.entries.map (·.1) := fun path hpath =>
    (opened.readable path hpath).elim fun _ => FileSystem.mem_entries_of_read
  simpa using (opened.distinct.subperm hlisted).length_le

/-- With one more file there are still no more files than there are. -/
theorem length_lt (opened : OpenFiles fs) {path : Path} (hnew : path ∉ opened.paths)
    (hpath : fs.isSource path = true) : opened.paths.length < fs.files.length := by
  have hlisted : path :: opened.paths ⊆ fs.files := by
    refine List.cons_subset.2 ⟨FileSystem.mem_files_of_isSource hpath, fun q hq => ?_⟩
    obtain ⟨source, hread⟩ := opened.readable q hq
    exact FileSystem.mem_files_of_isSource (FileSystem.isSource_of_read hread)
  exact ((List.nodup_cons.2 ⟨hnew, opened.distinct⟩).subperm hlisted).length_le

end OpenFiles

/-- Links a file inside those that are being read, and refuses to read one of them again. -/
def linkDistinct (fs : FileSystem) (library : String) (opened : OpenFiles fs) (path : Path)
    (origin : Origin) : Linking (Program NodeId) :=
  if hopen : path ∈ opened.paths then Action.stop .exhausted
  else
    match hread : fs.read path with
    | .error fault =>
      fail { cause := .module (.unreadable path.fileName fault), file := some path.fileName }
    | .ok source =>
      linkText fs library (linkDistinct fs library (opened.push hopen hread))
        (.ofFile path origin) source
termination_by fs.entries.length - opened.paths.length
decreasing_by
  have hle := (opened.push hopen hread).length_le
  simp only [OpenFiles.push, List.length_cons] at hle ⊢
  omega

/-! ## No file is read inside itself -/

/-- A linker that has come further, and knows of no circle. -/
structure Advanced (l l' : Linker) : Prop where
  acyclic : l'.graph.isCircular = false
  grown : Grown l l'

theorem Advanced.trans {l l' l'' : Linker} (h : Advanced l l') (k : Advanced l' l'') :
    Advanced l l'' :=
  ⟨k.acyclic, h.grown.trans k.grown⟩

theorem Untouched.advanced {l l' : Linker} (h : Untouched l l')
    (hacyclic : l.graph.isCircular = false) : Advanced l l' :=
  ⟨by rw [h.graph]; exact hacyclic, h.grown⟩

theorem advanced_connected {unit : SourceUnit} {path : Path} {l : Linker}
    (h : (connected unit path l).graph.isCircular = false) : Advanced l (connected unit path l) :=
  ⟨h, grown_connected h⟩

section Text

variable {load : Path → Origin → Linking (Program NodeId)} {unit : SourceUnit} {l₀ : Linker}
  (hload : ∀ path origin l, Advanced l₀ l → Leads l.graph.edges unit.key path.text →
    Meets (load path origin) l (fun _ l' => Advanced l l') fun e _ => e ≠ .exhausted)

include hload

theorem meets_resolve_advanced {position : Position} {request : Import} {l : Linker}
    (hl : Advanced l₀ l) :
    Meets (resolve fs library load unit position request) l (fun _ l' => Advanced l l')
      fun e _ => e ≠ .exhausted := by
  refine meets_resolve ?alone ?missing ?circle ?known ?fresh
  case alone => exact fun _ => ⟨hl.acyclic, .refl l⟩
  case missing =>
    rintro _ _ _ _ _ _ e _ he - rfl
    exact he
  case circle =>
    rintro _ _ _ _ e _ ⟨_, _, _, rfl, _⟩ -
    nofun
  case known => exact fun _ _ _ hacyclic _ => advanced_connected hacyclic
  case fresh =>
    intro path origin _ hacyclic _
    have hconnected := advanced_connected hacyclic
    refine (hload path origin _ (hl.trans hconnected) (leads_connected hacyclic)).mono ?_
      fun _ _ he => he
    intro program l' hl'
    exact ⟨hl'.acyclic, hconnected.grown.trans
      (hl'.grown.trans ⟨List.Subset.refl _, List.subset_cons_self _ _⟩)⟩

theorem meets_splice_advanced (nodes : Code) {l : Linker} (hl : Advanced l₀ l) :
    Meets (splice (resolve fs library load unit) nodes) l (fun _ l' => Advanced l l')
      fun e _ => e ≠ .exhausted := by
  induction nodes generalizing l with
  | nil => exact ⟨hl.acyclic, .refl l⟩
  | cons node rest ih =>
    cases hnode : node.import? with
    | none => exact meets_splice_node hnode (ih hl)
    | some request =>
      obtain ⟨m, rfl⟩ := Node.import?_eq_some_iff.1 hnode
      refine meets_splice_importing ((meets_resolve_advanced hload hl).mono ?_ fun _ _ he => he)
      intro found l₁ hl₁ id l₂ hl₂
      have hadvanced := hl₁.trans (hl₂.advanced hl₁.acyclic)
      exact (ih (hl.trans hadvanced)).mono (fun _ _ hl' => hadvanced.trans hl') fun _ _ he => he

theorem meets_linkText_advanced {source : String} (hacyclic : l₀.graph.isCircular = false) :
    Meets (linkText fs library load unit source) l₀ (fun _ l' => Advanced l₀ l')
      fun e _ => e ≠ .exhausted := by
  refine meets_linkText (fun program n l₁ _ hl₁ => ?_) fun _ e _ he _ => ?_
  · have hadvanced := hl₁.advanced hacyclic
    refine (meets_splice_advanced hload _ hadvanced).mono ?_ fun _ _ he => he
    intro nodes l' hl' l'' hl''
    exact hadvanced.trans (hl'.trans (hl''.advanced hl'.acyclic))
  · rintro rfl
    exact he

end Text

/-- **A file that is being read is never read again.** -/
theorem meets_linkDistinct (opened : OpenFiles fs) (path : Path) (origin : Origin) {l : Linker}
    (hacyclic : l.graph.isCircular = false) (hopened : Opened fs l path opened.paths) :
    Meets (linkDistinct fs library opened path origin) l (fun _ l' => Advanced l l')
      fun e _ => e ≠ .exhausted := by
  fun_induction linkDistinct fs library opened path origin generalizing l with
  | case1 opened path origin hopen =>
    exact absurd hopen (List.nodup_cons.1 (hopened.nodup hacyclic)).1
  | case2 opened path origin => exact Meets.fail fun _ _ => nofun
  | case3 opened path origin hnew source hread ih =>
    have hlisted := FileSystem.mem_entries_of_read hread
    refine meets_linkText_advanced (fun q o l' hl' hlead => ?_) hacyclic
    exact ih q o hl'.acyclic ((hopened.mono hl'.grown).next hlisted hlead)

/-! ## Fuel for each file inside the others -/

/-- Two steps that do the same wherever the first does not run out. -/
def Agrees {α : Type} (m m' : Linking α) : Prop :=
  ∀ l, (∃ l', m.run l = .stopped .exhausted l') ∨ m'.run l = m.run l

namespace Agrees

variable {α β : Type}

theorem refl (m : Linking α) : Agrees m m :=
  fun _ => .inr rfl

theorem bind {m m' : Linking α} {f f' : α → Linking β} (hm : Agrees m m')
    (hf : ∀ a, Agrees (f a) (f' a)) : Agrees (m >>= f) (m' >>= f') := by
  intro l
  rw [Action.run_bind, Action.run_bind]
  rcases hm l with ⟨l', hstop⟩ | hsame
  · rw [hstop]
    exact .inl ⟨l', rfl⟩
  · rw [hsame]
    cases m.run l with
    | done a l' => exact hf a l'
    | stopped e l' => exact .inr rfl

end Agrees

section Fuel

variable {load load' : Path → Origin → Linking (Program NodeId)}
  (hload : ∀ path origin, fs.isSource path = true → Agrees (load path origin) (load' path origin))

include hload

theorem agrees_resolve (unit : SourceUnit) (position : Position) (request : Import) :
    Agrees (resolve fs library load unit position request)
      (resolve fs library load' unit position request) := by
  unfold resolve
  cases hwanted : wanted? fs library unit request with
  | none => exact .refl _
  | some place =>
    obtain ⟨⟨written, base⟩, origin⟩ := place
    dsimp only
    cases hpath : fs.canonical base written with
    | error fault => exact .refl _
    | ok path =>
      have hleads : LeadsTo fs library unit request (path, origin) :=
        target?_eq_some_iff_leadsTo.1 (target?_eq_some_iff.2 ⟨written, base, hwanted, hpath⟩)
      refine .bind (.refl _) fun _ => .bind (.refl _) fun l => ?_
      split
      · exact .refl _
      · exact .bind (hload path origin hleads.isSource) fun _ => .refl _

theorem agrees_splice (unit : SourceUnit) (nodes : Code) :
    Agrees (splice (resolve fs library load unit) nodes)
      (splice (resolve fs library load' unit) nodes) := by
  induction nodes with
  | nil => exact .refl _
  | cons node rest ih =>
    cases hnode : node.import? with
    | none =>
      rw [splice_node _ hnode, splice_node _ hnode]
      exact .bind ih fun _ => .refl _
    | some request =>
      obtain ⟨m, rfl⟩ := Node.import?_eq_some_iff.1 hnode
      refine .bind (agrees_resolve hload unit m.token.position request) fun found => ?_
      cases found with
      | some program => exact .bind (.refl _) fun _ => .bind ih fun _ => .refl _
      | none => exact .bind ih fun _ => .refl _

theorem agrees_linkText (unit : SourceUnit) (source : String) :
    Agrees (linkText fs library load unit source) (linkText fs library load' unit source) :=
  .bind (.refl _) fun _ => .bind (.refl _) fun _ => .bind (.refl _) fun _ =>
    .bind (agrees_splice hload unit _) fun _ => .refl _

end Fuel

/-- A file that is not being read yet finds some fuel left. -/
theorem exists_fuel {fuel : Nat} (opened : OpenFiles fs) {path : Path} (hnew : path ∉ opened.paths)
    (hpath : fs.isSource path = true)
    (hfuel : fs.entries.length < fuel + opened.paths.length ∨
      fs.files.length ≤ fuel + opened.paths.length) : ∃ rest, fuel = rest + 1 := by
  have hle := opened.length_le
  have hlt := opened.length_lt hnew hpath
  exact Nat.exists_eq_add_one.2 (by omega)

/-- **Linking needs fuel for each file once.** -/
theorem agrees_linkFile {fuel : Nat} (opened : OpenFiles fs) {path : Path} (origin : Origin)
    (hpath : fs.isSource path = true)
    (hfuel : fs.entries.length < fuel + opened.paths.length ∨
      fs.files.length ≤ fuel + opened.paths.length) :
    Agrees (linkDistinct fs library opened path origin) (linkFile fs library fuel path origin) := by
  fun_induction linkDistinct fs library opened path origin generalizing fuel with
  | case1 => exact fun l => .inl ⟨l, rfl⟩
  | case2 opened path origin hnew fault hread =>
    obtain ⟨fuel, rfl⟩ := exists_fuel opened hnew hpath hfuel
    rw [linkFile, hread]
    exact .refl _
  | case3 opened path origin hnew source hread ih =>
    obtain ⟨fuel, rfl⟩ := exists_fuel opened hnew hpath hfuel
    rw [linkFile, hread]
    refine agrees_linkText (fun q o hq => ih q o hq ?_) _ source
    rw [OpenFiles.push, List.length_cons]
    omega

/-! ## Whole programs -/

/-- Links what linking starts from, where `load` links files. -/
def Start.linkBy (fs : FileSystem) (library : String)
    (load : Path → Origin → Linking (Program NodeId)) : Start → Linking (Program NodeId)
  | .file path => do
    let program ← load path .user
    Action.change fun l => { l with loaded := path :: l.loaded }
    return program
  | .text unit source => linkText fs library load unit source

theorem Start.link_eq (start : Start) :
    start.link fs library = start.linkBy fs library (linkFile fs library (fuelFor fs)) := by
  cases start <;> rfl

theorem meets_linkBy_linkDistinct (start : Start) {l : Linker}
    (hacyclic : l.graph.isCircular = false) :
    Meets (start.linkBy fs library (linkDistinct fs library .none)) l (fun _ _ => True)
      fun e _ => e ≠ .exhausted := by
  have hload : ∀ path origin l', Advanced l l' →
      Meets (linkDistinct fs library .none path origin) l' (fun _ l'' => Advanced l' l'')
        fun e _ => e ≠ .exhausted := fun path origin l' hl' =>
    meets_linkDistinct .none path origin hl'.acyclic ⟨.singleton path, List.nil_subset _⟩
  cases start with
  | file path =>
    exact Meets.bind ((hload path .user l ⟨hacyclic, .refl l⟩).mono (fun _ _ _ => trivial)
      fun _ _ he => he)
  | text unit source =>
    exact (meets_linkText_advanced (fun path origin l' hl' _ => hload path origin l' hl') hacyclic).mono
      (fun _ _ _ => trivial) fun _ _ he => he

/-- A file from which linking starts need not be there. -/
theorem agrees_linkFile_first {fuel : Nat} (path : Path) (origin : Origin) (hpositive : 0 < fuel)
    (hfuel : fs.entries.length < fuel ∨ fs.files.length ≤ fuel) :
    Agrees (linkDistinct fs library .none path origin) (linkFile fs library fuel path origin) := by
  by_cases hpath : fs.isSource path = true
  · exact agrees_linkFile .none origin hpath hfuel
  · obtain ⟨fuel, rfl⟩ := Nat.exists_eq_add_one.2 hpositive
    have hunreadable : ∀ source, fs.read path ≠ .ok source := fun source hread =>
      hpath (FileSystem.isSource_of_read hread)
    rw [linkDistinct, linkFile]
    split
    · next hopen => exact absurd hopen List.not_mem_nil
    · split
      · next hread =>
        rw [hread]
        exact .refl _
      · next source hread => exact absurd hread (hunreadable source)

theorem agrees_linkBy (start : Start) {fuel : Nat} (hentry : ∀ path, start = .file path → 0 < fuel)
    (hfuel : fs.entries.length < fuel ∨ fs.files.length ≤ fuel) :
    Agrees (start.linkBy fs library (linkDistinct fs library .none))
      (start.linkBy fs library (linkFile fs library fuel)) := by
  cases start with
  | file path => exact .bind (agrees_linkFile_first path .user (hentry path rfl) hfuel) fun _ => .refl _
  | text unit source =>
    exact agrees_linkText (fun path origin hpath => agrees_linkFile .none origin hpath hfuel) unit
      source

/-- **Linking ends**, whatever the files are and whatever was linked before: without fuel it does what
it does with the fuel that it is given, and does not come to read a file that is being read. No more
files are read inside each other than there are, so fuel for that many is as good as any; the entry
takes one also if it is not there. -/
theorem link_ends (fs : FileSystem) (library : String) (start : Start) (scopes : ScopeTable)
    (log : FileLog) (loaded : List Path) (nextId : NodeId) :
    let l : Linker := { graph := { root := start.unit.key }, scopes, log, loaded, nextId }
    let unfueled := start.linkBy fs library (linkDistinct fs library .none)
    (start.link fs library).run l = unfueled.run l ∧
    (∀ l', unfueled.run l ≠ .stopped .exhausted l') ∧
    ∀ fuel, (∀ path, start = .file path → 0 < fuel) → fs.files.length ≤ fuel →
      (start.linkBy fs library (linkFile fs library fuel)).run l = unfueled.run l := by
  intro l unfueled
  have hacyclic : l.graph.isCircular = false := (tracked_fresh fs library [] log nextId).acyclic
  have hends : ∀ l', unfueled.run l ≠ .stopped .exhausted l' := fun l' hstop =>
    (meets_linkBy_linkDistinct start hacyclic).of_stopped hstop rfl
  have hagrees : ∀ {fuel}, (∀ path, start = .file path → 0 < fuel) → fs.entries.length < fuel ∨ fs.files.length ≤ fuel →
      (start.linkBy fs library (linkFile fs library fuel)).run l = unfueled.run l :=
    fun hentry hfuel =>
      (agrees_linkBy start hentry hfuel l).resolve_left fun ⟨l', hstop⟩ => hends l' hstop
  refine ⟨?_, hends, fun fuel hentry hfuel => hagrees hentry (.inr hfuel)⟩
  rw [start.link_eq]
  exact hagrees (fun _ _ => Nat.succ_pos _) (.inl (Nat.lt_succ_self _))

/-- Three files, the second and the third of which import each other, need fuel for three. -/
theorem link_ends_entangled :
    let l : Linker := freshLinker ["main.twl"] {} 0
    let linkWith := fun fuel =>
      Start.linkBy entangled "lib" (linkFile entangled "lib" fuel) (.file ["main.twl"])
    entangled.files.length = 3 ∧
      (linkWith 3).run l = (Start.link entangled "lib" (.file ["main.twl"])).run l ∧
      ∃ l', (linkWith 2).run l = .stopped .exhausted l' := by
  intro l linkWith
  have hfiles : entangled.files.length = 3 := by decide +kernel
  obtain ⟨hsame, -, hfuel⟩ :=
    link_ends entangled "lib" (.file ["main.twl"]) {} {} [] 0
  have hshort : (match (linkWith 2).run l with | .stopped .exhausted _ => true | _ => false) =
      true := by decide +kernel
  refine ⟨hfiles, (hfuel 3 (fun _ _ => by decide) (Nat.le_of_eq hfiles)).trans hsame.symm, ?_⟩
  split at hshort
  · next l' hrun => exact ⟨l', hrun⟩
  · cases hshort

end Linking

end Catena

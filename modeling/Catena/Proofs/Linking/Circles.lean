import Catena.Proofs.Dependency
import Catena.Proofs.FileSystem
import Catena.Proofs.Linking.Steps
import Mathlib.Data.List.Chain
import Mathlib.Data.List.Nodup

/-!
# Circular imports are found exactly

Linking records an import and looks for circles before it goes on to the imported file, and it never
reads a file twice. While it runs (`Tracked`)

* every recorded edge stands for an import of a file that is reached from the entry, so what it
  reports is a circle of imports;
* every file that has been linked is settled: all its imports are recorded and lead to files that
  have been linked, so that in the end no import of a reached file is missing from the graph;
* the files that are being read form a chain of recorded edges. In a graph without circles a chain
  has no file twice, and so there are no more of them than there are files: fuel never runs out.

So linking stops for a circle exactly if imports below the entry go in one.
-/

namespace Catena.Linking

open Relation DependencyGraph

section Graph

variable (fs : FileSystem) (library : String)

/-- A file, read for some origin, imports another. -/
def Imports (i j : Path × Origin) : Prop :=
  ∃ request ∈ requests fs i.1, LeadsTo fs library (.ofFile i.1 i.2) request j

/-- A file is reached from the entry through imports. -/
def Reached (entry : Path) (i : Path × Origin) : Prop :=
  ReflTransGen (Imports fs library) (entry, .user) i

/-- The import graph below an entry: a file that is reached imports another. -/
def Edge (entry p q : Path) : Prop :=
  ∃ o o', Reached fs library entry (p, o) ∧ Imports fs library (p, o) (q, o')

/-- Imports below the entry go in a circle. -/
def Circle (entry : Path) : Prop :=
  ∃ p, TransGen (Edge fs library entry) p p

/-- All files below the entry are there and in order, and each of them is always imported in the
same way, by its path or as a library module. -/
structure Linkable (entry : Path) : Prop where
  intact : ∀ i, Reached fs library entry i → Intact fs i.1
  found : ∀ i, Reached fs library entry i → ∀ request ∈ requests fs i.1, request.isExternal →
    ∃ q, fs.canonical i.1.parent request.source = .ok q
  uniform : ∀ i j q o o', Reached fs library entry i → Reached fs library entry j →
    Imports fs library i (q, o) → Imports fs library j (q, o') → o = o'

end Graph

variable {fs : FileSystem} {library : String} {entry : Path}

/-! ## Files by their text -/

theorem LeadsTo.proper {unit : SourceUnit} {request : Import} {j : Path × Origin}
    (hdir : fs.workingDirectory.Proper) (hunit : unit.directory.Proper)
    (h : LeadsTo fs library unit request j) : j.1.Proper := by
  cases h with
  | byPath _ found => exact FileSystem.canonical_proper hunit found
  | asModule _ _ _ found => exact FileSystem.canonical_proper hdir found

theorem Reached.proper (hdir : fs.workingDirectory.Proper) (hentry : entry.Proper)
    {i : Path × Origin} (h : Reached fs library entry i) : i.1.Proper := by
  induction h with
  | refl => exact hentry
  | tail _ himports ih =>
    obtain ⟨request, -, hleads⟩ := himports
    exact hleads.proper hdir ih.parent

/-- A file that is reached and not the entry is below it in the graph. -/
theorem Reached.reflTransGen_edge {i : Path × Origin} (h : Reached fs library entry i) :
    ReflTransGen (Edge fs library entry) entry i.1 := by
  induction h with
  | refl => exact .refl
  | tail hreached himports ih => exact ih.tail ⟨_, _, hreached, himports⟩

/-- Recorded edges stand for imports. -/
def Real (fs : FileSystem) (library : String) (entry : Path) (edges : List Dependency) : Prop :=
  ∀ a b, Leads edges a b → ∃ p q, a = p.text ∧ b = q.text ∧ Edge fs library entry p q

/-- A way along recorded edges is a way through imports. -/
theorem Real.transGen {edges : List Dependency} (h : Real fs library entry edges)
    (hdir : fs.workingDirectory.Proper) (hentry : entry.Proper) {a b : String}
    (hab : TransGen (Leads edges) a b) :
    ∃ p q, p.Proper ∧ q.Proper ∧ a = p.text ∧ b = q.text ∧
      TransGen (Edge fs library entry) p q := by
  have ends : ∀ {p q}, Edge fs library entry p q → p.Proper ∧ q.Proper := by
    rintro p q ⟨o, o', hreached, himports⟩
    exact ⟨hreached.proper hdir hentry, Reached.proper hdir hentry (hreached.tail himports)⟩
  induction hab with
  | single hab =>
    obtain ⟨p, q, rfl, rfl, hedge⟩ := h _ _ hab
    exact ⟨p, q, (ends hedge).1, (ends hedge).2, rfl, rfl, .single hedge⟩
  | tail _ hbc ih =>
    obtain ⟨p, q, hp, hq, rfl, hb, hpq⟩ := ih
    obtain ⟨q', r, hb', rfl, hedge⟩ := h _ _ hbc
    obtain rfl : q = q' := hq.text_inj (ends hedge).1 (hb ▸ hb')
    exact ⟨p, r, hp, (ends hedge).2, rfl, rfl, hpq.tail hedge⟩

theorem Real.circle {edges : List Dependency} (h : Real fs library entry edges)
    (hdir : fs.workingDirectory.Proper) (hentry : entry.Proper) (hcyclic : Cyclic edges) :
    Circle fs library entry := by
  obtain ⟨a, ha⟩ := hcyclic
  obtain ⟨p, q, hp, hq, rfl, htext, hpq⟩ := h.transGen hdir hentry ha
  obtain rfl := hp.text_inj hq htext
  exact ⟨p, hpq⟩

/-! ## What linking keeps -/

/-- An import of a file is recorded and leads to a file that has been linked, if it leads to any. -/
def Handled (fs : FileSystem) (library : String) (l : Linker) (i : Path × Origin)
    (request : Import) : Prop :=
  ∀ j, LeadsTo fs library (.ofFile i.1 i.2) request j →
    Leads l.graph.edges i.1.text j.1.text ∧ j.1 ∈ l.loaded

/-- All imports of a file are handled. -/
def Settled (fs : FileSystem) (library : String) (l : Linker) (i : Path × Origin) : Prop :=
  ∀ request ∈ requests fs i.1, Handled fs library l i request

/-- What holds of the linker all along (see the module docstring). -/
structure Tracked (fs : FileSystem) (library : String) (entry : Path) (l : Linker) : Prop where
  root : l.graph.root = entry.text
  acyclic : l.graph.isCircular = false
  real : Real fs library entry l.graph.edges
  settled : ∀ q ∈ l.loaded, ∃ i o, Reached fs library entry i ∧ Imports fs library i (q, o) ∧
    Settled fs library l (q, o)

/-- Imports and files are only ever added. -/
structure Grown (l l' : Linker) : Prop where
  edges : l.graph.edges ⊆ l'.graph.edges
  loaded : l.loaded ⊆ l'.loaded

theorem Grown.refl (l : Linker) : Grown l l :=
  ⟨List.Subset.refl _, List.Subset.refl _⟩

theorem Grown.trans {l l' l'' : Linker} (h : Grown l l') (k : Grown l' l'') : Grown l l'' :=
  ⟨List.Subset.trans h.edges k.edges, List.Subset.trans h.loaded k.loaded⟩

theorem Untouched.grown {l l' : Linker} (h : Untouched l l') : Grown l l' :=
  ⟨by rw [h.graph]; exact List.Subset.refl _, by rw [h.loaded]; exact List.Subset.refl _⟩

theorem Handled.mono {l l' : Linker} {i : Path × Origin} {request : Import}
    (h : Handled fs library l i request) (hgrown : Grown l l') : Handled fs library l' i request :=
  fun j hj => ⟨hgrown.edges (h j hj).1, hgrown.loaded (h j hj).2⟩

theorem Settled.mono {l l' : Linker} {i : Path × Origin} (h : Settled fs library l i)
    (hgrown : Grown l l') : Settled fs library l' i :=
  fun request hrequest => (h request hrequest).mono hgrown

theorem Tracked.of_untouched {l l' : Linker} (h : Tracked fs library entry l)
    (hl : Untouched l l') : Tracked fs library entry l' := by
  refine ⟨by rw [hl.graph, h.root], by rw [hl.graph, h.acyclic], by rw [hl.graph]; exact h.real, ?_⟩
  intro q hq
  rw [hl.loaded] at hq
  obtain ⟨i, o, hi, himports, hsettled⟩ := h.settled q hq
  exact ⟨i, o, hi, himports, hsettled.mono hl.grown⟩

/-- A file that is settled may be kept. -/
theorem Tracked.load {l : Linker} (h : Tracked fs library entry l) {i : Path × Origin} {q : Path}
    {o : Origin} (hi : Reached fs library entry i) (himports : Imports fs library i (q, o))
    (hsettled : Settled fs library l (q, o)) :
    Tracked fs library entry { l with loaded := q :: l.loaded } := by
  have grown : Grown l { l with loaded := q :: l.loaded } :=
    ⟨List.Subset.refl _, List.subset_cons_self _ _⟩
  refine ⟨h.root, h.acyclic, h.real, ?_⟩
  intro r hr
  rcases List.mem_cons.1 hr with rfl | hr
  · exact ⟨i, o, hi, himports, hsettled.mono grown⟩
  · obtain ⟨i, o, hi, himports, hsettled⟩ := h.settled r hr
    exact ⟨i, o, hi, himports, hsettled.mono grown⟩

/-- The graph after an import of a file that is not the root. -/
theorem connected_edges {unit : SourceUnit} {path : Path} {l : Linker}
    (h : (connected unit path l).graph.isCircular = false) :
    (connected unit path l).graph.edges = l.graph.edges ++ [(unit.key, path.text)] := by
  obtain ⟨hopen, -⟩ := not_isCircular_iff.1 h
  unfold connected DependencyGraph.add at hopen ⊢
  dsimp only at hopen ⊢
  split
  · next hclosed => rw [if_pos hclosed, hclosed] at hopen; cases hopen
  · next hclosed =>
    rw [if_neg hclosed] at hopen
    split
    · next hroot => rw [if_pos hroot] at hopen; cases hopen
    · rfl

theorem grown_connected {unit : SourceUnit} {path : Path} {l : Linker}
    (h : (connected unit path l).graph.isCircular = false) : Grown l (connected unit path l) :=
  ⟨by rw [connected_edges h]; exact List.subset_append_left _ _, List.Subset.refl _⟩

theorem leads_connected {unit : SourceUnit} {path : Path} {l : Linker}
    (h : (connected unit path l).graph.isCircular = false) :
    Leads (connected unit path l).graph.edges unit.key path.text := by
  unfold Leads
  rw [connected_edges h]
  simp

/-- Recording an import of a file that is reached keeps to the invariant if it closes no circle. -/
theorem Tracked.connected {l : Linker} (h : Tracked fs library entry l) {p : Path} {o : Origin}
    {j : Path × Origin} (hreached : Reached fs library entry (p, o))
    (himports : Imports fs library (p, o) j)
    (hacyclic : (connected (.ofFile p o) j.1 l).graph.isCircular = false) :
    Tracked fs library entry (connected (.ofFile p o) j.1 l) := by
  refine ⟨?_, hacyclic, ?_, ?_⟩
  · rw [← h.root]
    unfold Linking.connected DependencyGraph.add
    dsimp only
    split
    · rfl
    · split <;> rfl
  · intro a b hab
    unfold Leads at hab
    rw [connected_edges hacyclic, List.mem_append, List.mem_singleton] at hab
    rcases hab with hab | hab
    · exact h.real a b hab
    · cases hab
      exact ⟨p, j.1, rfl, rfl, o, j.2, hreached, himports⟩
  · intro q hq
    obtain ⟨i, o', hi, hi', hsettled⟩ := h.settled q hq
    exact ⟨i, o', hi, hi', hsettled.mono (grown_connected hacyclic)⟩

/-- What is reported as a circle is one. -/
theorem Tracked.circle {l : Linker} (h : Tracked fs library entry l)
    (hdir : fs.workingDirectory.Proper) (hentry : entry.Proper) {p : Path} {o : Origin}
    {j : Path × Origin} (hreached : Reached fs library entry (p, o))
    (himports : Imports fs library (p, o) j)
    (hcircular : (Linking.connected (.ofFile p o) j.1 l).graph.isCircular = true) :
    Circle fs library entry := by
  have hedge : Edge fs library entry p j.1 := ⟨o, j.2, hreached, himports⟩
  obtain ⟨hopen, hacyclic⟩ := not_isCircular_iff.1 h.acyclic
  rw [isCircular_iff] at hcircular
  unfold Linking.connected DependencyGraph.add at hcircular
  dsimp only at hcircular
  rw [if_neg (by simp [hopen])] at hcircular
  split at hcircular
  · next hroot =>
    -- the file is the entry, and the importer is below the entry
    have hj : j.1.Proper := Reached.proper hdir hentry (hreached.tail himports)
    have : j.1 = entry := hj.text_inj hentry ((eq_of_beq hroot).trans h.root)
    rw [this] at hedge
    exact ⟨entry, TransGen.tail' hreached.reflTransGen_edge hedge⟩
  · rcases hcircular with hclosed | hcyclic
    · exact absurd hclosed (by simp [hopen])
    · refine Real.circle ?_ hdir hentry hcyclic
      intro a b hab
      rcases List.mem_append.1 hab with hab | hab
      · exact h.real a b hab
      · cases List.mem_singleton.1 hab
        exact ⟨p, j.1, rfl, rfl, hedge⟩

/-! ## The files that are being read -/

/-- Files each of which is imported by the next, along recorded edges; all but the first are
there. -/
structure Opened (fs : FileSystem) (l : Linker) (path : Path) (others : List Path) : Prop where
  chain : (path :: others).IsChain fun q p => Leads l.graph.edges p.text q.text
  listed : others ⊆ fs.entries.map (·.1)

theorem Opened.mono {l l' : Linker} {path : Path} {others : List Path}
    (h : Opened fs l path others) (hgrown : Grown l l') : Opened fs l' path others :=
  ⟨h.chain.imp fun _ _ hlead => hgrown.edges hlead, h.listed⟩

/-- The next file to be read. -/
theorem Opened.next {l : Linker} {path next : Path} {others : List Path}
    (h : Opened fs l path others) (hlisted : path ∈ fs.entries.map (·.1))
    (hlead : Leads l.graph.edges path.text next.text) : Opened fs l next (path :: others) :=
  ⟨List.isChain_cons_cons.2 ⟨hlead, h.chain⟩, List.cons_subset.2 ⟨hlisted, h.listed⟩⟩

/-- In a graph without circles no file comes twice in a chain. -/
theorem Opened.nodup {l : Linker} {path : Path} {others : List Path}
    (h : Opened fs l path others) (hacyclic : l.graph.isCircular = false) :
    (path :: others).Nodup := by
  obtain ⟨-, hacyclic⟩ := not_isCircular_iff.1 hacyclic
  let above (q p : Path) : Prop := TransGen (Leads l.graph.edges) p.text q.text
  have : Trans above above above := ⟨fun hqp hpo => hpo.trans hqp⟩
  have ordered : (path :: others).Pairwise above :=
    List.isChain_iff_pairwise.1 (h.chain.imp fun _ _ hlead => TransGen.single hlead)
  refine ordered.imp ?_
  rintro q p hqp rfl
  exact hacyclic ⟨q.text, hqp⟩

/-- No more files are being read than there are. -/
theorem Opened.length_le {l : Linker} {path : Path} {others : List Path}
    (h : Opened fs l path others) (hacyclic : l.graph.isCircular = false) :
    others.length ≤ fs.entries.length := by
  have distinct : others.Nodup := (List.nodup_cons.1 (h.nodup hacyclic)).2
  simpa using (distinct.subperm h.listed).length_le

/-! ## Runs -/

/-- An import that asks for a file finds it. -/
theorem Linkable.canonical_ne_error (hlinkable : Linkable fs library entry) {p : Path}
    {o origin : Origin} {request : Import} {written : String} {base : Path} {fault : Fault}
    (hreached : Reached fs library entry (p, o)) (hrequest : request ∈ requests fs p)
    (hwanted : wanted? fs library (.ofFile p o) request = some ((written, base), origin)) :
    fs.canonical base written ≠ .error fault := by
  intro herror
  by_cases hext : request.isExternal
  · rw [wanted?_external hext] at hwanted
    cases hwanted
    obtain ⟨q, hq⟩ := hlinkable.found _ hreached request hrequest hext
    rw [show (SourceUnit.ofFile p o).directory = p.parent from rfl, hq] at herror
    cases herror
  · rw [wanted?_internal hext] at hwanted
    split at hwanted
    · next h =>
      cases hwanted
      obtain ⟨hfile, -⟩ := h
      unfold FileSystem.isFile at hfile
      rw [herror] at hfile
      cases hfile
    · cases hwanted

/-- A circle was reported, and there is one. -/
abbrev Found (fs : FileSystem) (library : String) (entry : Path) (e : RunError) : Prop :=
  e.IsCircular ∧ Circle fs library entry

section Run

variable (hdir : fs.workingDirectory.Proper) (hentry : entry.Proper)
  (hlinkable : Linkable fs library entry)

include hdir hentry hlinkable

section File

variable {load : Path → Origin → Linking (Program NodeId)} {p : Path} {o : Origin}
  {others : List Path} (hreached : Reached fs library entry (p, o))
  (hlisted : p ∈ fs.entries.map (·.1))
  (hload : ∀ q o' l, Reached fs library entry (q, o') → Tracked fs library entry l →
    Opened fs l q (p :: others) → Meets (load q o') l
      (fun _ l' => Tracked fs library entry l' ∧ Grown l l' ∧ Settled fs library l' (q, o'))
      fun e _ => Found fs library entry e)

include hreached hlisted hload

/-- Following an import handles it, if loading settles files. -/
theorem meets_resolve_handled {position : Position} {request : Import}
    (hrequest : request ∈ requests fs p) {l : Linker} (hl : Tracked fs library entry l)
    (hopened : Opened fs l p others) :
    Meets (resolve fs library load (.ofFile p o) position request) l
      (fun _ l' => Tracked fs library entry l' ∧ Grown l l' ∧
        Handled fs library l' (p, o) request)
      fun e _ => Found fs library entry e := by
  have imports : ∀ {j}, LeadsTo fs library (.ofFile p o) request j →
      Imports fs library (p, o) j := fun hj => ⟨request, hrequest, hj⟩
  refine meets_resolve ?alone ?missing ?circle ?known ?fresh
  case alone =>
    intro hnone
    refine ⟨hl, Grown.refl l, fun j hj => ?_⟩
    rw [← target?_eq_some_iff_leadsTo, target?, hnone] at hj
    cases hj
  case missing =>
    intro written base origin fault hwanted herror
    exact absurd herror (hlinkable.canonical_ne_error hreached hrequest hwanted)
  case circle =>
    intro path origin htarget hcircular e _ he _
    rw [target?_eq_some_iff_leadsTo] at htarget
    exact ⟨he, hl.circle hdir hentry hreached (imports htarget) hcircular⟩
  case known =>
    intro path origin htarget hacyclic hknown
    rw [target?_eq_some_iff_leadsTo] at htarget
    refine ⟨hl.connected hreached (imports htarget) hacyclic, grown_connected hacyclic, ?_⟩
    intro j hj
    rw [hj.unique htarget]
    exact ⟨leads_connected hacyclic, hknown⟩
  case fresh =>
    intro path origin htarget hacyclic _
    rw [target?_eq_some_iff_leadsTo] at htarget
    have htracked := hl.connected hreached (imports htarget) hacyclic
    have hnext := (hopened.mono (grown_connected hacyclic)).next hlisted (leads_connected hacyclic)
    refine (hload path origin _ (hreached.tail (imports htarget)) htracked hnext).mono ?_
      fun _ _ he => he
    rintro program l' ⟨hl', hgrown, hsettled⟩
    have kept : Grown l' { l' with loaded := path :: l'.loaded } :=
      ⟨List.Subset.refl _, List.subset_cons_self _ _⟩
    refine ⟨hl'.load hreached (imports htarget) hsettled,
      (grown_connected hacyclic).trans (hgrown.trans kept), fun j hj => ?_⟩
    rw [hj.unique htarget]
    exact ⟨hgrown.edges (leads_connected hacyclic), List.mem_cons_self⟩

/-- Splicing handles the imports that it passes, if loading settles files. -/
theorem meets_splice_handled {nodes : Code}
    (hnodes : nodes.filterMap Node.import? ⊆ requests fs p) {l : Linker}
    (hl : Tracked fs library entry l) (hopened : Opened fs l p others) :
    Meets (splice (resolve fs library load (.ofFile p o)) nodes) l
      (fun _ l' => Tracked fs library entry l' ∧ Grown l l' ∧
        ∀ request ∈ nodes.filterMap Node.import?, Handled fs library l' (p, o) request)
      fun e _ => Found fs library entry e := by
  induction nodes generalizing l with
  | nil => exact ⟨hl, Grown.refl l, fun _ h => nomatch h⟩
  | cons node rest ih =>
    cases hnode : node.import? with
    | none =>
      rw [List.filterMap_cons, hnode] at hnodes ⊢
      exact meets_splice_node hnode (ih hnodes hl hopened)
    | some request =>
      rw [List.filterMap_cons, hnode] at hnodes ⊢
      obtain ⟨hrequest, hrest⟩ := List.cons_subset.1 hnodes
      obtain ⟨m, rfl⟩ := Node.import?_eq_some_iff.1 hnode
      refine meets_splice_importing ((meets_resolve_handled hdir hentry hlinkable hreached hlisted
        hload hrequest hl hopened).mono ?_ fun _ _ he => he)
      rintro found l₁ ⟨hl₁, hgrown₁, hhere⟩ id l₂ hl₂
      have hgrown₂ : Grown l l₂ := hgrown₁.trans hl₂.grown
      refine (ih hrest (hl₁.of_untouched hl₂) (hopened.mono hgrown₂)).mono ?_ fun _ _ he => he
      rintro _ l' ⟨hl', hgrown', hthere⟩
      exact ⟨hl', hgrown₂.trans hgrown',
        List.forall_mem_cons.2 ⟨hhere.mono (hl₂.grown.trans hgrown'), hthere⟩⟩

end File

/-- **Linking a file settles it or finds a circle**, and fuel does not run out. -/
theorem meets_linkFile_settled (fuel : Nat) {p : Path} {o : Origin} {others : List Path}
    {l : Linker} (hreached : Reached fs library entry (p, o)) (hl : Tracked fs library entry l)
    (hopened : Opened fs l p others) (hfuel : fs.entries.length + 1 ≤ fuel + others.length) :
    Meets (linkFile fs library fuel p o) l
      (fun _ l' => Tracked fs library entry l' ∧ Grown l l' ∧ Settled fs library l' (p, o))
      fun e _ => Found fs library entry e := by
  induction fuel generalizing p o others l with
  | zero =>
    have := hopened.length_le hl.acyclic
    omega
  | succ fuel ih =>
    obtain ⟨source, hread, hprogram⟩ := hlinkable.intact _ hreached
    have hlisted := FileSystem.mem_entries_of_read hread
    unfold linkFile
    rw [hread]
    refine meets_linkText (fun program n l₁ hsource hl₁ => ?_)
      fun hnone => by simp [hnone] at hprogram
    have himports : (Node.numberAll n program.nodes).1.filterMap Node.import? = requests fs p := by
      rw [requests_eq hread hsource, Node.filterMap_import?_numberAll]
      rfl
    refine (meets_splice_handled hdir hentry hlinkable hreached hlisted ?_
      (himports ▸ List.Subset.refl _) (hl.of_untouched hl₁) (hopened.mono hl₁.grown)).mono ?_
      fun _ _ he => he
    · intro q o' l' hq hl' hopened'
      refine ih hq hl' hopened' ?_
      rw [List.length_cons]
      omega
    · rintro nodes l₂ ⟨hl₂, hgrown₂, hhandled⟩ l' hl'
      rw [himports] at hhandled
      exact ⟨hl₂.of_untouched hl', hl₁.grown.trans (hgrown₂.trans hl'.grown),
        Settled.mono hhandled hl'.grown⟩

end Run

/-- When the entry is settled, every import below it is recorded, and so none is part of a circle. -/
theorem not_circle_of_settled (hlinkable : Linkable fs library entry) {l : Linker}
    (hl : Tracked fs library entry l) (hsettled : Settled fs library l (entry, .user)) :
    ¬Circle fs library entry := by
  -- a file below the entry is the entry itself, or has been linked in the way it is imported
  have settled : ∀ i, Reached fs library entry i → Settled fs library l i := by
    intro i hi
    induction hi with
    | refl => exact hsettled
    | tail hreached himports ih =>
      obtain ⟨request, hrequest, hleads⟩ := himports
      obtain ⟨-, hloaded⟩ := ih request hrequest _ hleads
      obtain ⟨i', o', hi', himports', hsettled'⟩ := hl.settled _ hloaded
      have same := hlinkable.uniform _ _ _ _ _ hi' hreached himports' ⟨request, hrequest, hleads⟩
      rw [same] at hsettled'
      exact hsettled'
  have recorded : ∀ p q, Edge fs library entry p q → Leads l.graph.edges p.text q.text := by
    rintro p q ⟨o, o', hreached, request, hrequest, hleads⟩
    exact (settled _ hreached request hrequest _ hleads).1
  rintro ⟨p, hp⟩
  exact (not_isCircular_iff.1 hl.acyclic).2 ⟨p.text, hp.lift Path.text recorded⟩

/-- A linker that starts from an entry and knows of nothing else. -/
def freshLinker (entry : Path) (log : FileLog) (nextId : NodeId) : Linker :=
  { graph := { root := entry.text }, log, loaded := [], nextId }

theorem tracked_fresh (fs : FileSystem) (library : String) (entry : Path) (log : FileLog)
    (nextId : NodeId) : Tracked fs library entry (freshLinker entry log nextId) where
  root := rfl
  acyclic := by
    refine not_isCircular_iff.2 ⟨rfl, ?_⟩
    rintro ⟨a, ha⟩
    obtain ⟨b, hb⟩ := exists_leads_of_transGen ha
    exact List.not_mem_nil hb
  real _ _ h := absurd h List.not_mem_nil
  settled _ h := absurd h List.not_mem_nil

/-- The files that a file imports, each with whom it is read for. -/
def targets (fs : FileSystem) (library : String) (i : Path × Origin) : List (Path × Origin) :=
  (requests fs i.1).filterMap (target? fs library (.ofFile i.1 i.2))

theorem imports_iff_mem_targets {i j : Path × Origin} :
    Imports fs library i j ↔ j ∈ targets fs library i := by
  unfold Imports targets
  simp only [List.mem_filterMap, target?_eq_some_iff_leadsTo]

/-- The entry imports a file, and that file and another import each other. -/
def entangled : FileSystem where
  workingDirectory := []
  entries :=
    [(["main.twl"], .file "import \"a.twl\"".toUTF8.toList),
      (["a.twl"], .file "import \"b.twl\"".toUTF8.toList),
      (["b.twl"], .file "import \"a.twl\"".toUTF8.toList)]

/-- The files as they are read. -/
def entangledFiles : List (Path × Origin) :=
  [(["main.twl"], .user), (["a.twl"], .user), (["b.twl"], .user)]

theorem reached_entangled {i : Path × Origin}
    (h : Reached entangled "lib" ["main.twl"] i) : i ∈ entangledFiles := by
  have closed : ∀ i ∈ entangledFiles, ∀ j ∈ targets entangled "lib" i, j ∈ entangledFiles := by
    decide +kernel
  induction h with
  | refl => decide
  | tail _ himports ih => exact closed _ ih _ (imports_iff_mem_targets.1 himports)

theorem linkable_entangled : Linkable entangled "lib" ["main.twl"] where
  intact i hi := by
    have intact : ∀ i ∈ entangledFiles,
        (entangled.read i.1).toOption.any fun source => (program? source).isSome := by
      decide +kernel
    have h := intact i (reached_entangled hi)
    cases hread : entangled.read i.1 with
    | error fault => rw [hread] at h; cases h
    | ok source => rw [hread] at h; exact ⟨source, hread, h⟩
  found i hi request hrequest _ := by
    have found : ∀ i ∈ entangledFiles, ∀ request ∈ requests entangled i.1,
        (entangled.canonical i.1.parent request.source).toOption.isSome := by
      decide +kernel
    have h := found i (reached_entangled hi) request hrequest
    cases hpath : entangled.canonical i.1.parent request.source with
    | error fault => rw [hpath] at h; cases h
    | ok q => exact ⟨q, rfl⟩
  uniform i j q o o' hi hj himports himports' := by
    have user : ∀ {i}, Reached entangled "lib" ["main.twl"] i → i.2 = .user := by
      intro i hi
      have all : ∀ i ∈ entangledFiles, i.2 = .user := by decide
      exact all i (reached_entangled hi)
    exact (user (hi.tail himports)).trans (user (hj.tail himports')).symm

end Catena.Linking

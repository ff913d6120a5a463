import Catena.Proofs.Dependency
import Catena.Proofs.Linking.Keys

/-!
# The plan of a linked program

What linking makes of a text is described by what will happen when it runs: imports are asked for,
and files are offered, each once, before the import that made linking read it (`Event`). `Linked`
relates the requests of a text to the code that linking gives and to the events of that code; it
depends on the state of linking only through the files that are there already.

The main results are that each file is offered once (`Linked.nodup`), and `meets_linkFile_linked`: a
successful run of linking gives linked code, and however linking ends, it is for no reason of a run
and the files that it remembers are closed under imports (`Closed`).
-/

namespace Catena.Linking

/-- Who imports: a file, or the text that linking starts from. -/
abbrev Importer := Option (Path × Origin)

/-- The unit of an importer, where `top` is that of the text that linking starts from. -/
def Importer.unit (top : SourceUnit) : Importer → SourceUnit
  | none => top
  | some i => .ofFile i.1 i.2

/-- What happens when linked code runs. -/
inductive Event
  /-- An import is carried out. -/
  | asks (importer : Importer) (request : Import)
  /-- The public members of a file become available. -/
  | offers (file : Path × Origin)

/-- The file that an event offers. -/
def Event.offer? : Event → Option (Path × Origin)
  | .asks _ _ => none
  | .offers file => some file

/-- The files that events offer, the latest first. -/
def offered (events : List Event) : List (Path × Origin) :=
  (events.filterMap Event.offer?).reverse

@[simp] theorem offered_nil : offered [] = [] := rfl

@[simp] theorem offered_append (es es' : List Event) :
    offered (es ++ es') = offered es' ++ offered es := by
  simp [offered]

@[simp] theorem offered_asks (i : Importer) (request : Import) (es : List Event) :
    offered (.asks i request :: es) = offered es := rfl

@[simp] theorem offered_offers (j : Path × Origin) (es : List Event) :
    offered (.offers j :: es) = offered es ++ [j] := by
  simp [offered, Event.offer?]

theorem mem_offered {es : List Event} {j : Path × Origin} :
    j ∈ offered es ↔ .offers j ∈ es := by
  induction es with
  | nil => simp
  | cons e es ih =>
    cases e with
    | asks i request => simp [ih]
    | offers k => simp [ih, or_comm]

/-- What is known of the module that a file becomes. -/
def moduleInfo (j : Path × Origin) : ProgramInfo :=
  { (SourceUnit.ofFile j.1 j.2).info with isRoot := false }

/-- The files that are there after some events, the latest first. -/
def after (es : List Event) (there : List Path) : List Path :=
  (offered es).map (·.1) ++ there

/-- `Linked fs library top i there requests code es`: where the files `there` are known already,
linking the requests of the importer `i`, in order and with plain code after them, gives `code`, and
`es` is what happens when `code` runs to its end. -/
inductive Linked (fs : FileSystem) (library : String) (top : SourceUnit) :
    Importer → List Path → List Import → Code → List Event → Prop
  | plain {i there code} (plain : Node.AllIn Node.Plain code) :
    Linked fs library top i there [] code []
  /-- The import asks for no file, or for one that is there. -/
  | known {i : Importer} {there request requests m code es} (proper : request.Proper)
    (found : request.isExternal → ∃ j, LeadsTo fs library (i.unit top) request j)
    (there_of : ∀ j, LeadsTo fs library (i.unit top) request j → j.1 ∈ there)
    (rest : Linked fs library top i there requests code es) :
    Linked fs library top i there (request :: requests) (.importing m request :: code)
      (.asks i request :: es)
  /-- The import asks for a file that is not there yet, and so the file comes first. -/
  | fresh {i : Importer} {there j request requests m m' body inner code es} (proper : request.Proper)
    (leads : LeadsTo fs library (i.unit top) request j) (new : j.1 ∉ there)
    (apart : ∀ k, i = some k → j.1 ≠ k.1)
    (file : Linked fs library top (some j) there (Linking.requests fs j.1) body inner)
    (rest : Linked fs library top i (j.1 :: after inner there) requests code es) :
    Linked fs library top i there (request :: requests)
      (.program m' (moduleInfo j) body :: .importing m request :: code)
      (inner ++ .offers j :: .asks i request :: es)

variable {fs : FileSystem} {library : String} {top : SourceUnit}

/-! ## Files that are remembered -/

/-- Everything that a file imports, whomever it is read for, is there if the file is. -/
def Closed (fs : FileSystem) (library : String) (there : List Path) : Prop :=
  ∀ p ∈ there, ∀ o, ∀ request ∈ requests fs p, ∀ j,
    LeadsTo fs library (.ofFile p o) request j → j.1 ∈ there

/-- A file imports the same for the user and as a library module, but for a library module's import
of itself. -/
theorem LeadsTo.for_other {p : Path} {o o' : Origin} {request : Import} {j : Path × Origin}
    (hown : o' = .internal → fs.canonical fs.workingDirectory
      (libraryPlace library (SourceUnit.ofFile p .internal).name) = .ok p)
    (h : LeadsTo fs library (.ofFile p o) request j) :
    j.1 = p ∨ LeadsTo fs library (.ofFile p o') request j := by
  cases h with
  | byPath external found => exact Or.inr (.byPath external found)
  | asModule bare _ there found =>
    cases o' with
    | user => exact Or.inr (.asModule bare (fun h => nomatch h.1) there found)
    | internal =>
      by_cases hname : (SourceUnit.ofFile p .internal).name = request.source
      · have hown := hown rfl
        rw [hname, found] at hown
        exact Or.inl (Except.ok.inj hown)
      · exact Or.inr (.asModule bare (fun h => hname h.2) there found)

/-- A file all of whose imports are there may be kept. -/
theorem Closed.cons {there : List Path} (h : Closed fs library there) {j : Path × Origin}
    (hown : j.2 = .internal → fs.canonical fs.workingDirectory
      (libraryPlace library (SourceUnit.ofFile j.1 .internal).name) = .ok j.1)
    (hj : ∀ request ∈ requests fs j.1, ∀ k, LeadsTo fs library (.ofFile j.1 j.2) request k →
      k.1 ∈ there) : Closed fs library (j.1 :: there) := by
  intro p hp o request hrequest k hk
  rcases List.mem_cons.1 hp with rfl | hp
  · rcases hk.for_other hown with hself | hk
    · exact hself ▸ List.mem_cons_self
    · exact List.mem_cons_of_mem _ (hj request hrequest k hk)
  · exact List.mem_cons_of_mem _ (h p hp o request hrequest k hk)

theorem mem_after_iff {es : List Event} {there : List Path} {p : Path} :
    p ∈ after es there ↔ (∃ j ∈ offered es, j.1 = p) ∨ p ∈ there := by
  simp [after, List.mem_append, List.mem_map]

theorem after_fresh (inner : List Event) (j : Path × Origin) (i : Importer) (request : Import)
    (es : List Event) (there : List Path) :
    after (inner ++ .offers j :: .asks i request :: es) there =
      after es (j.1 :: after inner there) := by
  simp [after]

/-- Everything that is asked for is there in the end. -/
theorem Linked.mem_after {i : Importer} {there : List Path} {requests : List Import} {code : Code}
    {es : List Event} (h : Linked fs library top i there requests code es) {request : Import}
    (hrequest : request ∈ requests) {j : Path × Origin}
    (hj : LeadsTo fs library (i.unit top) request j) : j.1 ∈ after es there := by
  induction h with
  | plain => cases hrequest
  | known _ _ there_of _ ih =>
    rcases List.mem_cons.1 hrequest with rfl | hrequest
    · exact List.mem_append_right _ (there_of j hj)
    · exact ih hrequest hj
  | fresh _ leads _ _ _ _ _ ih =>
    rw [after_fresh]
    rcases List.mem_cons.1 hrequest with rfl | hrequest
    · rw [hj.unique leads]
      exact List.mem_append_right _ List.mem_cons_self
    · exact ih hrequest hj

/-- Every import that is asked for is one of the importer's. -/
theorem Linked.mem_requests {i : Importer} {there : List Path} {requests : List Import}
    {code : Code} {es : List Event} (h : Linked fs library top i there requests code es)
    {k : Importer} {request : Import} (hmem : .asks k request ∈ es) :
    (k = i ∧ request ∈ requests) ∨ ∃ j, k = some j ∧ request ∈ Linking.requests fs j.1 := by
  induction h with
  | plain => cases hmem
  | known _ _ _ _ ih =>
    rcases List.mem_cons.1 hmem with heq | hmem
    · cases heq
      exact Or.inl ⟨rfl, List.mem_cons_self⟩
    · exact (ih hmem).imp_left (And.imp_right (List.mem_cons_of_mem _))
  | @fresh i there j request' requests m m' body inner code es _ _ _ _ _ _ ihfile ihrest =>
    rcases List.mem_append.1 hmem with hinner | hmem
    · rcases ihfile hinner with ⟨rfl, hrequest⟩ | hfile
      · exact Or.inr ⟨j, rfl, hrequest⟩
      · exact Or.inr hfile
    · rcases List.mem_cons.1 hmem with heq | hmem
      · cases heq
      · rcases List.mem_cons.1 hmem with heq | hmem
        · cases heq
          exact Or.inl ⟨rfl, List.mem_cons_self⟩
        · exact (ihrest hmem).imp_left (And.imp_right (List.mem_cons_of_mem _))

/-- Every file that is offered is one that some import leads to. -/
theorem Linked.leads_of_offered {i : Importer} {there : List Path} {requests : List Import}
    {code : Code} {es : List Event} (h : Linked fs library top i there requests code es)
    {j : Path × Origin} (hj : j ∈ offered es) :
    ∃ unit request, Import.Proper request ∧ LeadsTo fs library unit request j := by
  induction h with
  | plain => cases hj
  | known _ _ _ _ ih => exact ih hj
  | fresh proper leads _ _ _ _ ihfile ihrest =>
    rw [offered_append, offered_offers, offered_asks] at hj
    rcases List.mem_append.1 hj with hj | hj
    · rcases List.mem_append.1 hj with hj | hj
      · exact ihrest hj
      · rw [List.mem_singleton.1 hj]
        exact ⟨_, _, proper, leads⟩
    · exact ihfile hj

/-! ## Each file once -/

/-- Where an offer stands in the events of an import that a file comes first for. -/
theorem offers_cases {inner es before more : List Event} {j p : Path × Origin} {i : Importer}
    {request : Import}
    (h : inner ++ .offers j :: .asks i request :: es = before ++ .offers p :: more) :
    (∃ more', inner = before ++ .offers p :: more') ∨ (before = inner ∧ p = j) ∨
      ∃ before', before = inner ++ .offers j :: .asks i request :: before' ∧
        es = before' ++ .offers p :: more := by
  rcases List.append_eq_append_iff.1 h with ⟨later, rfl, hlater⟩ | ⟨later, rfl, hlater⟩
  · match later, hlater with
    | [], hlater =>
      cases hlater
      exact Or.inr (Or.inl ⟨by simp, rfl⟩)
    | [e], hlater => cases hlater
    | e :: e' :: before', hlater =>
      cases hlater
      exact Or.inr (Or.inr ⟨before', rfl, rfl⟩)
  · cases later with
    | nil =>
      cases hlater
      exact Or.inr (Or.inl ⟨by simp, rfl⟩)
    | cons e later =>
      cases hlater
      exact Or.inl ⟨later, rfl⟩

/-- When a file is offered, everything that it imports is there. -/
theorem Linked.imports_there {i : Importer} {there : List Path} {requests : List Import}
    {code : Code} {es : List Event} (h : Linked fs library top i there requests code es)
    {before more : List Event} {p : Path × Origin} (hes : es = before ++ .offers p :: more)
    {request : Import} (hrequest : request ∈ Linking.requests fs p.1) {o : Origin}
    {k : Path × Origin} (hk : LeadsTo fs library (.ofFile p.1 o) request k) :
    k.1 = p.1 ∨ k.1 ∈ after before there := by
  induction h generalizing before more with
  | plain => simp at hes
  | known _ _ _ _ ih =>
    cases before with
    | nil => cases hes
    | cons e before =>
      have hrest := ih (List.cons.inj hes).2
      obtain rfl := (List.cons.inj hes).1
      exact hrest
  | @fresh i there j _ _ _ _ _ inner _ _ proper leads _ _ file _ ihfile ihrest =>
    rcases offers_cases hes with ⟨more', hinner⟩ | ⟨rfl, rfl⟩ | ⟨before', rfl, hrest⟩
    · exact ihfile hinner
    · refine (hk.for_other ?_).imp_right fun hk => file.mem_after hrequest hk
      intro hinternal
      obtain ⟨p, origin⟩ := p
      cases hinternal
      exact leads.canonical_own proper
    · rw [after_fresh]
      exact ihrest hrest

/-- Whenever a file is offered, the importer is waiting for some other file that is not there yet. -/
def Waits (fs : FileSystem) (library : String) (top : SourceUnit) (i : Importer)
    (there : List Path) (requests : List Import) (es : List Event) : Prop :=
  ∀ before p more, es = before ++ .offers p :: more →
    ∃ request ∈ requests, ∃ j, LeadsTo fs library (i.unit top) request j ∧
      j.1 ∉ after before there ∧ ∀ k, i = some k → j.1 ≠ k.1

/-- A file is not offered while it is linked itself: it would be waiting for a file that is there. -/
theorem Linked.not_mem_after_of_waits {j : Path × Origin} {there : List Path} {code : Code}
    {es : List Event} (h : Linked fs library top (some j) there (requests fs j.1) code es)
    (hwaits : Waits fs library top (some j) there (requests fs j.1) es) (hnew : j.1 ∉ there) :
    j.1 ∉ after es there := by
  intro hmem
  rcases mem_after_iff.1 hmem with ⟨k, hk, hpath⟩ | hmem
  · obtain ⟨before, more, hes⟩ := List.append_of_mem (mem_offered.1 hk)
    obtain ⟨request, hrequest, l, hl, hnot, hapart⟩ := hwaits before k more hes
    have hl : LeadsTo fs library (.ofFile j.1 j.2) request l := hl
    rw [← hpath] at hrequest hl
    rcases h.imports_there hes hrequest hl with hself | hthere
    · exact hapart j rfl (hself.trans hpath)
    · exact hnot hthere
  · exact hnew hmem

theorem Linked.waits {i : Importer} {there : List Path} {requests : List Import} {code : Code}
    {es : List Event} (h : Linked fs library top i there requests code es) :
    Waits fs library top i there requests es := by
  induction h with
  | plain =>
    intro before p more hes
    simp at hes
  | known _ _ _ _ ih =>
    intro before p more hes
    cases before with
    | nil => cases hes
    | cons e before =>
      obtain ⟨request, hrequest, rest⟩ := ih before p more (List.cons.inj hes).2
      obtain rfl := (List.cons.inj hes).1
      exact ⟨request, List.mem_cons_of_mem _ hrequest, rest⟩
  | @fresh i there j request _ _ _ _ inner _ _ _ leads new apart file _ ihfile ihrest =>
    have absent : ∀ before later, inner = before ++ later → j.1 ∉ after before there := by
      rintro before later rfl hmem
      refine file.not_mem_after_of_waits ihfile new (mem_after_iff.2 ?_)
      refine (mem_after_iff.1 hmem).imp_left fun ⟨k, hk, hpath⟩ => ⟨k, ?_, hpath⟩
      rw [offered_append]
      exact List.mem_append_right _ hk
    intro before p more hes
    rcases offers_cases hes with ⟨more', hinner⟩ | ⟨rfl, rfl⟩ | ⟨before', rfl, hrest⟩
    · exact ⟨request, List.mem_cons_self, j, leads, absent _ _ hinner, apart⟩
    · exact ⟨request, List.mem_cons_self, p, leads, absent _ [] (by simp), apart⟩
    · obtain ⟨r, hr, k, hk, hnot, hapart⟩ := ihrest before' p more hrest
      refine ⟨r, List.mem_cons_of_mem _ hr, k, hk, ?_, hapart⟩
      rw [after_fresh]
      exact hnot

/-- **Each file is offered once**, and not if it was there before. -/
theorem Linked.nodup {i : Importer} {there : List Path} {requests : List Import} {code : Code}
    {es : List Event} (h : Linked fs library top i there requests code es)
    (hthere : there.Nodup) : (after es there).Nodup := by
  induction h with
  | plain => exact hthere
  | known _ _ _ _ ih => exact ih hthere
  | fresh _ _ new _ file _ ihfile ihrest =>
    rw [after_fresh]
    exact ihrest (List.nodup_cons.2
      ⟨file.not_mem_after_of_waits file.waits new, ihfile hthere⟩)

/-! ## Runs of linking -/

/-- However linking ends early, it is not because of a run, and what it remembers is closed. -/
abbrev Leaves (fs : FileSystem) (library : String) (e : RunError) (l : Linker) : Prop :=
  e.NotRun ∧ Closed fs library l.loaded

/-- What linking the requests of an importer gives, from a linker `l`. -/
def Gives (fs : FileSystem) (library : String) (top : SourceUnit) (i : Importer)
    (requests : List Import) (l : Linker) (code : Code) (l' : Linker) : Prop :=
  ∃ es, Linked fs library top i l.loaded requests code es ∧ l'.loaded = after es l.loaded ∧
    Closed fs library l'.loaded

/-- Plain code has no imports. -/
theorem filterMap_import?_plain {nodes : Code} (h : Node.AllIn Node.Plain nodes) :
    nodes.filterMap Node.import? = [] := by
  refine List.filterMap_eq_nil_iff.2 fun n hn => ?_
  have hplain := h.of_mem hn
  cases n with
  | importing m request => exact hplain.elim
  | _ => rfl

/-- A file that imports itself makes imports go in a circle. -/
theorem self_connected_isCircular {k : Path × Origin} {l : Linker} :
    (connected (.ofFile k.1 k.2) k.1 l).graph.isCircular ≠ false := by
  rw [Bool.ne_false_iff, DependencyGraph.isCircular_iff]
  unfold connected DependencyGraph.add
  split
  · next hclosed => exact Or.inl hclosed
  · split
    · exact Or.inl rfl
    · refine Or.inr ⟨k.1.text, Relation.TransGen.single ?_⟩
      exact List.mem_append_right _ List.mem_cons_self

section Splice

variable {i : Importer} {load : Path → Origin → Linking (Program NodeId)}
  (hload : ∀ j l, (∃ request, Import.Proper request ∧ LeadsTo fs library (i.unit top) request j) →
    Closed fs library l.loaded → Meets (load j.1 j.2) l
      (fun p l' => p.info = (SourceUnit.ofFile j.1 j.2).info ∧
        Gives fs library top (some j) (requests fs j.1) l p.nodes l')
      (Leaves fs library))

include hload

/-- What following an import gives: nothing to put in, or the code of the file. -/
theorem meets_resolve_linked {position : Position} {request : Import} (hproper : request.Proper)
    {l : Linker} (hl : Closed fs library l.loaded) :
    Meets (resolve fs library load (i.unit top) position request) l
      (fun found l' => Closed fs library l'.loaded ∧ match found with
        | none => l'.loaded = l.loaded ∧
            (request.isExternal → ∃ j, LeadsTo fs library (i.unit top) request j) ∧
            ∀ j, LeadsTo fs library (i.unit top) request j → j.1 ∈ l.loaded
        | some p => ∃ j inner, LeadsTo fs library (i.unit top) request j ∧ j.1 ∉ l.loaded ∧
            (∀ k, i = some k → j.1 ≠ k.1) ∧
            p.info = (SourceUnit.ofFile j.1 j.2).info ∧
            Linked fs library top (some j) l.loaded (requests fs j.1) p.nodes inner ∧
            l'.loaded = j.1 :: after inner l.loaded)
      (Leaves fs library) := by
  refine meets_resolve ?alone ?missing ?circle ?known ?fresh
  case alone =>
    intro hnone
    refine ⟨hl, rfl, fun hext => ?_, fun j hj => ?_⟩
    · rw [wanted?_external hext] at hnone
      cases hnone
    · rw [← target?_eq_some_iff_leadsTo, target?, hnone] at hj
      cases hj
  case missing =>
    intro written base origin fault _ _ e l' he hl'
    exact ⟨he.notRun, hl'.loaded ▸ hl⟩
  case circle =>
    intro path origin _ _ e l' he hl'
    refine ⟨he.notRun, ?_⟩
    rw [hl'.loaded]
    exact hl
  case known =>
    intro path origin htarget _ hknown
    rw [target?_eq_some_iff_leadsTo] at htarget
    exact ⟨hl, rfl, fun _ => ⟨_, htarget⟩, fun j hj => hj.unique htarget ▸ hknown⟩
  case fresh =>
    intro path origin htarget hacyclic hnew
    rw [target?_eq_some_iff_leadsTo] at htarget
    have hapart : ∀ k, i = some k → path ≠ k.1 := by
      rintro k rfl rfl
      exact self_connected_isCircular hacyclic
    refine (hload (path, origin) (connected (i.unit top) path l) ⟨request, hproper, htarget⟩
      hl).mono ?_ fun _ _ he => he
    rintro p l' ⟨hinfo, inner, hlinked, hloaded, hclosed⟩
    refine ⟨?_, (path, origin), inner, htarget, hnew, hapart, hinfo, hlinked, congrArg _ hloaded⟩
    refine Closed.cons (j := (path, origin)) hclosed ?_ ?_
    · rintro rfl
      exact htarget.canonical_own hproper
    · intro r hr k hk
      rw [hloaded]
      exact hlinked.mem_after hr hk

omit hload in
/-- Splicing leaves plain code as it is. -/
theorem meets_splice_plain {follow : Position → Import → Linking (Option (Program NodeId))}
    {nodes : Code} (hplain : Node.AllIn Node.Plain nodes) {l : Linker}
    {E : RunError → Linker → Prop} :
    Meets (splice follow nodes) l (fun code l' => code = nodes ∧ l' = l) E := by
  induction nodes with
  | nil => exact ⟨rfl, rfl⟩
  | cons n rest ih =>
    have himport : n.import? = none := by
      cases n with
      | importing m request => exact hplain.1.elim
      | _ => rfl
    refine meets_splice_node himport ((ih hplain.2).mono ?_ fun _ _ he => he)
    rintro code l' ⟨rfl, rfl⟩
    exact ⟨rfl, rfl⟩

/-- Splicing gives linked code. -/
theorem meets_splice_linked {nodes : Code} (hfirst : Scope.ImportsFirst nodes)
    (hproper : ∀ request ∈ nodes.filterMap Node.import?, request.Proper) {l : Linker}
    (hl : Closed fs library l.loaded) :
    Meets (splice (resolve fs library load (i.unit top)) nodes) l
      (Gives fs library top i (nodes.filterMap Node.import?) l) (Leaves fs library) := by
  induction hfirst generalizing l with
  | @plain nodes hplain =>
    refine (meets_splice_plain hplain).mono ?_ fun _ _ he => he
    rintro code l' ⟨rfl, rfl⟩
    rw [filterMap_import?_plain hplain]
    exact ⟨[], .plain hplain, rfl, hl⟩
  | @importing m request rest _ ih =>
    have himports : (Node.importing m request :: rest).filterMap Node.import? =
        request :: rest.filterMap Node.import? := rfl
    rw [himports] at hproper ⊢
    obtain ⟨hrequest, hothers⟩ := List.forall_mem_cons.1 hproper
    refine meets_splice_importing
      ((meets_resolve_linked hload hrequest hl).mono ?_ fun _ _ he => he)
    rintro found l₁ ⟨hl₁, hfound⟩ id l₂ hl₂
    have hclosed₂ : Closed fs library l₂.loaded := hl₂.loaded ▸ hl₁
    refine (ih hothers hclosed₂).mono ?_ fun _ _ he => he
    rintro code l' ⟨es, hlinked, hloaded, hclosed⟩
    rw [hl₂.loaded] at hlinked hloaded
    cases found with
    | none =>
      obtain ⟨hsame, hfound, hthere⟩ := hfound
      rw [hsame] at hlinked hloaded
      exact ⟨_, .known hrequest hfound hthere hlinked, hloaded, hclosed⟩
    | some p =>
      obtain ⟨j, inner, hleads, hnew, hapart, hinfo, hinner, hsame⟩ := hfound
      rw [hsame] at hlinked hloaded
      refine ⟨inner ++ .offers j :: .asks i request :: es, ?_, ?_, hclosed⟩
      · show Linked _ _ _ _ _ _ (moduleNode id m.token p :: _) _
        unfold moduleNode
        rw [hinfo]
        exact .fresh hrequest hleads hnew hapart hinner hlinked
      · rw [hloaded, after_fresh]

end Splice

/-- Linking a text gives linked code, if loading files does. -/
theorem meets_linkText_linked {i : Importer} {load : Path → Origin → Linking (Program NodeId)}
    {source : String}
    (hload : ∀ j l, (∃ request, Import.Proper request ∧
        LeadsTo fs library (i.unit top) request j) →
      Closed fs library l.loaded → Meets (load j.1 j.2) l
        (fun p l' => p.info = (SourceUnit.ofFile j.1 j.2).info ∧
          Gives fs library top (some j) (requests fs j.1) l p.nodes l')
        (Leaves fs library))
    {l : Linker} (hl : Closed fs library l.loaded) :
    Meets (linkText fs library load (i.unit top) source) l
      (fun p l' => p.info = (i.unit top).info ∧
        Gives fs library top i (requestsOf source) l p.nodes l')
      (Leaves fs library) := by
  refine meets_linkText (fun program n l₁ hsource hl₁ => ?_) ?_
  · have himports : (Node.numberAll n program.nodes).1.filterMap Node.import? =
        requestsOf source := by
      rw [Node.filterMap_import?_numberAll, requestsOf, hsource]
      rfl
    refine (meets_splice_linked hload (importsFirst_of_program? hsource n) ?_
      (hl₁.loaded ▸ hl)).mono ?_ fun _ _ he => he
    · rw [Node.filterMap_import?_numberAll]
      exact fun _ => proper_of_program? hsource
    · rintro code l' ⟨es, hlinked, hloaded, hclosed⟩ l'' hl''
      rw [himports, hl₁.loaded] at hlinked
      rw [hl₁.loaded, ← hl''.loaded] at hloaded
      exact ⟨rfl, es, hlinked, hloaded, hl''.loaded ▸ hclosed⟩
  · intro _ e l' he hl'
    exact ⟨he.notRun, hl'.loaded ▸ hl⟩

variable (top)

/-- **Linking a file gives linked code.** -/
theorem meets_linkFile_linked (fuel : Nat) (j : Path × Origin) {l : Linker}
    (hl : Closed fs library l.loaded) :
    Meets (linkFile fs library fuel j.1 j.2) l
      (fun p l' => p.info = (SourceUnit.ofFile j.1 j.2).info ∧
        Gives fs library top (some j) (requests fs j.1) l p.nodes l')
      (Leaves fs library) := by
  induction fuel generalizing j l with
  | zero =>
    refine ⟨fun d error h => ?_, hl⟩
    cases h
  | succ fuel ih =>
    unfold linkFile
    split
    · exact Meets.fail fun l' hl' => ⟨RunError.IsStatic.notRun fun _ => nofun, hl'.loaded ▸ hl⟩
    · next source hread =>
      have hrequests : requests fs j.1 = requestsOf source := by
        unfold requests
        rw [hread]
      rw [hrequests]
      exact meets_linkText_linked (i := some j) (fun k l _ hl => ih k hl) hl

/-- **Linking an entry file gives linked code**, and the file is remembered itself. -/
theorem meets_linkEntry_linked (entry : Path) {l : Linker} (hl : Closed fs library l.loaded) :
    Meets (linkEntry fs library entry) l
      (fun p l' => p.info = (SourceUnit.ofFile entry .user).info ∧ ∃ es,
        Linked fs library top (some (entry, .user)) l.loaded (requests fs entry) p.nodes es ∧
        l'.loaded = entry :: after es l.loaded ∧ Closed fs library l'.loaded)
      (Leaves fs library) := by
  refine Meets.bind ((meets_linkFile_linked top (fuelFor fs) (entry, .user) hl).mono ?_
    fun _ _ he => he)
  rintro p l' ⟨hinfo, es, hlinked, hloaded, hclosed⟩
  refine ⟨hinfo, es, hlinked, congrArg _ hloaded, ?_⟩
  refine Closed.cons (j := (entry, .user)) hclosed nofun fun request hrequest k hk => ?_
  rw [hloaded]
  exact hlinked.mem_after hrequest hk

/-- **Linking a text gives linked code.** -/
theorem meets_linkSource_linked (source : String) {l : Linker} (hl : Closed fs library l.loaded) :
    Meets (linkSource fs library top source) l
      (fun p l' => p.info = top.info ∧ Gives fs library top none (requestsOf source) l p.nodes l')
      (Leaves fs library) :=
  meets_linkText_linked (i := none) (fun j _ _ hl => meets_linkFile_linked top (fuelFor fs) j hl) hl

end Catena.Linking

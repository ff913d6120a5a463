import Catena.Proofs.Linking.Plan

/-!
# Linking where files are remembered

A linker that remembers some files leaves them out. If what it remembers is closed under imports, the
plan is that of linking from nothing without the events of the remembered files: what they offer and
what they ask for (`Linked.filter_isNew`).
-/

namespace Catena.Linking

/-- Whether an event is of a file, or of the text that linking starts from, that is not among
`remembered`. -/
def Event.isNew (remembered : List Path) : Event → Bool
  | .asks none _ => true
  | .asks (some k) _ => !remembered.contains k.1
  | .offers j => !remembered.contains j.1

/-- The importer is not among `remembered`. -/
def Importer.IsNew (remembered : List Path) (i : Importer) : Prop :=
  ∀ k, i = some k → k.1 ∉ remembered

section Events

variable {remembered : List Path}

@[simp] theorem isNew_asks {i : Importer} {request : Import} :
    (Event.asks i request).isNew remembered ↔ i.IsNew remembered := by
  cases i with
  | none => simp [Event.isNew, Importer.IsNew]
  | some k => simp [Event.isNew, Importer.IsNew]

@[simp] theorem isNew_offers {j : Path × Origin} :
    (Event.offers j).isNew remembered ↔ j.1 ∉ remembered := by
  simp [Event.isNew]

theorem mem_offered_filter {es : List Event} {j : Path × Origin} :
    j ∈ offered (es.filter (Event.isNew remembered)) ↔ j ∈ offered es ∧ j.1 ∉ remembered := by
  rw [mem_offered, mem_offered, List.mem_filter, isNew_offers]

/-- What is there after the new events, with what is remembered. -/
theorem mem_after_filter {es : List Event} {there there' : List Path}
    (hthere : ∀ p, p ∈ there' ↔ p ∈ remembered ∨ p ∈ there) (p : Path) :
    p ∈ after (es.filter (Event.isNew remembered)) there' ↔ p ∈ remembered ∨ p ∈ after es there := by
  rw [mem_after_iff, mem_after_iff, hthere]
  constructor
  · rintro (⟨j, hj, rfl⟩ | hp | hp)
    · exact Or.inr (Or.inl ⟨j, (mem_offered_filter.1 hj).1, rfl⟩)
    · exact Or.inl hp
    · exact Or.inr (Or.inr hp)
  · rintro (hp | ⟨j, hj, rfl⟩ | hp)
    · exact Or.inr (Or.inl hp)
    · by_cases hnew : j.1 ∈ remembered
      · exact Or.inr (Or.inl hnew)
      · exact Or.inl ⟨j, mem_offered_filter.2 ⟨hj, hnew⟩, rfl⟩
    · exact Or.inr (Or.inr hp)

end Events

section Linked

variable {fs : FileSystem} {library : String} {top : SourceUnit} {remembered : List Path}
  (hclosed : Closed fs library remembered)

include hclosed

/-- Nothing is new in what a remembered file does. -/
theorem Linked.filter_eq_nil {j : Path × Origin} {there : List Path} {requests : List Import}
    {code : Code} {es : List Event}
    (h : Linked fs library top (some j) there requests code es) (hj : j.1 ∈ remembered)
    (hrequests : requests ⊆ Linking.requests fs j.1) :
    es.filter (Event.isNew remembered) = [] := by
  generalize hi : some j = i at h
  have old : ∀ k : Path × Origin, k.1 ∈ remembered → ¬Importer.IsNew remembered (some k) :=
    fun k hk hnew => hnew k rfl hk
  induction h generalizing j with
  | plain => rfl
  | known _ _ _ _ ih =>
    subst hi
    rw [List.filter_cons_of_neg (by rw [isNew_asks]; exact old j hj)]
    exact ih hj (List.cons_subset.1 hrequests).2 rfl
  | @fresh i there k request requests m m' body inner code es _ leads _ _ _ _ ihfile ihrest =>
    subst hi
    obtain ⟨hrequest, hothers⟩ := List.cons_subset.1 hrequests
    have hk : k.1 ∈ remembered := hclosed j.1 hj j.2 request hrequest k leads
    rw [List.filter_append, ihfile hk (List.Subset.refl _) rfl,
      List.filter_cons_of_neg (by rw [isNew_offers]; exact not_not_intro hk),
      List.filter_cons_of_neg (by rw [isNew_asks]; exact old j hj)]
    exact ihrest hj hothers rfl

/-- **Linking with remembered files is linking from fewer files, less what is remembered.** -/
theorem Linked.filter_isNew {i : Importer} {there there' : List Path} {requests : List Import}
    {code code' : Code} {es es' : List Event}
    (h : Linked fs library top i there requests code es)
    (h' : Linked fs library top i there' requests code' es')
    (hthere : ∀ p, p ∈ there' ↔ p ∈ remembered ∨ p ∈ there) (hi : i.IsNew remembered) :
    es' = es.filter (Event.isNew remembered) := by
  induction h generalizing there' code' es' with
  | plain =>
    cases h'
    rfl
  | @known i there request requests m code es _ _ there_of _ ih =>
    cases h' with
    | known _ _ _ rest =>
      rw [List.filter_cons_of_pos (isNew_asks.2 hi), ih rest hthere hi]
    | fresh _ leads new =>
      exact absurd ((hthere _).2 (Or.inr (there_of _ leads))) new
  | @fresh i there j request requests m m' body inner code es _ leads new _ file _ ihfile ihrest =>
    rw [List.filter_append]
    cases h' with
    | known _ _ there_of rest =>
      -- the file is among those remembered, and so is everything below it
      have hj : j.1 ∈ remembered := ((hthere _).1 (there_of j leads)).resolve_right new
      have hinner := file.filter_eq_nil hclosed hj (List.Subset.refl _)
      rw [hinner, List.filter_cons_of_neg (by rw [isNew_offers]; exact not_not_intro hj),
        List.filter_cons_of_pos (isNew_asks.2 hi), List.nil_append]
      refine congrArg _ (ihrest rest (fun p => ?_) hi)
      have hafter : p ∈ after (inner.filter (Event.isNew remembered)) _ ↔ _ :=
        mem_after_filter hthere p
      rw [hinner, after, offered_nil, List.map_nil, List.nil_append] at hafter
      rw [hafter, List.mem_cons]
      constructor
      · exact Or.imp_right Or.inr
      · rintro (hp | rfl | hp)
        · exact Or.inl hp
        · exact Or.inl hj
        · exact Or.inr hp
    | fresh _ leads' new' _ file' rest =>
      obtain rfl := leads.unique leads'
      have hj : j.1 ∉ remembered := fun hj => new' ((hthere _).2 (Or.inl hj))
      have hnew : Importer.IsNew remembered (some j) := by
        rintro k hk
        cases hk
        exact hj
      obtain rfl := ihfile file' hthere hnew
      rw [List.filter_cons_of_pos (isNew_offers.2 hj), List.filter_cons_of_pos (isNew_asks.2 hi)]
      have hrest := ihrest rest (fun p => ?_) hi
      · rw [hrest]
      · rw [List.mem_cons, List.mem_cons, mem_after_filter hthere]
        exact or_left_comm

end Linked

/-! ## A text that imports a remembered file -/

/-- A text with one import starts with it, and plain code follows. -/
theorem eq_importing_cons {nodes : Code} (hfirst : Scope.ImportsFirst nodes) {request : Import}
    (h : nodes.filterMap Node.import? = [request]) :
    ∃ m rest, nodes = .importing m request :: rest ∧ Node.AllIn Node.Plain rest := by
  cases hfirst with
  | plain hplain =>
    rw [filterMap_import?_plain hplain] at h
    cases h
  | @importing m request' rest hrest =>
    obtain ⟨rfl, hothers⟩ := List.cons.inj h
    cases hrest with
    | plain hplain => exact ⟨m, rest, rfl, hplain⟩
    | importing => cases hothers

/-- Linking a text whose only import is of a file that is there goes well, and puts nothing in. -/
theorem meets_linkText_known {fs : FileSystem} {library : String}
    {load : Path → Origin → Linking (Program NodeId)} {unit : SourceUnit} {source : String}
    {request : Import} {l : Linker} (hrequests : requestsOf source = [request])
    {j : Path × Origin} (hleads : LeadsTo fs library unit request j)
    (hacyclic : (connected unit j.1 l).graph.isCircular = false) (hthere : j.1 ∈ l.loaded) :
    Meets (linkText fs library load unit source) l
      (fun p _ => p.info = unit.info ∧ ∃ m rest, p.nodes = .importing m request :: rest)
      (fun _ _ => False) := by
  obtain ⟨path, origin⟩ := j
  have htarget := target?_eq_some_iff_leadsTo.2 hleads
  obtain ⟨written, base, hwanted, hpath⟩ := target?_eq_some_iff.1 htarget
  refine meets_linkText (fun program n l₁ hsource hl₁ => ?_) fun hnone => ?_
  · have hgraph : (connected unit path l₁).graph.isCircular = false := by
      unfold connected at hacyclic ⊢
      rw [hl₁.graph]
      exact hacyclic
    have himports : (Node.numberAll n program.nodes).1.filterMap Node.import? = [request] := by
      rw [Node.filterMap_import?_numberAll, ← hrequests, requestsOf, hsource]
      rfl
    obtain ⟨m, rest, hnodes, hplain⟩ :=
      eq_importing_cons (importsFirst_of_program? hsource n) himports
    rw [hnodes]
    refine meets_splice_importing (meets_resolve ?alone ?missing ?circle ?known ?fresh)
    case alone =>
      intro hnone
      rw [hwanted] at hnone
      cases hnone
    case missing =>
      intro written' base' origin' fault hwanted' hfault
      rw [hwanted] at hwanted'
      cases hwanted'
      rw [hpath] at hfault
      cases hfault
    case circle =>
      intro path' origin' htarget' hcircle
      rw [htarget] at htarget'
      cases htarget'
      rw [hgraph] at hcircle
      cases hcircle
    case known =>
      intro path' origin' _ _ _ id l₂ _
      refine (meets_splice_plain hplain).mono ?_ fun _ _ he => he
      rintro code l' ⟨rfl, rfl⟩ l'' _
      exact ⟨rfl, m, code, rfl⟩
    case fresh =>
      intro path' origin' htarget' _ hnew
      rw [htarget] at htarget'
      cases htarget'
      exact absurd (hl₁.loaded ▸ hthere) hnew
  · rw [requestsOf, hnone] at hrequests
    cases hrequests

end Catena.Linking

import Catena.Proofs.Linking.Order
import Catena.Proofs.Report
import Catena.Proofs.Scope.Bodies

/-!
# What linking reports

Linking changes the current file of the log at each text that it comes to, and reports in three ways:
the errors of a text are reported together, under the file that is current; a diagnostic of its own
names its file; and everything else is a notice. So a log that is clean stays clean for as long as
linking goes on, whatever file is current, and each text makes its own file current before anything in
it can be refused. When linking stops, the log holds what it stopped for and nothing else
(`meets_link_reported`).
-/

namespace Catena.Linking

open Catena.Action

/-! ## What is refused -/

/-- The stages that give up a text, each with the errors that it finds in it. -/
inductive Refused (source : String) : Stage → List Diagnostic → Prop
  | lexer {errors : List Diagnostic} (h : Source.scan source = .error errors) :
    Refused source .lexer errors
  | scope {p : Program Unit} (h : Tree.ofSource "" source = .ok p)
    (failed : (Scope.analyse (p.number 0).1).failed = true) :
    Refused source .scope (Scope.analyse (p.number 0).1).errors

variable {source : String} {stage : Stage} {errors : List Diagnostic}

theorem ne_nil_of_scan (h : Source.scan source = .error errors) : errors ≠ [] := by
  unfold Source.scan at h
  dsimp only at h
  split at h
  · cases h
  · next hsome =>
    cases h
    exact hsome

theorem located_of_scan (h : Source.scan source = .error errors) :
    ∀ d ∈ errors, ∃ error position, d = .located (.lex error) position := by
  unfold Source.scan at h
  dsimp only at h
  split at h
  · cases h
  · cases h
    intro d hd
    obtain ⟨placed, -, hplaced⟩ := List.mem_filterMap.1 hd
    obtain ⟨error, -, rfl⟩ := Option.map_eq_some_iff.1 hplaced
    exact ⟨error, placed.1, rfl⟩

/-- A stage that gives up has found an error. -/
theorem Refused.ne_nil (h : Refused source stage errors) : errors ≠ [] := by
  cases h with
  | lexer h => exact ne_nil_of_scan h
  | scope _ failed =>
    intro hnil
    unfold Scope.Analysis.failed at failed
    rw [hnil] at failed
    cases failed

/-- The errors of a text name no file. -/
theorem Refused.file_eq_none (h : Refused source stage errors) : ∀ d ∈ errors, d.file = none := by
  intro d hd
  cases h with
  | lexer h =>
    obtain ⟨error, position, rfl⟩ := located_of_scan h d hd
    rfl
  | scope =>
    obtain ⟨error, position, rfl⟩ := Scope.located_of_mem_errors _ d hd
    rfl

/-! ## What is come to -/

/-- The text of an importer. -/
def Start.textOf (fs : FileSystem) (start : Start) : Importer → Except Fault String
  | none => start.source fs
  | some j => fs.read j.1

/-- The importers that linking may come to: what it starts from, and the files that these lead to and
that are not remembered. -/
inductive Reaches (fs : FileSystem) (library : String) (there : List Path) (start : Start) :
    Importer → Prop
  | start : Reaches fs library there start start.importer
  | imports {i : Importer} {source : String} {request : Import} {j : Path × Origin}
    (importer : Reaches fs library there start i) (text : start.textOf fs i = .ok source)
    (asks : request ∈ requestsOf source) (leads : LeadsTo fs library (i.unit start.unit) request j)
    (new : j.1 ∉ there) : Reaches fs library there start (some j)

/-- What the log holds when linking stops: the one diagnostic that is its reason, or all errors of the
text that was given up, under the name of its file. -/
def Tells (fs : FileSystem) (library : String) (there : List Path) (start : Start) :
    RunError → Linker → Prop
  | .diagnostic d, l => ∃ file, d.file = some file ∧ l.log.HoldsOnly file [d]
  | .reported stage count, l => ∃ i source errors, Reaches fs library there start i ∧
      start.textOf fs i = .ok source ∧ Refused source stage errors ∧ errors.length = count ∧
      l.log.HoldsOnly (i.unit start.unit).display errors
  | .io _, _ => False
  | .exhausted, l => l.log.Clean

/-- A linker that goes on: nothing has been reported, and it still remembers what it did. -/
structure Silent (there : List Path) (l : Linker) : Prop where
  clean : l.log.Clean
  remembers : ∀ path ∈ there, path ∈ l.loaded

section Reported

variable {α : Type} {fs : FileSystem} {library : String} {there : List Path} {start : Start}
  {i : Importer} {l : Linker}

theorem meets_fail_reported {d : Diagnostic} {file : String} {Q : α → Linker → Prop}
    (hfile : d.file = some file) (hl : Silent there l) :
    Meets (fail d) l Q (Tells fs library there start) := by
  refine ⟨file, hfile, ?_⟩
  have h := hl.clean.report d
  rw [hfile, Option.getD_some] at h
  exact h

theorem meets_abort_reported {Q : α → Linker → Prop} (hi : Reaches fs library there start i)
    (htext : start.textOf fs i = .ok source) (hrefused : Refused source stage errors)
    (hl : Silent there l) (hfile : l.log.file = (i.unit start.unit).display) :
    Meets (abort stage errors) l Q (Tells fs library there start) := by
  refine ⟨i, source, errors, hi, htext, hrefused, rfl, ?_⟩
  rw [← hfile]
  exact hl.clean.foldl_report hrefused.file_eq_none hrefused.ne_nil

/-! ## Texts -/

theorem meets_parse_reported (hi : Reaches fs library there start i)
    (htext : start.textOf fs i = .ok source) (hl : Silent there l)
    (hfile : l.log.file = (i.unit start.unit).display) :
    Meets (parse (i.unit start.unit) source) l
      (fun p l' => Silent there l' ∧ l'.log.file = (i.unit start.unit).display ∧
        ∃ q n, Tree.ofSource "" source = .ok q ∧ p.info = (i.unit start.unit).info ∧
          p.nodes = (Node.numberAll n q.nodes).1)
      (Tells fs library there start) := by
  refine meets_parse (fun q hq => ?_) (fun errors hscan _ => ?_) fun error position _ _ => ?_
  · exact ⟨⟨hl.clean, hl.remembers⟩, hfile, q, l.nextId, hq, rfl, rfl⟩
  · exact meets_abort_reported hi htext (.lexer hscan) hl hfile
  · exact meets_fail_reported rfl ⟨hl.clean, hl.remembers⟩

theorem meets_checkScopes_reported {p : Program NodeId} {q : Program Unit} {n : NodeId}
    (hi : Reaches fs library there start i) (htext : start.textOf fs i = .ok source)
    (hq : Tree.ofSource "" source = .ok q) (hnodes : p.nodes = (Node.numberAll n q.nodes).1)
    (hl : Silent there l) (hfile : l.log.file = (i.unit start.unit).display) :
    Meets (checkScopes p) l (fun _ l' => Silent there l' ∧ program? source = some q)
      (Tells fs library there start) := by
  have hanalysis : Scope.analyse p = Scope.analyse (q.number n).1 := by
    unfold Scope.analyse
    rw [hnodes]
    rfl
  have hfailed : (Scope.analyse p).failed = (Scope.analyse (q.number 0).1).failed := by
    rw [hanalysis, Scope.failed_number q n 0]
  have herrors : (Scope.analyse p).errors = (Scope.analyse (q.number 0).1).errors := by
    rw [hanalysis, Scope.errors_number q n 0]
  obtain ⟨hsame, hcurrent⟩ := FileLog.errors_foldl_notice l.log (Scope.analyse p).notices
  have hnoticed : ∀ {m : Linker}, m.log = (Scope.analyse p).notices.foldl
      (fun log d => Reporter.notice log d.message d.position) l.log → m.loaded = l.loaded →
      Silent there m := by
    intro m hlog hloaded
    refine ⟨?_, hloaded ▸ hl.remembers⟩
    unfold FileLog.Clean
    rw [hlog, hsame]
    exact hl.clean
  refine Meets.bind (Meets.change ?_)
  split
  · next hrefused =>
    rw [hfailed] at hrefused
    rw [herrors]
    exact meets_abort_reported hi htext (.scope hq hrefused) (hnoticed rfl rfl)
      (hcurrent.trans hfile)
  · next hpassed =>
    rw [hfailed, Bool.not_eq_true] at hpassed
    exact ⟨hnoticed rfl rfl, program?_eq_some_iff.2 ⟨hq, hpassed⟩⟩

/-! ## Imports -/

section Load

variable {load : Path → Origin → Linking (Program NodeId)}
  (hload : ∀ j l, Reaches fs library there start (some j) → Silent there l →
    Meets (load j.1 j.2) l (fun _ l' => Silent there l') (Tells fs library there start))

include hload

theorem meets_resolve_reported (hi : Reaches fs library there start i)
    (htext : start.textOf fs i = .ok source) {request : Import} (hrequest : request ∈ requestsOf source)
    {position : Position} (hl : Silent there l) :
    Meets (resolve fs library load (i.unit start.unit) position request) l
      (fun _ l' => Silent there l') (Tells fs library there start) := by
  unfold resolve
  split
  · exact hl
  · next written base origin hwanted =>
    split
    · exact meets_fail_reported rfl hl
    · next path hpath =>
      have hleads := target?_eq_some_iff_leadsTo.1
        (target?_eq_some_iff.2 ⟨written, base, hwanted, hpath⟩)
      have hconnected : Silent there (connected (i.unit start.unit) path l) :=
        ⟨hl.clean, hl.remembers⟩
      refine Meets.bind (Meets.bind (Meets.change (Meets.bind ?_)))
      show Meets (if (connected (i.unit start.unit) path l).graph.isCircular then _ else _) _ _ _
      split
      · exact meets_fail_reported rfl hconnected
      · refine Meets.bind (show Meets (if l.loaded.contains path then _ else _) _ _ _ from ?_)
        split
        · exact hconnected
        · next hnew =>
          have hreaches : Reaches fs library there start (some (path, origin)) :=
            .imports hi htext hrequest hleads fun hmem =>
              hnew (List.contains_iff_mem.2 (hl.remembers _ hmem))
          refine Meets.bind ((hload (path, origin) _ hreaches hconnected).mono ?_ fun _ _ he => he)
          intro p l' hl'
          exact ⟨hl'.clean, fun q hq => List.mem_cons_of_mem _ (hl'.remembers q hq)⟩

theorem meets_splice_reported (hi : Reaches fs library there start i)
    (htext : start.textOf fs i = .ok source) {nodes : Code}
    (hnodes : ∀ request ∈ nodes.filterMap Node.import?, request ∈ requestsOf source)
    (hl : Silent there l) :
    Meets (splice (resolve fs library load (i.unit start.unit)) nodes) l
      (fun _ l' => Silent there l') (Tells fs library there start) := by
  induction nodes generalizing l with
  | nil => exact hl
  | cons node rest ih =>
    have hrest : ∀ request ∈ rest.filterMap Node.import?, request ∈ requestsOf source :=
      fun request h => hnodes request (((List.sublist_cons_self node rest).filterMap _).subset h)
    cases himport : node.import? with
    | none => exact meets_splice_node himport (ih hrest hl)
    | some request =>
      obtain ⟨m, rfl⟩ := Node.import?_eq_some_iff.1 himport
      have hrequest := hnodes request List.mem_cons_self
      refine Meets.bind ((meets_resolve_reported hload hi htext hrequest hl).mono ?_
        fun _ _ he => he)
      intro found l₁ hl₁
      cases found with
      | none => exact Meets.bind (ih hrest hl₁)
      | some p => exact Meets.bind (Meets.bind (ih hrest ⟨hl₁.clean, hl₁.remembers⟩))

theorem meets_linkText_reported (hi : Reaches fs library there start i)
    (htext : start.textOf fs i = .ok source) (hl : Silent there l) :
    Meets (linkText fs library load (i.unit start.unit) source) l
      (fun p l' => Silent there l' ∧ p.info = (i.unit start.unit).info)
      (Tells fs library there start) := by
  have hset : Silent there
      { l with log := Reporter.setFile l.log (i.unit start.unit).display } :=
    ⟨hl.clean, hl.remembers⟩
  refine Meets.bind (Meets.change (Meets.bind ?_))
  refine (meets_parse_reported hi htext hset rfl).mono ?_ fun _ _ he => he
  rintro p l₁ ⟨hl₁, hfile, q, n, hq, hinfo, hnodes⟩
  refine Meets.bind ((meets_checkScopes_reported hi htext hq hnodes hl₁ hfile).mono ?_
    fun _ _ he => he)
  rintro - l₂ ⟨hl₂, hprogram⟩
  have himports : ∀ request ∈ p.nodes.filterMap Node.import?, request ∈ requestsOf source := by
    intro request hrequest
    rw [hnodes, Node.filterMap_import?_numberAll] at hrequest
    unfold requestsOf
    rw [hprogram]
    exact hrequest
  refine Meets.bind ((meets_splice_reported hload hi htext himports hl₂).mono ?_ fun _ _ he => he)
  exact fun nodes l₃ hl₃ => ⟨⟨hl₃.clean, hl₃.remembers⟩, hinfo⟩

end Load

/-! ## Files -/

theorem meets_linkFile_reported (fuel : Nat) (j : Path × Origin) {l : Linker}
    (hj : Reaches fs library there start (some j)) (hl : Silent there l) :
    Meets (linkFile fs library fuel j.1 j.2) l
      (fun p l' => Silent there l' ∧ p.info = (SourceUnit.ofFile j.1 j.2).info)
      (Tells fs library there start) := by
  induction fuel generalizing j l with
  | zero => exact hl.clean
  | succ fuel ih =>
    unfold linkFile
    split
    · exact meets_fail_reported rfl hl
    · next source hread =>
      refine meets_linkText_reported (i := some j) ?_ hj hread hl
      exact fun k l hk hl => (ih k hk hl).mono (fun _ _ h => h.1) fun _ _ he => he

/-- **Linking reports what it stops for, and nothing else.** From a clean log, a program that is linked
leaves it clean; and if linking stops, the log holds the diagnostic that it stopped with, or the errors
of the text that was given up under the name of the file that this text is from. -/
theorem meets_link_reported (start : Start) {l : Linker} (hl : l.log.Clean) :
    Meets (start.link fs library) l
      (fun p l' => l'.log.Clean ∧ p.info = start.unit.info)
      (Tells fs library l.loaded start) := by
  have hsilent : Silent l.loaded l := ⟨hl, fun _ h => h⟩
  cases start with
  | file path =>
    have hstart : Reaches fs library l.loaded (.file path) (some (path, .user)) := .start
    refine Meets.bind ((meets_linkFile_reported (fuelFor fs) (path, .user) hstart hsilent).mono ?_
      fun _ _ he => he)
    exact fun p l' h => ⟨h.1.clean, h.2⟩
  | text unit source =>
    have hstart : Reaches fs library l.loaded (.text unit source) none := .start
    refine (meets_linkText_reported ?_ hstart rfl hsilent).mono (fun _ _ h => ⟨h.1.clean, h.2⟩)
      fun _ _ he => he
    exact fun j l hj hl =>
      (meets_linkFile_reported (fuelFor fs) j hj hl).mono (fun _ _ h => h.1) fun _ _ he => he

end Reported

end Catena.Linking

import Catena.Proofs.Evaluation.Provenance
import Catena.Proofs.Linking.Reported

/-!
# What a step of a session reports

A step of a session fails before linking, in linking, or in its run. Before linking there is one
diagnostic that names no file. Linking reports what it stops for (`meets_link_reported`). A run fails
with a diagnostic that names a file, and that is reported once the run has ended; until then it leaves
the log alone. So whatever a session has done before, the log of a step accounts for its result
(`Accounted`), and only a failure of the run has touched the state of the interpreter
(`failure_reported`).
-/

namespace Catena

open Linking

namespace Evaluation

variable {fuel : Nat} {ways : List Way} {code : Code} {s t : Interpreter} {d : Diagnostic}

/-! ## Failures of a run -/

/-- A run that starts in a file is in some file wherever it comes to. -/
theorem file_visits (h : s.file.isSome) : ∀ v ∈ visits fuel ways code s, v.state.file.isSome := by
  refine forall_visits (I := fun _ _ t => t.file.isSome) (fun _ _ _ _ _ h => h) ?next ?start h
  case next =>
    intro _ n _ t fuel u h hstep
    rwa [(frame_of_step hstep).file]
  case start =>
    intro _ n _ t fuel h start hstart
    cases leads_starts hstart with
    | branch hstill => rwa [hstill.file]
    | sequence _ hframe => rwa [hframe.file]
    | @body _ d =>
      show (d.file.or t.file).isSome
      rw [Option.isSome_or, h, Bool.or_true]
    | module => rw [file_opened, Option.isSome_or, h, Bool.or_true]

/-- A program that is in a file fails with a run-time error of some file. -/
theorem interpret_failed_filed {scopes : ScopeTable} {p : Program NodeId}
    (hfile : p.info.file.isSome) (h : (interpret fuel scopes p).run s = .stopped (.failed d) t) :
    d.file.isSome ∧ ∃ error, d.cause = .runtime error := by
  obtain ⟨u, hu⟩ := interpret_failed_iff.1 ⟨t, h⟩
  have hbegun : (begun scopes p s).file.isSome := by rwa [file_begun hfile]
  have hvisits : ∀ v ∈ visited fuel scopes p s, v.state.file.isSome := file_visits hbegun
  obtain ⟨v, hv, -, -, hplace⟩ := exists_raises hu
  obtain ⟨file, hvisit⟩ := Option.isSome_iff_exists.1 (hvisits v hv)
  have hends := exec_ends fuel p.nodes (begun scopes p s)
  rw [hu] at hends
  obtain ⟨error, hcause, -⟩ := hends.2.2
  exact ⟨by rw [hplace file hvisit]; rfl, error, hcause⟩

end Evaluation

/-- The stage at which a program was given up. -/
def RunError.stage? : RunError → Option Stage
  | .diagnostic d => some d.stage
  | .reported stage _ => some stage
  | .io _ => none
  | .exhausted => none

namespace Session

/-! ## Steps -/

/-- What a session is asked to run: the file at a path, or a text. -/
inductive Step
  | file (written : String)
  | source (text : String)

/-- What the linking of a step starts from, if the step comes to it. -/
def Step.start? (fs : FileSystem) : Step → Option Start
  | .file written => (fs.canonical fs.workingDirectory written).toOption.map .file
  | .source text => some (.text (Session.unit fs) text)

/-- Takes a step with a log. -/
def take (s : Session) (fs : FileSystem) (step : Step) (log : FileLog) : RunReport :=
  match step with
  | .file written => s.runFile fs written log
  | .source text => s.runSource fs text log

/-- A log that accounts for the result of a step. If a stage was given up, it found errors in a text
that linking came to, and the log holds these errors, under the name of the file of that text. If the
result is a diagnostic, it is the only error of the log, under the file that it names, or under the
file that was current all along. Otherwise there is no error in the log. -/
def Accounted (s : Session) (fs : FileSystem) (step : Step) (log : FileLog) :
    Except RunError (Option Value) → Prop
  | .ok _ => log.Clean
  | .error (.io _) => log.Clean
  | .error .exhausted => log.Clean
  | .error (.diagnostic d) => log.HoldsOnly (d.file.getD defaultFile) [d]
  | .error (.reported stage count) => 0 < count ∧ ∃ start i source errors,
      step.start? fs = some start ∧ Reaches fs s.config.library s.loaded start i ∧
      start.textOf fs i = .ok source ∧ Refused source stage errors ∧ errors.length = count ∧
      log.HoldsOnly (i.unit start.unit).display errors

/-- What is known of a step in the end: its log accounts for its result, and if it was given up before
its run, the interpreter has done nothing. Linking only takes numbers for the nodes that it reads. -/
structure Reported (s : Session) (fs : FileSystem) (step : Step) (r : RunReport) : Prop where
  accounted : s.Accounted fs step r.log r.result
  untouched : ∀ e stage, r.result = .error e → e.stage? = some stage → stage ≠ .runtime →
    r.session.interpreter = { s.interpreter with nextId := r.session.interpreter.nextId }

section Reported

variable {s : Session} {fs : FileSystem} {step : Step} {log : FileLog}

/-- What linking tells is an account of the step. -/
theorem accounted_of_tells {start : Start} (hstart : step.start? fs = some start) {e : RunError}
    {l : Linker} (h : Tells fs s.config.library s.loaded start e l) :
    s.Accounted fs step l.log (.error e) := by
  cases e with
  | diagnostic d =>
    obtain ⟨file, hfile, hlog⟩ := h
    show l.log.HoldsOnly (d.file.getD defaultFile) [d]
    rwa [hfile]
  | reported stage count =>
    obtain ⟨i, source, errors, hi, htext, hrefused, hcount, hlog⟩ := h
    have hpos : 0 < count := hcount ▸ List.length_pos_iff.2 hrefused.ne_nil
    exact ⟨hpos, start, i, source, errors, hstart, hi, htext, hrefused, hcount, hlog⟩
  | io fault => exact h.elim
  | exhausted => exact h

theorem reported_refuse (hlog : log.Clean) (hfile : log.file = defaultFile) (error : ModuleError) :
    s.Reported fs step (s.refuse log { cause := .module error }) where
  accounted := by
    have h := hlog.report { cause := .module error }
    rw [Option.getD_none, hfile] at h
    exact h
  untouched _ _ _ _ _ := rfl

/-- Printing a program reports nothing. -/
theorem reported_printProgram (hlog : log.Clean) (r : Session) (p : Program NodeId) :
    s.Reported fs step (r.printProgram p log) := by
  unfold printProgram
  cases hwrite : r.write (p.render r.config.tab ++ "\n") with
  | mk result session =>
    cases result with
    | ok _ => exact ⟨hlog, fun _ _ => nofun⟩
    | error fault =>
      refine ⟨hlog, ?_⟩
      rintro e stage ⟨⟩ hstage
      cases hstage

/-- Running a program reports what it fails with. -/
theorem reported_runProgram (hlog : log.Clean) (r : Session) (scopes : ScopeTable)
    {p : Program NodeId} (hfile : p.info.file.isSome) :
    s.Reported fs step (r.runProgram scopes p log) := by
  unfold runProgram
  cases hrun : (Evaluation.interpret Evaluation.ampleFuel scopes p).run r.interpreter with
  | done value t => exact ⟨hlog, fun _ _ => nofun⟩
  | stopped halt t =>
    cases halt with
    | exhausted =>
      refine ⟨hlog, ?_⟩
      rintro e stage ⟨⟩ hstage
      cases hstage
    | failed d =>
      obtain ⟨hsome, error, hcause⟩ := Evaluation.interpret_failed_filed hfile hrun
      obtain ⟨file, hd⟩ := Option.isSome_iff_exists.1 hsome
      constructor
      · have hset : (Reporter.setFile log ((d.file.or p.info.file).getD defaultFile)).Clean := hlog
        have h := hset.report d
        rw [hd, Option.getD_some] at h
        show (logFailure p log d).HoldsOnly (d.file.getD defaultFile) [d]
        unfold logFailure
        rwa [hd, Option.getD_some]
      · rintro e stage ⟨⟩ hstage hother
        cases hstage
        exact absurd (by unfold Diagnostic.stage; rw [hcause]; rfl) hother

theorem reported_finish {start : Start} (hstart : step.start? fs = some start) (hlog : log.Clean)
    (root : String) :
    s.Reported fs step (s.finish (start.link fs s.config.library) root log) := by
  have hclean : (s.linker root log).log.Clean := hlog
  have hlink : Meets (start.link fs s.config.library) _ _ _ := meets_link_reported start hclean
  cases k : (start.link fs s.config.library).run (s.linker root log) with
  | stopped e l =>
    rw [finish_of_stopped k]
    exact ⟨accounted_of_tells hstart (hlink.of_stopped k), fun _ _ _ _ _ => rfl⟩
  | done p l =>
    obtain ⟨hclean, hinfo⟩ := hlink.of_done k
    rw [finish_of_done k]
    split
    · exact reported_printProgram hclean (s.linked l) p
    · exact reported_runProgram hclean (s.remember l) l.scopes (by rw [hinfo]; rfl)

/-- **Every failure is reported once.** Whatever a session has done, whatever files there are and
whatever it is asked to run, the log of the step accounts for its result. And if the step is given up
before its run, at whatever import, the interpreter is as it was. -/
theorem failure_reported (s : Session) (fs : FileSystem) (step : Step) :
    s.Reported fs step (s.take fs step {}) := by
  have hclean : ({} : FileLog).Clean := rfl
  cases step with
  | file written =>
    show s.Reported fs _ (s.runFile fs written {})
    unfold runFile
    split
    · exact reported_refuse hclean rfl _
    split
    · exact reported_refuse hclean rfl _
    · next path hpath =>
      have hstart : Step.start? fs (.file written) = some (.file path) := by
        dsimp only [Step.start?]
        rw [hpath]
        rfl
      exact reported_finish hstart hclean path.text
  | source text =>
    have hstart : Step.start? fs (.source text) = some (.text (unit fs) text) := rfl
    exact reported_finish hstart hclean (unit fs).key

end Reported

/-- A file in order, and one with two characters that start no token. -/
def smudged : FileSystem where
  workingDirectory := []
  entries :=
    [(["good.twl"], .file "public def f { }".toUTF8.toList),
      (["bad.twl"], .file "1 # 2\n#".toUTF8.toList)]

example :
    ((Session.new {} {}).take smudged (.source "import \"good.twl\"\nimport \"bad.twl\"")
      {}).log.errors.entries.map (fun entry => (entry.1, entry.2.map LogEntry.text)) =
        [("bad.twl", ["Error at line 1 character 3.\nUnexpected character '#'.",
          "Error at line 2 character 1.\nUnexpected character '#'."])] := by
  decide +kernel

end Session

end Catena

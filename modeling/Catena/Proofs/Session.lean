import Catena.Proofs.Evaluation.Fidelity
import Catena.Proofs.Linking.Remembered

/-!
# What sessions remember

A session remembers which files it has linked, and serves the modules of those that it has run. The
two come apart: linking remembers files before they are run, and remembers the entry file, which is
never served; it also remembers a file without whom it was read for.

Whatever steps a session has made, what it remembers is closed under imports and its state is sound
(`Steady`). So the plan of a further step is that of the same step in a fresh session, less what is
remembered, and the step lacks a namespace that a fresh session has only if a remembered file is not
served (`unserved_of_lacking`). An import of a remembered file lacks its namespace exactly if that
file is not served (`isSome_lacking?_known`).
-/

namespace Catena

open Linking Evaluation

theorem Evaluation.lacking?_eq_some_iff {r : RunReport} {source : String} :
    lacking? r = some source ↔
      ∃ d, r.result = .error (.diagnostic d) ∧ d.cause = .runtime (.unknownNamespace source) := by
  unfold lacking?
  constructor
  · intro h
    split at h
    · next hresult =>
      cases h
      exact ⟨_, hresult, rfl⟩
    · cases h
  · rintro ⟨⟨cause, position, file, notes⟩, hresult, rfl⟩
    rw [hresult]

namespace Session

/-! ## Steps -/

section Finish

variable {s : Session} {linking : Linking (Program NodeId)} {root : String} {log : FileLog}

theorem finish_of_stopped {e : RunError} {l : Linker}
    (h : linking.run (s.linker root log) = .stopped e l) :
    s.finish linking root log = ⟨.error e, s.linked l, l.log⟩ := by
  unfold finish
  rw [h]

theorem finish_of_done {p : Program NodeId} {l : Linker}
    (h : linking.run (s.linker root log) = .done p l) :
    s.finish linking root log =
      if s.config.printTree then (s.linked l).printProgram p l.log
      else (s.remember l).runProgram l.scopes p l.log := by
  unfold finish
  rw [h]

end Finish

/-- As long as there are words for all numbers, a program finds the table as it was left. -/
theorem remember_of_le (s : Session) {l : Linker} (h : l.nextId ≤ wordCount + 1) :
    s.remember l = s.linked l := by
  unfold remember linked ScopeTable.comeRound
  rw [if_pos h]

/-- A run leaves the session with the state that it ends in. -/
theorem session_runProgram (s : Session) (scopes : ScopeTable) (p : Program NodeId)
    (log : FileLog) : (s.runProgram scopes p log).session =
      { s with interpreter := ((interpret ampleFuel scopes p).run s.interpreter).state } := by
  unfold runProgram
  cases (interpret ampleFuel scopes p).run s.interpreter with
  | done value t => rfl
  | stopped halt t => cases halt <;> rfl

/-- Printing a program changes the console alone, and lacks no namespace. -/
theorem printProgram_eq (s : Session) (p : Program NodeId) (log : FileLog) :
    (∃ console, (s.printProgram p log).session = s.withConsole console) ∧
      lacking? (s.printProgram p log) = none := by
  unfold printProgram write
  cases s.interpreter.console.write (p.render s.config.tab ++ "\n") with
  | mk result console =>
    cases result with
    | ok _ => exact ⟨⟨console, rfl⟩, rfl⟩
    | error fault => exact ⟨⟨console, rfl⟩, rfl⟩

/-! ## Sessions that can come about -/

/-- A session that some steps lead to from a fresh one. The streams may change between steps. -/
inductive Reachable (fs : FileSystem) (config : Config) : Session → Prop
  | new (console : Console) (random : RandomSource) :
    Reachable fs config (Session.new config console random)
  | withConsole {s : Session} (h : Reachable fs config s) (console : Console) :
    Reachable fs config (s.withConsole console)
  | runFile {s : Session} (h : Reachable fs config s) (written : String) (log : FileLog) :
    Reachable fs config (s.runFile fs written log).session
  | runSource {s : Session} (h : Reachable fs config s) (source : String) (log : FileLog) :
    Reachable fs config (s.runSource fs source log).session

/-- What every session keeps to: its state is sound, the native functions are served, and what it
remembers is closed under imports. -/
structure Steady (fs : FileSystem) (config : Config) (s : Session) : Prop where
  config_eq : s.config = config
  sound : Sound s.interpreter
  natives : .natives ∈ s.interpreter.loaders.loaders
  closed : Closed fs config.library s.loaded

section Steady

variable {fs : FileSystem} {config : Config} {s : Session}

theorem steady_new (fs : FileSystem) (config : Config) (console : Console) (random : RandomSource) :
    Steady fs config (Session.new config console random) where
  config_eq := rfl
  sound := sound_new config console random
  natives := List.mem_cons_self
  closed _ h := absurd h List.not_mem_nil

theorem Steady.withConsole (h : Steady fs config s) (console : Console) :
    Steady fs config (s.withConsole console) where
  config_eq := h.config_eq
  sound := h.sound.of_eq rfl rfl rfl h.sound.current
  natives := h.natives
  closed := h.closed

theorem Steady.linked (h : Steady fs config s) {l : Linker}
    (hl : Closed fs config.library l.loaded) : Steady fs config (s.linked l) where
  config_eq := h.config_eq
  sound := h.sound.of_eq rfl rfl rfl h.sound.current
  natives := h.natives
  closed := hl

theorem Steady.remember (h : Steady fs config s) {l : Linker}
    (hl : Closed fs config.library l.loaded) : Steady fs config (s.remember l) where
  config_eq := h.config_eq
  sound := h.sound.of_eq rfl rfl rfl h.sound.current
  natives := h.natives
  closed := hl

/-- Running linked code keeps a session steady, however the run ends. -/
theorem Steady.runProgram (h : Steady fs config s) {p : Program NodeId}
    (hroot : p.info.isRoot = true) {top : SourceUnit} {i : Importer} {there : List Path}
    {requests : List Import} {es : List Event}
    (hlinked : Linked fs config.library top i there requests p.nodes es) (scopes : ScopeTable)
    (log : FileLog) : Steady fs config (s.runProgram scopes p log).session := by
  rw [session_runProgram]
  have hrun := (interpret_linked hroot hlinked h.sound ampleFuel scopes).2
  cases k : (interpret ampleFuel scopes p).run s.interpreter with
  | done value t =>
    rw [k] at hrun
    obtain ⟨hsound, ⟨shelf, -, hserves⟩, -⟩ := hrun
    refine ⟨h.config_eq, hsound, ?_, h.closed⟩
    show _ ∈ t.loaders.loaders
    rw [hserves.loaders]
    exact List.mem_append_right _ h.natives
  | stopped halt t =>
    rw [k] at hrun
    obtain ⟨hsound, hsuffix, -⟩ := hrun
    exact ⟨h.config_eq, hsound, hsuffix.subset h.natives, h.closed⟩

/-- A step keeps a session steady, if its linking gives linked code and remembers what is closed. -/
theorem Steady.finish (h : Steady fs config s) {linking : Linking (Program NodeId)} {root : String}
    {log : FileLog}
    (hlink : Meets linking (s.linker root log)
      (fun p l => p.info.isRoot = true ∧ Closed fs config.library l.loaded ∧
        ∃ top i there requests es, Linked fs config.library top i there requests p.nodes es)
      (Leaves fs config.library)) :
    Steady fs config (s.finish linking root log).session := by
  cases k : linking.run (s.linker root log) with
  | stopped e l =>
    rw [finish_of_stopped k]
    exact h.linked (hlink.of_stopped k).2
  | done p l =>
    obtain ⟨hroot, hclosed, top, i, there, requests, es, hlinked⟩ := hlink.of_done k
    rw [finish_of_done k]
    split
    · obtain ⟨console, hsession⟩ := ((s.linked l).printProgram_eq p l.log).1
      rw [hsession]
      exact (h.linked hclosed).withConsole console
    · exact (h.remember hclosed).runProgram hroot hlinked l.scopes l.log

/-- **Every session is steady.** -/
theorem Reachable.steady (h : Reachable fs config s) : Steady fs config s := by
  induction h with
  | new console random => exact steady_new fs config console random
  | withConsole _ console ih => exact ih.withConsole console
  | @runFile s _ written log ih =>
    unfold Session.runFile
    split
    · exact ih
    split
    · exact ih
    · next path _ =>
      rw [ih.config_eq]
      refine ih.finish ((meets_linkEntry_linked (.ofFile path .user) path ih.closed).mono ?_
        fun _ _ he => he)
      rintro p l ⟨hinfo, es, hlinked, -, hclosed⟩
      exact ⟨by rw [hinfo]; rfl, hclosed, _, _, _, _, es, hlinked⟩
  | @runSource s _ source log ih =>
    unfold Session.runSource
    dsimp only
    rw [ih.config_eq]
    refine ih.finish ((meets_linkSource_linked _ source ih.closed).mono ?_ fun _ _ he => he)
    rintro p l ⟨hinfo, es, hlinked, -, hclosed⟩
    exact ⟨by rw [hinfo]; rfl, hclosed, _, _, _, _, es, hlinked⟩

end Steady

/-! ## A step that is given as text -/

section Source

variable {fs : FileSystem} {config : Config} {s : Session} {source : String} {log : FileLog}

/-- The unit of a text that a session runs. -/
def unit (fs : FileSystem) : SourceUnit :=
  .ofText defaultFile fs.workingDirectory

theorem runSource_eq (s : Session) (fs : FileSystem) (source : String) (log : FileLog) :
    s.runSource fs source log =
      s.finish (linkSource fs s.config.library (unit fs) source) (unit fs).key log := rfl

/-- What a text that is linked and run does: `p` is its code and `es` its plan. -/
structure Carried (fs : FileSystem) (config : Config) (s : Session) (source : String)
    (log : FileLog) (p : Program NodeId) (l : Linker) (es : List Event) : Prop where
  runs : config.printTree = false
  root : p.info.isRoot = true
  linked : Linked fs config.library (unit fs) none s.loaded (requestsOf source) p.nodes es
  loaded : l.loaded = after es s.loaded
  steady : Steady fs config (s.remember l)
  report : s.runSource fs source log = (s.remember l).runProgram l.scopes p l.log

/-- A text is refused by linking, or printed, or linked and run. -/
theorem runSource_cases (h : Steady fs config s) (source : String) (log : FileLog) :
    (∃ e, (s.runSource fs source log).result = .error e ∧ e.NotRun) ∨
      (config.printTree = true ∧ lacking? (s.runSource fs source log) = none) ∨
      ∃ p l es, Carried fs config s source log p l es := by
  have hclosed : Closed fs config.library (s.linker (unit fs).key log).loaded := h.closed
  have hlink := meets_linkSource_linked (unit fs) source hclosed
  have hstep := s.runSource_eq fs source log
  rw [h.config_eq] at hstep
  cases k : (linkSource fs config.library (unit fs) source).run (s.linker (unit fs).key log) with
  | stopped e l =>
    rw [finish_of_stopped k] at hstep
    exact Or.inl ⟨e, by rw [hstep], (hlink.of_stopped k).1⟩
  | done p l =>
    obtain ⟨hinfo, es, hlinked, hloaded, hclosed'⟩ := hlink.of_done k
    rw [finish_of_done k, h.config_eq] at hstep
    cases hprint : config.printTree with
    | true =>
      rw [hprint, if_pos rfl] at hstep
      refine Or.inr (Or.inl ⟨rfl, ?_⟩)
      rw [hstep]
      exact ((s.linked l).printProgram_eq p l.log).2
    | false =>
      rw [hprint, if_neg Bool.false_ne_true] at hstep
      exact Or.inr (Or.inr ⟨p, l, es, hprint, by rw [hinfo]; rfl, hlinked, hloaded,
        h.remember hclosed', hstep⟩)

/-- A step that lacks a namespace was linked and run, and some import of its plan is not answered. -/
theorem exists_unanswered (h : Steady fs config s)
    (hlacks : (lacking? (s.runSource fs source log)).isSome) :
    config.printTree = false ∧ ∃ code es before i request more,
      Linked fs config.library (unit fs) none s.loaded (requestsOf source) code es ∧
      es = before ++ .asks i request :: more ∧
      ¬Known s.interpreter.loaders.loaders (offered before) request.loaderKey := by
  obtain ⟨name, hname⟩ := Option.isSome_iff_exists.1 hlacks
  obtain ⟨d, hresult, hcause⟩ := lacking?_eq_some_iff.1 hname
  rcases runSource_cases h source log with ⟨e, he, hnot⟩ | ⟨-, hnone⟩ | ⟨p, l, es, hcarried⟩
  · rw [he] at hresult
    exact absurd hcause (hnot d _ (Except.error.inj hresult))
  · rw [hname] at hnone
    cases hnone
  · have hrun := (interpret_linked hcarried.root hcarried.linked hcarried.steady.sound ampleFuel
      l.scopes).2
    rw [hcarried.report] at hresult
    unfold runProgram at hresult
    split at hresult
    · cases hresult
    · next d' t hstopped =>
      cases hresult
      rw [hstopped] at hrun
      rcases hrun.2.2 with ⟨e, he, hallowed⟩ | ⟨request, t', d', hasked, hunknown, -, -⟩
      · rw [hcause] at he
        cases he
        exact absurd rfl (hallowed name)
      · obtain ⟨before, more, i, hes, hasking⟩ := hasked
        refine ⟨hcarried.runs, p.nodes, es, before, i, request, more, hcarried.linked, hes, ?_⟩
        intro hknown
        rw [(hasking.serving.has_iff request.loaderKey).2 hknown] at hunknown
        cases hunknown
    · cases hresult

/-- A step that goes well was linked and run as planned, and every import was answered. -/
theorem answered_of_ok (h : Steady fs config s) (hprint : config.printTree = false)
    (hok : (s.runSource fs source log).result.isOk) : ∃ code es,
      Linked fs config.library (unit fs) none s.loaded (requestsOf source) code es ∧
      (s.runSource fs source log).session.loaded = after es s.loaded ∧
      Serving fs config.library s.interpreter.loaders.loaders (offered es)
        (s.runSource fs source log).session.interpreter ∧
      Answered s.interpreter.loaders.loaders [] es := by
  rcases runSource_cases h source log with ⟨e, he, -⟩ | ⟨hprints, -⟩ | ⟨p, l, es, hcarried⟩
  · rw [he] at hok
    cases hok
  · rw [hprint] at hprints
    cases hprints
  · have hrun := (interpret_linked hcarried.root hcarried.linked hcarried.steady.sound ampleFuel
      l.scopes).2
    rw [hcarried.report] at hok ⊢
    rw [session_runProgram]
    unfold runProgram at hok
    split at hok
    · next value t hdone =>
      rw [hdone] at hrun ⊢
      obtain ⟨-, hserving, hanswered⟩ := hrun
      exact ⟨p.nodes, es, hcarried.linked, hcarried.loaded, hserving, hanswered⟩
    · cases hok
    · cases hok

/-- Every remembered file has its public members served, for the user or as a library module. -/
def ServesRemembered (s : Session) : Prop :=
  ∀ p ∈ s.loaded, ∃ o, s.interpreter.loaders.has (fileKey (p, o))

/-- A text that runs well leaves no remembered file unserved that was not so before. -/
theorem ServesRemembered.runSource (hs : s.ServesRemembered) (h : Steady fs config s)
    (hprint : config.printTree = false) (hok : (s.runSource fs source log).result.isOk) :
    (s.runSource fs source log).session.ServesRemembered := by
  obtain ⟨code, es, -, hloaded, hserving, -⟩ := answered_of_ok h hprint hok
  intro p hp
  rw [hloaded, mem_after_iff] at hp
  rcases hp with ⟨j, hj, rfl⟩ | hp
  · exact ⟨j.2, (hserving.has_iff _).2 (Or.inr ⟨j, hj, rfl⟩)⟩
  · obtain ⟨o, ho⟩ := hs p hp
    obtain ⟨l, hl, hl'⟩ := List.any_eq_true.1 ho
    exact ⟨o, (hserving.has_iff _).2 (Or.inl ⟨l, hl, hl'⟩)⟩

end Source

/-! ## Remembered files that are not served -/

section Lacking

variable {fs : FileSystem} {config : Config} {s : Session} {source : String} {log log₀ : FileLog}
  {console : Console} {random : RandomSource}

/-- An event of some events that were left out of others. -/
theorem exists_of_filter_eq {es before more : List Event} {e : Event} {f : Event → Bool}
    (h : es.filter f = before ++ e :: more) :
    ∃ before₀ more₀, es = before₀ ++ e :: more₀ ∧ before₀.filter f = before := by
  obtain ⟨es₁, es₂, rfl, hbefore, hmore⟩ := List.filter_eq_append_iff.1 h
  obtain ⟨skipped, es₃, rfl, hskipped, -, -⟩ := List.filter_eq_cons_iff.1 hmore
  refine ⟨es₁ ++ skipped, es₃, by rw [List.append_assoc], ?_⟩
  rw [List.filter_append, hbefore, List.filter_eq_nil_iff.2 hskipped, List.append_nil]

/-- A step that lacks a namespace, but goes well as the only step of a fresh session, leads to a file
that the session remembers and does not serve. -/
theorem unserved_of_lacking (h : Steady fs config s)
    (hlacks : (lacking? (s.runSource fs source log)).isSome)
    (hfresh : ((Session.new config console random).runSource fs source log₀).result.isOk) :
    ∃ j, j.1 ∈ ((Session.new config console random).runSource fs source log₀).session.loaded ∧
      ((Session.new config console random).runSource fs source
        log₀).session.interpreter.loaders.has (fileKey j) ∧
      j.1 ∈ s.loaded ∧ s.interpreter.loaders.has (fileKey j) = false := by
  obtain ⟨hprint, code, es, before, i, request, more, hlinked, hes, hunknown⟩ :=
    exists_unanswered h hlacks
  obtain ⟨code₀, es₀, hlinked₀, hloaded₀, hserving₀, hanswered₀⟩ :=
    answered_of_ok (steady_new fs config console random) hprint hfresh
  have hfilter := hlinked₀.filter_isNew h.closed hlinked
    (fun p => ⟨Or.inl, fun hp => hp.resolve_right List.not_mem_nil⟩) nofun
  rw [hes] at hfilter
  obtain ⟨before₀, more₀, rfl, hbefore⟩ := exists_of_filter_eq hfilter.symm
  rcases hanswered₀.known with ⟨l, hl, hhas⟩ | ⟨j, hj, hkey⟩
  · rw [List.mem_singleton.1 hl] at hhas
    exact absurd (Or.inl ⟨_, h.natives, hhas⟩) hunknown
  · rw [List.append_nil] at hj
    have hoffered : j ∈ offered (before₀ ++ .asks i request :: more₀) := by
      rw [offered_append]
      exact List.mem_append_right _ hj
    refine ⟨j, ?_, (hserving₀.has_iff _).2 (Or.inr ⟨j, hoffered, rfl⟩), ?_, ?_⟩
    · rw [hloaded₀]
      exact List.mem_append_left _ (List.mem_map_of_mem hoffered)
    · by_contra hnew
      refine hunknown (Or.inr ⟨j, ?_, hkey⟩)
      rw [← hbefore]
      exact mem_offered_filter.2 ⟨hj, hnew⟩
    · rw [Bool.eq_false_iff, hkey]
      intro hhas
      obtain ⟨l, hl, hl'⟩ := List.any_eq_true.1 hhas
      exact hunknown (Or.inl ⟨l, hl, hl'⟩)

section Known

variable {request : Import} (hrequests : requestsOf source = [request]) (hext : request.isExternal)
  {g : Path} (hg : fs.canonical fs.workingDirectory request.source = .ok g) (hthere : g ∈ s.loaded)

include hrequests hext hg hthere

/-- The plan of a step that imports one remembered file is to ask for it. -/
theorem eq_asks_of_known {code : Code} {es : List Event}
    (h : Linked fs config.library (unit fs) none s.loaded (requestsOf source) code es) :
    es = [.asks none request] := by
  rw [hrequests] at h
  cases h with
  | known _ _ _ rest =>
    cases rest
    rfl
  | fresh _ leads new =>
    have hj := leads.canonical_external hext
    exact absurd (Except.ok.inj (hg.symm.trans hj) ▸ hthere) new

/-- A step that imports one remembered file is linked to that import and what follows it. -/
theorem exists_linked_known (library : String) (log : FileLog) :
    ∃ p l m rest, (linkSource fs library (unit fs) source).run (s.linker (unit fs).key log) =
      .done p l ∧ p.info = (unit fs).info ∧ p.nodes = .importing m request :: rest := by
  have hleads : LeadsTo fs library (unit fs) request (g, .user) := .byPath hext hg
  have hname : hasEnding sourceExtension g.fileName := by
    rw [fileName_external hext hg]
    exact hasEnding_loaderKey hext
  have hacyclic : (connected (unit fs) g (s.linker (unit fs).key log)).graph.isCircular = false :=
    DependencyGraph.isCircular_single (key_ofText_ne_text defaultFile fs.workingDirectory hname)
  have hlink : Meets (linkSource fs library (unit fs) source) (s.linker (unit fs).key log)
      (fun p _ => p.info = (unit fs).info ∧ ∃ m rest, p.nodes = .importing m request :: rest)
      (fun _ _ => False) :=
    meets_linkText_known hrequests hleads hacyclic hthere
  cases k : (linkSource fs library (unit fs) source).run (s.linker (unit fs).key log) with
  | stopped e l => exact (hlink.of_stopped k).elim
  | done p l =>
    obtain ⟨hinfo, m, rest, hnodes⟩ := hlink.of_done k
    exact ⟨p, l, m, rest, rfl, hinfo, hnodes⟩

/-- **An import of a remembered file lacks its namespace exactly if the file is not served.** -/
theorem isSome_lacking?_known (h : Steady fs config s) (hprint : config.printTree = false) :
    (lacking? (s.runSource fs source log)).isSome ↔
      s.interpreter.loaders.has g.fileName = false := by
  rw [fileName_external hext hg]
  constructor
  · intro hlacks
    obtain ⟨-, code, es, before, i, request', more, hlinked, hes, hunknown⟩ :=
      exists_unanswered h hlacks
    rw [eq_asks_of_known hrequests hext hg hthere hlinked] at hes
    obtain ⟨rfl, hevent⟩ : before = [] ∧ Event.asks none request = .asks i request' := by
      cases before with
      | nil => exact ⟨rfl, (List.cons.inj hes).1⟩
      | cons e before => simp at hes
    cases hevent
    rw [Bool.eq_false_iff]
    intro hhas
    obtain ⟨l, hl, hl'⟩ := List.any_eq_true.1 hhas
    exact hunknown (Or.inl ⟨l, hl, hl'⟩)
  · intro hunknown
    obtain ⟨p, l, m, rest, hlinks, hinfo, hnodes⟩ :=
      exists_linked_known hrequests hext hg hthere config.library log
    have hroot : p.info.isRoot = true := by
      rw [hinfo]
      rfl
    have hstarted : (started l.scopes p.info (s.remember l).interpreter).loaders.has
        request.loaderKey = false := hunknown
    obtain ⟨d, hstopped, hcause⟩ := exec_importing_of_unknown hstarted (ampleFuel - 1) m rest
    have hrun := run_interpretWith hroot importNames ampleFuel l.scopes (s.remember l).interpreter
    rw [interpretWith_importNames, execWith_importNames, hnodes] at hrun
    rw [show ampleFuel - 1 + 1 = ampleFuel from rfl] at hstopped
    rw [hstopped] at hrun
    rw [Option.isSome_iff_exists]
    refine ⟨request.source, lacking?_eq_some_iff.2 ⟨d, ?_, hcause⟩⟩
    rw [runSource_eq, h.config_eq, finish_of_done hlinks, h.config_eq, hprint,
      if_neg Bool.false_ne_true, runProgram, hrun]

end Known

end Lacking

/-- **When a step lacks its namespace although it goes well as the only step of a fresh session.**
Whatever steps the session has made, an import by path then leads to a file that the session
remembers and does not serve; and if its own file is remembered, it lacks its namespace exactly if
that file is not served. A text that runs well is not the cause of that: afterwards all remembered
files are served, if they were before. -/
theorem lacking_runSource {fs : FileSystem} {config : Config} {s : Session}
    (hs : Reachable fs config s) {source : String} {request : Import}
    (hrequests : requestsOf source = [request]) (hext : request.isExternal) {console : Console}
    {random : RandomSource} {log₀ : FileLog} {fresh : RunReport}
    (hfresh : fresh = (Session.new config console random).runSource fs source log₀)
    (hok : fresh.result.isOk) (log : FileLog) :
    ((lacking? (s.runSource fs source log)).isSome → ∃ j, j.1 ∈ fresh.session.loaded ∧
        fresh.session.interpreter.loaders.has (fileKey j) ∧ j.1 ∈ s.loaded ∧
        s.interpreter.loaders.has (fileKey j) = false) ∧
      (∀ g, fs.canonical fs.workingDirectory request.source = .ok g → g ∈ s.loaded →
        config.printTree = false → ((lacking? (s.runSource fs source log)).isSome ↔
          s.interpreter.loaders.has g.fileName = false)) ∧
      (config.printTree = false → s.ServesRemembered → (s.runSource fs source log).result.isOk →
        (s.runSource fs source log).session.ServesRemembered) := by
  subst hfresh
  refine ⟨?_, ?_, ?_⟩
  · intro hlacks
    exact unserved_of_lacking hs.steady hlacks hok
  · intro g hg hthere hprint
    exact isSome_lacking?_known hrequests hext hg hthere hs.steady hprint
  · intro hprint hserves hok'
    exact hserves.runSource hs.steady hprint hok'

/-! ## An example -/

/-- A file in order and one that is not. -/
def mixed : FileSystem where
  workingDirectory := []
  entries :=
    [(["main.twl"], .file "public def f { }".toUTF8.toList),
      (["bad.twl"], .file "def".toUTF8.toList)]

/-- The import of an entry file lacks its namespace. -/
theorem lacking_entry :
    Reachable mixed {} ((Session.new {} {}).runFile mixed "main.twl" {}).session ∧
      ((Session.new {} {}).runSource mixed "import \"main.twl\"" {}).result.isOk ∧
      (lacking? (((Session.new {} {}).runFile mixed "main.twl" {}).session.runSource mixed
        "import \"main.twl\"" {})).isSome := by
  have hs : Reachable mixed {} ((Session.new {} {}).runFile mixed "main.twl" {}).session :=
    .runFile (.new {} {}) "main.twl" {}
  have hok : ((Session.new {} {}).runSource mixed "import \"main.twl\"" {}).result.isOk := by
    decide +kernel
  have hsources : (requestsOf "import \"main.twl\"").map Import.source = ["main.twl"] := by
    decide +kernel
  obtain ⟨request, hrequests, hsource⟩ := List.map_eq_singleton_iff.1 hsources
  have hthere : ["main.twl"] ∈ ((Session.new {} {}).runFile mixed "main.twl" {}).session.loaded := by
    decide +kernel
  have hunserved : (((Session.new {} {}).runFile mixed "main.twl"
      {}).session.interpreter.loaders.has "main.twl") = false := by
    decide +kernel
  have hext : request.isExternal := by
    unfold Import.isExternal
    rw [hsource]
    decide
  have hfound : mixed.canonical mixed.workingDirectory request.source = .ok ["main.twl"] := by
    rw [hsource]
    rfl
  have hexact := (lacking_runSource hs hrequests hext rfl hok {}).2.1 ["main.twl"] hfound hthere rfl
  exact ⟨hs, hok, hexact.2 hunserved⟩

/-- A file is remembered although it is not served: if it was the entry of a program, and if it was
linked for a program that was then refused. -/
theorem lacking_remembered :
    ((Session.new {} {}).runSource mixed "import \"main.twl\"" {}).result.isOk ∧
      lacking? (((Session.new {} {}).runFile mixed "main.twl" {}).session.runSource mixed
        "import \"main.twl\"" {}) = some "main.twl" ∧
      lacking? (((Session.new {} {}).runSource mixed "import \"main.twl\"\nimport \"bad.twl\""
        {}).session.runSource mixed "import \"main.twl\"" {}) = some "main.twl" := by
  decide +kernel

end Session

end Catena

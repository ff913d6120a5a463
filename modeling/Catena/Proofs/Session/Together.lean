import Catena.Proofs.Evaluation.Creation
import Catena.Proofs.Evaluation.Sameness
import Catena.Proofs.Evaluation.Seclusion

/-!
# Texts that are run together

A session that runs a text and then another one ends as if it had run both as one text, with a line
feed between them (`runSource_seam`). Not all is the same: the modules that the first text imports are
numbered after the second one if that is there, and positions are counted on. So states are compared
but for numbers and places (`Interpreter.Same`).

Whatever a session has run, the names in its code have numbers that have been drawn
(`Arises.numbered`), so numbers that are drawn later change nothing. This is so as long as there are
words for all numbers (`Session.WithinWords`). Where the words have come round, it matters how many
nodes were made before a text, and two steps can differ from one (`runSource_seam_late`).
-/

namespace Catena

open Evaluation Linking

/-! ## Numbers that a session has drawn -/

/-- The names in the code of a state have numbers that have been drawn, and only such numbers have
names. -/
structure Interpreter.Numbered (s : Interpreter) : Prop where
  same : s.Same s
  ahead : ∀ id, s.nextId ≤ id → s.scopes.names.lookup id = none

/-- The numbers and names with which a linked program is run. -/
def Interpreter.joined (s : Interpreter) (l : Linker) : Register :=
  ⟨0, l.nextId, s.scopes.extend l.scopes⟩

/-- A linker that starts with the numbers that a state has left, and what it has become. -/
structure Interpreter.Links (s : Interpreter) (l : Linker) : Prop where
  le : s.nextId ≤ l.nextId
  later : ∀ id < s.nextId, l.scopes.names.lookup id = none
  ahead : Ahead l

namespace Interpreter

variable {s : Interpreter} {l : Linker}

theorem Links.extends (hl : s.Links l) : s.register.Extends (s.joined l) := by
  refine ⟨Nat.le_refl _, hl.le, fun id _ hid => ?_⟩
  show (s.scopes.extend l.scopes).names.lookup id = _
  rw [ScopeTable.lookup_extend, hl.later id hid]
  rfl

theorem Numbered.extends_linker (h : s.Numbered) (l : Linker) :
    (Linking.register s.nextId l).Extends (s.joined l) := by
  refine ⟨Nat.zero_le _, Nat.le_refl _, fun id hid _ => ?_⟩
  show (s.scopes.extend l.scopes).names.lookup id = _
  rw [ScopeTable.lookup_extend, h.ahead id hid, Option.or_none]
  rfl

theorem Numbered.ahead_joined (h : s.Numbered) (hl : s.Links l) {id : NodeId} (hid : l.nextId ≤ id) :
    (s.joined l).table.names.lookup id = none := by
  show (s.scopes.extend l.scopes).names.lookup id = _
  rw [ScopeTable.lookup_extend, hl.ahead id hid, h.ahead id (Nat.le_trans hl.le hid)]
  rfl

end Interpreter

/-- A root program runs in place. -/
theorem Evaluation.run_interpret_root {p : Program NodeId} (hroot : p.info.isRoot = true) (fuel : Nat)
    (scopes : ScopeTable) (s : Interpreter) :
    (interpret fuel scopes p).run s =
      match (exec fuel p.nodes).run (started scopes p.info s) with
      | .done _ t => .done t.stack.peek? { t with current := s.current, file := s.file }
      | .stopped halt t => .stopped halt { t with current := s.current, file := s.file } := by
  rw [← interpretWith_importNames, ← execWith_importNames]
  exact run_interpretWith hroot importNames fuel scopes s

theorem Evaluation.each_append (f : Node NodeId → Eval Unit) (code more : Code) :
    each f (code ++ more) = each f code >>= fun _ => each f more := by
  induction code with
  | nil => rfl
  | cons n rest ih => simp only [List.cons_append, each, ih, bind_assoc]

/-- Code is run in order. -/
theorem Evaluation.exec_append (fuel : Nat) (code more : Code) :
    exec fuel (code ++ more) = exec fuel code >>= fun _ => exec fuel more := by
  cases fuel with
  | zero => rfl
  | succ fuel => exact each_append _ code more

namespace Session

variable {s : Session}

theorem level_linker (s : Session) (root : String) (log log' : FileLog) :
    Level s.interpreter.nextId s.interpreter.nextId (s.linker root log) (s.linker root log') where
  graph := rfl
  loaded := rfl
  le := Nat.le_refl _
  le' := Nat.le_refl _
  ahead _ _ := rfl
  ahead' _ _ := rfl

/-- A linker that a session has started only adds to what was there, also when it stops. -/
theorem follows_of_link (s : Session) (start : Linking.Start) (fs : FileSystem) (library root : String)
    (log : FileLog) :
    Follows (s.linker root log) ((start.link fs library).run (s.linker root log)).state := by
  have hpairs : Pairs _ _ _ _ (start.link fs library) (start.link fs library) _ :=
    pairs_link start (s.level_linker root log log)
  unfold Pairs at hpairs
  cases hlink : (start.link fs library).run (s.linker root log) with
  | stopped e l =>
    rw [hlink] at hpairs
    exact hpairs.follows
  | done p l =>
    rw [hlink] at hpairs
    exact hpairs.1.follows

theorem links_of_follows {root : String} {log : FileLog} {l : Linker}
    (h : Follows (s.linker root log) l) (hahead : Ahead l) : s.interpreter.Links l where
  le := h.le
  later id hid := h.same id hid
  ahead := hahead

/-- No more nodes have been made than there are words for their numbers. -/
def WithinWords (s : Session) : Prop :=
  s.interpreter.nextId ≤ wordCount + 1

instance (s : Session) : Decidable s.WithinWords :=
  inferInstanceAs (Decidable (_ ≤ _))

theorem nextId_le_runProgram (s : Session) (scopes : ScopeTable) (p : Program NodeId)
    (log : FileLog) :
    s.interpreter.nextId ≤ (s.runProgram scopes p log).session.interpreter.nextId := by
  rw [session_runProgram]
  exact (drawn_visited ampleFuel scopes p s.interpreter).le

theorem nextId_le_finish (s : Session) (fs : FileSystem) (library : String)
    (start : Linking.Start) (root : String) (log : FileLog) : s.interpreter.nextId ≤
      (s.finish (start.link fs library) root log).session.interpreter.nextId := by
  have hfollows := s.follows_of_link start fs library root log
  cases hlink : (start.link fs library).run (s.linker root log) with
  | stopped e l =>
    rw [hlink] at hfollows
    rw [finish_of_stopped hlink]
    exact hfollows.le
  | done p l =>
    rw [hlink] at hfollows
    have hle : s.interpreter.nextId ≤ l.nextId := hfollows.le
    rw [finish_of_done hlink]
    split
    · obtain ⟨console, hsession⟩ := ((s.linked l).printProgram_eq p l.log).1
      rw [hsession]
      exact hle
    · exact Nat.le_trans hle ((s.remember l).nextId_le_runProgram l.scopes p l.log)

/-- A program that is run while there are words for all nodes finds the table as it was left. -/
theorem runProgram_remember {l : Linker} {scopes : ScopeTable} {p : Program NodeId} {log : FileLog}
    (hwords : ((s.remember l).runProgram scopes p log).session.WithinWords) :
    (s.remember l).runProgram scopes p log = (s.linked l).runProgram scopes p log := by
  have hle := (s.remember l).nextId_le_runProgram scopes p log
  rw [s.remember_of_le (Nat.le_trans hle hwords)]

/-- Numbers that are drawn and not used change nothing. -/
theorem numbered_linked (h : s.interpreter.Numbered) {l : Linker}
    (hl : s.interpreter.nextId ≤ l.nextId) : (s.linked l).interpreter.Numbered where
  same := by
    have hextends : s.interpreter.register.Extends (s.linked l).interpreter.register :=
      ⟨Nat.le_refl _, hl, fun _ _ _ => rfl⟩
    exact Interpreter.same_of_states (h.same.states hextends hextends (Nat.le_refl _) (Nat.le_refl _)
      s.interpreter.depth s.interpreter.file)
  ahead id hid := h.ahead id (Nat.le_trans hl hid)

theorem numbered_runProgram (h : s.interpreter.Numbered) {l : Linker} (hl : s.interpreter.Links l)
    {p : Program NodeId} (hroot : p.info.isRoot = true)
    (hcode : (Linking.register s.interpreter.nextId l).Same (Linking.register s.interpreter.nextId l)
      p.nodes p.nodes) (log : FileLog) :
    ((s.linked l).runProgram l.scopes p log).session.interpreter.Numbered := by
  let S := s.interpreter.joined l
  have hstart := h.same.states hl.extends hl.extends (Nat.le_refl _) (Nat.le_refl _) 0
    (p.info.file.or s.interpreter.file)
  have hnodes : (S.translation S).Codes p.nodes p.nodes :=
    Register.codes_iff.2 (hcode.mono (h.extends_linker l) (h.extends_linker l))
  have hrun : (S.translation S).correspondence.Outcomes (fun _ _ => True)
      ((exec ampleFuel p.nodes).run (started l.scopes p.info (s.linked l).interpreter))
      ((exec ampleFuel p.nodes).run (started l.scopes p.info (s.linked l).interpreter)) :=
    Translation.pairs_run ampleFuel hnodes _ _ hstart
  have hend : ∀ t, (S.translation S).correspondence.States t t → ∀ current file,
      { t with current, file : Interpreter }.Numbered := by
    intro t ht current file
    refine ⟨(Interpreter.same_of_states ht).moved current file, fun id hid => ?_⟩
    have hplace : (S.translation S).Place t t := ht.place
    have hscopes : t.scopes = S.table := hplace.scopes
    show t.scopes.names.lookup id = none
    rw [hscopes]
    exact h.ahead_joined hl (Nat.le_trans ht.nextId.1 hid)
  rw [session_runProgram, run_interpret_root hroot]
  cases hexec : (exec ampleFuel p.nodes).run (started l.scopes p.info (s.linked l).interpreter) with
  | done a t =>
    rw [hexec] at hrun
    exact hend t hrun.2 _ _
  | stopped halt t =>
    rw [hexec] at hrun
    cases halt with
    | failed d => exact hend t hrun.2 _ _
    | exhausted => exact hend t hrun.2 _ _

theorem numbered_finish (h : s.interpreter.Numbered) (fs : FileSystem) (library : String)
    (start : Linking.Start) (root : String) (log : FileLog)
    (hwords : (s.finish (start.link fs library) root log).session.WithinWords) :
    (s.finish (start.link fs library) root log).session.interpreter.Numbered := by
  cases hlink : (start.link fs library).run (s.linker root log) with
  | stopped e l =>
    have hfollows := s.follows_of_link start fs library root log
    rw [hlink] at hfollows
    rw [finish_of_stopped hlink]
    exact numbered_linked h hfollows.le
  | done p l =>
    obtain ⟨p', l', hlink', hlater, halike⟩ :=
      (pairs_link start (s.level_linker root log log)).exists_of_done hlink
    cases hlink.symm.trans hlink'
    have hroot := ((meets_link_layered start (s.linker root log)).of_done hlink).1
    rw [finish_of_done hlink] at hwords ⊢
    by_cases hprint : s.config.printTree
    · rw [if_pos hprint]
      obtain ⟨console, hsession⟩ := ((s.linked l).printProgram_eq p l.log).1
      rw [hsession]
      obtain ⟨hsame, hahead⟩ := numbered_linked h hlater.follows.le
      exact ⟨{ hsame with console := rfl }, hahead⟩
    · rw [if_neg hprint] at hwords ⊢
      rw [runProgram_remember hwords]
      exact numbered_runProgram h (links_of_follows hlater.follows hlater.ahead) hroot halike.nodes
        l.log

/-- **As long as there are words for all nodes, the names in the code of a session have numbers that
have been drawn**, whatever it has run. -/
theorem Arises.numbered {config : Config} (h : Arises config s) (hwords : s.WithinWords) :
    s.interpreter.Numbered := by
  refine h.invariant_of_finish (I := fun s => s.nextId ≤ wordCount + 1 → s.Numbered) ?_ ?_ ?_ hwords
  · intro console random _
    have hfresh : Fresh (Session.new config console random).interpreter := ⟨rfl, rfl, rfl, rfl, rfl⟩
    refine ⟨⟨.nil, rfl, ⟨rfl, fun id => ?_⟩, .cons .natives .nil, rfl, rfl, rfl, rfl, rfl⟩,
      fun _ _ => rfl⟩
    rw [hfresh.get_eq]
    exact .empty
  · exact fun s console hs hwords => ⟨{ (hs hwords).same with console := rfl }, (hs hwords).ahead⟩
  · intro s fs library start root log hs hwords
    have hbefore := Nat.le_trans (s.nextId_le_finish fs library start root log) hwords
    exact numbered_finish (hs hbefore) fs library start root log hwords

/-! ## Reports that are the same -/

end Session

/-- Results that are the same: values with the same code, or the same error in the same file, at some
place and with notes of the same kind. -/
inductive Register.SameResult (R R' : Register) :
    Except RunError (Option Value) → Except RunError (Option Value) → Prop
  | value {v v' : Option Value} (h : Option.Rel (R.SameValue R') v v') :
    SameResult R R' (.ok v) (.ok v')
  | failure {d d' : Diagnostic} (h : d.Alike (· = ·) (fun _ _ => True) d') :
    SameResult R R' (.error (.diagnostic d)) (.error (.diagnostic d'))
  | exhausted : SameResult R R' (.error .exhausted) (.error .exhausted)

/-- Reports of runs that end the same, in sessions that are the same. -/
structure RunReport.Same (r r' : RunReport) : Prop where
  config : r'.session.config = r.session.config
  loaded : r'.session.loaded = r.session.loaded
  interpreter : r.session.interpreter.Same r'.session.interpreter
  result : r.session.interpreter.register.SameResult r'.session.interpreter.register r.result r'.result

namespace Session

open Register

variable {S S' : Register} {s s' : Session} {p p' : Program NodeId} {scopes scopes' : ScopeTable}
  {log log' : FileLog}

/-- Runs that end the same give the same report. -/
theorem same_runProgram (hroot : p.info.isRoot = true) (hroot' : p'.info.isRoot = true)
    (config : s'.config = s.config) (loaded : s'.loaded = s.loaded)
    (current : s'.interpreter.current = s.interpreter.current)
    (file : s'.interpreter.file = s.interpreter.file)
    (hrun : (S.translation S').correspondence.Outcomes (fun _ _ => True)
      ((exec ampleFuel p.nodes).run (started scopes p.info s.interpreter))
      ((exec ampleFuel p'.nodes).run (started scopes' p'.info s'.interpreter))) :
    (s.runProgram scopes p log).Same (s'.runProgram scopes' p' log') := by
  unfold runProgram
  rw [run_interpret_root hroot, run_interpret_root hroot', current, file]
  generalize (exec ampleFuel p.nodes).run (started scopes p.info s.interpreter) = o,
    (exec ampleFuel p'.nodes).run (started scopes' p'.info s'.interpreter) = o' at hrun ⊢
  cases o with
  | done a t =>
    cases o' with
    | done a' t' =>
      have hsame := Interpreter.same_of_states hrun.2
      exact ⟨config, loaded, hsame.moved _ _, .value (Translation.rel_peek? hsame.stack)⟩
    | stopped halt' t' => exact hrun.elim
  | stopped halt t =>
    cases o' with
    | done a' t' => cases halt <;> exact hrun.elim
    | stopped halt' t' =>
      cases halt with
      | failed d =>
        cases halt' with
        | failed d' =>
          exact ⟨config, loaded, (Interpreter.same_of_states hrun.2).moved _ _, .failure hrun.1⟩
        | exhausted => exact hrun.elim
      | exhausted =>
        cases halt' with
        | failed d' => exact hrun.elim
        | exhausted =>
          exact ⟨config, loaded, (Interpreter.same_of_states hrun.2).moved _ _, .exhausted⟩

/-! ## One step or two -/

variable {fs : FileSystem} {a b source : String}

theorem runSource_of_link (hprint : s.config.printTree = false) {r : Program NodeId} {k : Linker}
    (h : (linkSource fs s.config.library (unit fs) source).run (s.linker (unit fs).key log) =
      .done r k) (hwords : (s.runSource fs source log).session.WithinWords) :
    s.runSource fs source log = (s.linked k).runProgram k.scopes r k.log := by
  have hrun : s.runSource fs source log = (s.remember k).runProgram k.scopes r k.log := by
    rw [runSource_eq, finish_of_done h, hprint]
    rfl
  rw [hrun] at hwords ⊢
  exact runProgram_remember hwords

/-- A text that runs well was linked and run to its end. -/
theorem exists_of_isOk (hprint : s.config.printTree = false)
    (h : (s.runSource fs source log).result.isOk)
    (hwords : (s.runSource fs source log).session.WithinWords) : ∃ r k u,
      (linkSource fs s.config.library (unit fs) source).run (s.linker (unit fs).key log) = .done r k ∧
      (exec ampleFuel r.nodes).run (started k.scopes r.info (s.linked k).interpreter) =
        .done () u ∧
      (s.runSource fs source log).session = { s.linked k with
        interpreter := { u with current := s.interpreter.current, file := s.interpreter.file } } := by
  cases hlink : (linkSource fs s.config.library (unit fs) source).run (s.linker (unit fs).key log) with
  | stopped e l =>
    rw [runSource_eq, finish_of_stopped hlink] at h
    cases h
  | done r k =>
    have hroot : r.info.isRoot = true :=
      ((meets_link_layered (.text (unit fs) source) _).of_done hlink).1
    refine ⟨r, k, ?_⟩
    rw [runSource_of_link hprint hlink hwords] at h ⊢
    rw [session_runProgram, run_interpret_root hroot]
    unfold runProgram at h
    rw [run_interpret_root hroot] at h
    cases hexec : (exec ampleFuel r.nodes).run
        (started k.scopes r.info (s.linked k).interpreter) with
    | done _ u => exact ⟨u, rfl, rfl, rfl⟩
    | stopped halt u =>
      rw [hexec] at h
      cases halt <;> cases h

/-- Two texts half done. With the first one alone, the session `s` has become `t`. With both as one
text, it has linked `r'` and come to `u`, and `more` is left to be run: the code of the second text,
which spells `q`. -/
structure Halfway (fs : FileSystem) (s t : Session) (q : Program Unit) (r' : Program NodeId)
    (k' : Linker) (u : Interpreter) (more : Code) : Prop where
  config : t.config = s.config
  loaded : k'.loaded = t.loaded
  current : t.interpreter.current = s.interpreter.current
  file : t.interpreter.file = s.interpreter.file
  info : r'.info = (unit fs).info
  same : { t.interpreter with
      depth := 0, file := (unit fs).info.file.or t.interpreter.file : Interpreter }.Same u
  code : ∀ m, (Scope.registered q m).Same u.register (Node.numberAll m q.nodes).1 more
  left : (exec ampleFuel r'.nodes).run (started k'.scopes r'.info (s.linked k').interpreter) =
    (exec ampleFuel more).run u

/-- A text that is linked is so with another one after it. -/
theorem exists_link_seam {r : Program NodeId} {k : Linker}
    (hlink : (linkSource fs s.config.library (unit fs) a).run (s.linker (unit fs).key log) =
      .done r k)
    (hclosed : Source.ClosesComments a) {q : Program Unit} (hb : program? b = some q)
    (himports : q.imports = []) (log' : FileLog) : ∃ r' k' code more,
      (linkSource fs s.config.library (unit fs) (a ++ "\n" ++ b)).run (s.linker (unit fs).key log') =
        .done r' k' ∧
      Later s.interpreter.nextId s.interpreter.nextId (s.linker (unit fs).key log)
        (s.linker (unit fs).key log') k k' ∧
      Continued (unit fs) q s.interpreter.nextId s.interpreter.nextId r r' k k' code more := by
  have hreads : ∃ p, program? a = some p := by
    refine Option.ne_none_iff_exists'.1 fun hnone => ?_
    obtain ⟨e, log, next, -, hrefused⟩ := run_linkText_refused fs s.config.library
      (linkFile fs s.config.library (fuelFor fs)) (unit fs) (s.linker (unit fs).key log) hnone
    cases hlink.symm.trans hrefused
  obtain ⟨p, hp⟩ := hreads
  have hpairs : Pairs _ _ _ _ (linkSource fs s.config.library (unit fs) a)
      (linkSource fs s.config.library (unit fs) (a ++ "\n" ++ b)) _ :=
    pairs_linkText_seam (fun path origin _ _ => pairs_linkFile (fuelFor fs) path origin)
      (s.level_linker (unit fs).key log log') (unit fs) hp hclosed hb himports
  obtain ⟨r', k', hlink', hlater, code, more, hcontinued⟩ := hpairs.exists_of_done hlink
  exact ⟨r', k', code, more, hlink', hlater, hcontinued⟩

/-- Code that two linkers have linked runs to the same end. -/
theorem exists_exec_same (hs : s.interpreter.Numbered) {k k' : Linker} (hk : s.interpreter.Links k)
    (hk' : s.interpreter.Links k') {c c' : Code}
    (hcode : (Linking.register s.interpreter.nextId k).Same
      (Linking.register s.interpreter.nextId k') c c') {info : ProgramInfo} {t : Interpreter}
    (hexec : (exec ampleFuel c).run (started k.scopes info (s.linked k).interpreter) = .done () t) :
    ∃ u, (exec ampleFuel c').run (started k'.scopes info (s.linked k').interpreter) = .done () u ∧
      t.Same u ∧ (s.interpreter.joined k').Extends u.register := by
  let S := s.interpreter.joined k
  let S' := s.interpreter.joined k'
  have hcodes : (S.translation S').Codes c c' :=
    Register.codes_iff.2 (hcode.mono (hs.extends_linker k) (hs.extends_linker k'))
  have hrun : (S.translation S').correspondence.Outcomes (fun _ _ => True)
      ((exec ampleFuel c).run (started k.scopes info (s.linked k).interpreter))
      ((exec ampleFuel c').run (started k'.scopes info (s.linked k').interpreter)) :=
    Translation.pairs_run ampleFuel hcodes _ _
      (hs.same.states hk.extends hk'.extends (Nat.le_refl _) (Nat.le_refl _) 0 _)
  rw [hexec] at hrun
  cases hexec' : (exec ampleFuel c').run (started k'.scopes info (s.linked k').interpreter) with
  | stopped halt u => rw [hexec'] at hrun; exact hrun.elim
  | done _ u =>
    rw [hexec'] at hrun
    exact ⟨u, rfl, Interpreter.same_of_states hrun.2, (Interpreter.extends_of_states hrun.2).2⟩

/-- A text that runs well does so with another one after it. -/
theorem exists_halfway (hs : s.interpreter.Numbered) (hprint : s.config.printTree = false)
    (hok : (s.runSource fs a log).result.isOk)
    (hwords : (s.runSource fs a log).session.WithinWords) (hclosed : Source.ClosesComments a)
    {q : Program Unit} (hb : program? b = some q) (himports : q.imports = []) (log' : FileLog) :
    ∃ r' k' u more,
      (linkSource fs s.config.library (unit fs) (a ++ "\n" ++ b)).run (s.linker (unit fs).key log') =
        .done r' k' ∧
      Halfway fs s (s.runSource fs a log).session q r' k' u more := by
  obtain ⟨r, k, t, hlink, hexec, hsession⟩ := exists_of_isOk hprint hok hwords
  obtain ⟨r', k', code, more, hlink', hlater, hcontinued⟩ :=
    exists_link_seam hlink hclosed hb himports log'
  rw [hcontinued.info] at hexec
  obtain ⟨u, hexec', hsame, hextends⟩ := exists_exec_same hs
    (links_of_follows hlater.follows hlater.ahead) (links_of_follows hlater.follows' hlater.ahead')
    hcontinued.same hexec
  have hframe := (exec_ends ampleFuel r.nodes
    (started k.scopes (unit fs).info (s.linked k).interpreter)).keeps.toFrame
  rw [hexec] at hframe
  refine ⟨r', k', u, more, hlink', ?_⟩
  rw [hsession]
  exact
    { config := rfl
      loaded := hlater.loaded
      current := rfl
      file := rfl
      info := hcontinued.info'
      same := (Interpreter.placed_eq hframe.current hframe.depth hframe.file).symm ▸ hsame
      code := fun m => (hcontinued.rest m).mono (.refl _) ((hs.extends_linker k').trans hextends)
      left := by
        rw [hcontinued.nodes, exec_append, Action.run_bind, hcontinued.info', hexec'] }

/-- The rest of two texts runs as the second one does in a session that has run the first one. -/
theorem Halfway.same_report {t : Session} {q : Program Unit} {r' : Program NodeId} {k' : Linker}
    {u : Interpreter} {more : Code} (h : Halfway fs s t q r' k' u more)
    (ht : t.interpreter.Numbered) (hprint : s.config.printTree = false)
    (hb : program? b = some q) (himports : q.imports = []) (log : FileLog)
    (hwords : (t.runSource fs b log).session.WithinWords) :
    (t.runSource fs b log).Same ((s.linked k').runProgram k'.scopes r' k'.log) := by
  obtain ⟨hq, hzero⟩ := program?_eq_some_iff.1 hb
  let l := t.linker (unit fs).key log
  have hpass := (Scope.failed_number q l.nextId 0).trans hzero
  obtain ⟨log', hlink⟩ := run_linkText_plain fs t.config.library
    (linkFile fs t.config.library (fuelFor fs)) (unit fs) hq hpass
    (plain_of_program? hb himports l.nextId)
  have hlevel : Level _ _ l l := t.level_linker (unit fs).key log log
  have hlater := hlevel.checked hq hq hpass hpass log' log'
  have hlinks : t.interpreter.Links (checked q log' l) := links_of_follows hlater.follows hlater.ahead
  let S := t.interpreter.joined (checked q log' l)
  have hcode : (S.translation u.register).Codes (Node.numberAll l.nextId q.nodes).1 more :=
    Register.codes_iff.2 ((h.code l.nextId).mono
      ((extends_checked q log' hlevel.ahead (Nat.le_refl _)).trans (ht.extends_linker _)) (.refl _))
  have hrun : (S.translation u.register).correspondence.Outcomes (fun _ _ => True)
      ((exec ampleFuel (Node.numberAll l.nextId q.nodes).1).run (started (checked q log' l).scopes
        (unit fs).info (t.linked (checked q log' l)).interpreter))
      ((exec ampleFuel more).run
        { u with depth := 0, file := (unit fs).info.file.or t.interpreter.file }) :=
    Translation.pairs_run ampleFuel hcode _ _
      (h.same.states hlinks.extends (.refl _) (Nat.le_refl _) (Nat.le_refl _) 0 _)
  have hback : { u with depth := 0, file := (unit fs).info.file.or t.interpreter.file } = u :=
    Interpreter.placed_eq rfl h.same.depth h.same.file
  rw [hback, ← h.left] at hrun
  rw [runSource_of_link (h.config.symm ▸ hprint) hlink hwords]
  exact same_runProgram rfl (congrArg ProgramInfo.isRoot h.info) h.config.symm h.loaded
    h.current.symm h.file.symm hrun

/-- **Two texts that are run one after the other do what they do as one text**, as long as there are
words for all nodes. -/
theorem runSource_seam {config : Config} (hs : Arises config s) (hprint : s.config.printTree = false)
    (hok : (s.runSource fs a log).result.isOk) (hclosed : Source.ClosesComments a)
    {q : Program Unit} (hb : program? b = some q) (himports : q.imports = []) (log' log'' : FileLog)
    (hwords : ((s.runSource fs a log).session.runSource fs b log').session.WithinWords)
    (hwords' : (s.runSource fs (a ++ "\n" ++ b) log'').session.WithinWords) :
    ((s.runSource fs a log).session.runSource fs b log').Same
      (s.runSource fs (a ++ "\n" ++ b) log'') := by
  have hhalf : (s.runSource fs a log).session.WithinWords :=
    Nat.le_trans (nextId_le_finish _ fs _ (.text (unit fs) b) _ log') hwords
  have hstart : s.WithinWords :=
    Nat.le_trans (nextId_le_finish _ fs _ (.text (unit fs) a) _ log) hhalf
  obtain ⟨r', k', u, more, hlink, hhalfway⟩ :=
    exists_halfway (hs.numbered hstart) hprint hok hhalf hclosed hb himports log''
  rw [runSource_of_link hprint hlink hwords']
  exact hhalfway.same_report ((Arises.runSource hs fs a log).numbered hhalf) hprint hb himports log'
    hwords

/-- A text that ends with a sequence on the stack, and in a comment. -/
def keeps : String :=
  "import * from \"main.twl\"\ndef keep { let x { x } }\n/* kept */ 7 keep // left"

/-- A text that runs the sequence twice. -/
def takes : String :=
  "let s true s ?? true s ?? +"

/-- The sequence that the first text has left is run by the second one, and by the whole. -/
theorem runSource_seam_kept : ∃ q, Arises {} (Session.new {} {}) ∧
    ((Session.new {} {}).runSource mixed keeps {}).result.isOk ∧ Source.ClosesComments keeps ∧
    program? takes = some q ∧ q.imports = [] ∧
    (((Session.new {} {}).runSource mixed keeps {}).session.runSource mixed takes {}).result.isOk ∧
    (((Session.new {} {}).runSource mixed keeps {}).session.runSource mixed takes {}).Same
      ((Session.new {} {}).runSource mixed (keeps ++ "\n" ++ takes) {}) := by
  have hs : Arises {} (Session.new {} {}) := .new {} {}
  have hok : ((Session.new {} {}).runSource mixed keeps {}).result.isOk := by
    decide +kernel
  have hclosed : Source.ClosesComments keeps := by
    decide +kernel
  have htakes : (program? takes).any (·.imports.isEmpty) = true := by
    decide +kernel
  have hok' : (((Session.new {} {}).runSource mixed keeps {}).session.runSource mixed takes
      {}).result.isOk := by
    decide +kernel
  have hwords : (((Session.new {} {}).runSource mixed keeps {}).session.runSource mixed takes
      {}).session.WithinWords := by
    decide +kernel
  have hwords' : ((Session.new {} {}).runSource mixed (keeps ++ "\n" ++ takes)
      {}).session.WithinWords := by
    decide +kernel
  obtain ⟨q, hq, himports⟩ := (Option.any_eq_true _ _).1 htakes
  have hnone : q.imports = [] := List.isEmpty_iff.1 himports
  exact ⟨q, hs, hok, hclosed, hq, hnone, hok',
    runSource_seam hs rfl hok hclosed hq hnone {} {} hwords hwords'⟩

/-! ## When the words come round -/

/-- The session after so many more numbers have been drawn. -/
def skip (s : Session) (count : Nat) : Session :=
  { s with interpreter := { s.interpreter with nextId := s.interpreter.nextId + count } }

/-- Of a text that can be read and is refused for its scopes, only the numbers of its nodes are left. -/
theorem session_runSource_of_failed (s : Session) (fs : FileSystem) {p : Program Unit}
    (hp : Tree.ofSource "" source = .ok p) (hfailed : (Scope.analyse (p.number 0).1).failed)
    (log : FileLog) :
    (s.runSource fs source log).session = s.skip (Node.numberAll 0 p.nodes).2 := by
  let l := s.linker (unit fs).key log
  have hfailed' : (Scope.analyse (p.number l.nextId).1).failed :=
    (Scope.failed_number p l.nextId 0).trans hfailed
  obtain ⟨e, log', hrun⟩ := run_linkText_of_failed fs s.config.library
    (linkFile fs s.config.library (fuelFor fs)) (unit fs) hp hfailed'
  have hlink : (linkSource fs s.config.library (unit fs) source).run l = _ := hrun
  rw [runSource_eq, finish_of_stopped hlink, Node.next_numberAll]
  rfl

/-- A function with a local `x`, and an `x` outside of functions. -/
def hides : String :=
  "def f \x7b \"a\" let x x \x7d\n\"b\" let x"

/-- A text of two nodes that is refused. -/
def nests : String :=
  "def f { def g { } }"

/-- A session that has run a text, and was given another one so many times that is refused. -/
def late : Nat → Session
  | 0 => ((Session.new {} {}).runSource mixed hides {}).session
  | times + 1 => ((late times).runSource mixed nests {}).session

theorem session_runSource_nests (s : Session) (fs : FileSystem) (log : FileLog) :
    (s.runSource fs nests log).session = s.skip 2 := by
  have hreads : (Tree.ofSource "" nests).toOption.any (fun p =>
      (Scope.analyse (p.number 0).1).failed && (Node.numberAll 0 p.nodes).2 == 2) = true := by
    decide +kernel
  cases hp : Tree.ofSource "" nests with
  | error errors => rw [hp] at hreads; cases hreads
  | ok p =>
    rw [hp] at hreads
    obtain ⟨hfailed, hcount⟩ := Bool.and_eq_true_iff.1 hreads
    rw [s.session_runSource_of_failed fs hp hfailed, beq_iff_eq.1 hcount]

theorem late_eq (times : Nat) : late times = (late 0).skip (2 * times) := by
  induction times with
  | zero => rfl
  | succ times ih =>
    show ((late times).runSource mixed nests {}).session = _
    rw [session_runSource_nests, ih]
    rfl

theorem arises_late (times : Nat) : Arises {} (late times) := by
  induction times with
  | zero => exact .runSource (.new {} {}) mixed hides {}
  | succ times ih => exact .runSource ih mixed nests {}

/-- The message of a step that failed. -/
def message? (r : RunReport) : Option String :=
  match r.result with
  | .ok _ => none
  | .error e => some e.message

/-- Of reports that are the same, both have failed or neither. -/
theorem isSome_message?_of_same {r r' : RunReport} (h : r.Same r') :
    (message? r).isSome = (message? r').isSome := by
  have hresult := h.result
  unfold message?
  generalize r.result = x, r'.result = x' at hresult
  cases hresult <;> rfl

/-- A text that makes a node while it runs. -/
def curries : String :=
  "import * from <sequences>\n\"a\" { } curry"

/-- **Once the words come round, two texts that are run one after the other can fail where they run well
as one text.** The node of the second text has the word of the local of `f`. As part of one text it
comes before the node that the first text makes while it runs, and has another word. -/
theorem runSource_seam_late :
    Arises {} (late 2147483643) ∧ (late 2147483643).config.printTree = false ∧
      ((late 2147483643).runSource mixed curries {}).result.isOk ∧ Source.ClosesComments curries ∧
      (∃ q, program? "x" = some q ∧ q.imports = []) ∧
      message? (((late 2147483643).runSource mixed curries {}).session.runSource mixed "x" {}) =
        some "Runtime: Unknown identifier 'f$x'. (line 1 character 1)" ∧
      message? ((late 2147483643).runSource mixed (curries ++ "\n" ++ "x") {}) = none ∧
      ¬(((late 2147483643).runSource mixed curries {}).session.runSource mixed "x" {}).Same
        ((late 2147483643).runSource mixed (curries ++ "\n" ++ "x") {}) := by
  have hs := arises_late 2147483643
  have hclosed : Source.ClosesComments curries := by
    decide +kernel
  have hreads : (program? "x").any (·.imports.isEmpty) = true := by
    decide +kernel
  obtain ⟨q, hq, himports⟩ := (Option.any_eq_true _ _).1 hreads
  rw [late_eq] at hs ⊢
  have hfails : message? ((((late 0).skip (2 * 2147483643)).runSource mixed curries
      {}).session.runSource mixed "x" {}) =
        some "Runtime: Unknown identifier 'f$x'. (line 1 character 1)" := by
    decide +kernel
  have hruns : message? (((late 0).skip (2 * 2147483643)).runSource mixed
      (curries ++ "\n" ++ "x") {}) = none := by
    decide +kernel
  refine ⟨hs, ?_, ?_, hclosed, ⟨q, hq, List.isEmpty_iff.1 himports⟩, hfails, hruns, fun hsame => ?_⟩
  · decide +kernel
  · decide +kernel
  · have hboth := isSome_message?_of_same hsame
    rw [hfails, hruns] at hboth
    cases hboth

end Session

end Catena

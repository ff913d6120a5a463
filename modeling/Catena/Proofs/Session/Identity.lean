import Catena.Proofs.Linking.Creation
import Catena.Proofs.Session.Reported
import Catena.Proofs.Session.Together

/-!
# Names stay as they are

A session draws the numbers of all nodes from one supply, whether they are read by its linker, made by
currying or read for somebody else, and it never gives a number back, also when a step stops
(`drawn_perform`). So no two nodes that are created while it lasts have the same number. Of the numbers
only the words are kept. As long as there are words for all nodes, the table can grow without ever
changing a name: in the end each node has the name that the scopes of its own text gave it, and at each
visit of each run the names of the nodes that are there are those of the end (`names_settled`).

Then the words come again, and a node takes the name of another one (`names_unsettled`).
-/

namespace Catena

open Linking Evaluation
open Creation (Within idsOf idsOf_append idsOf_map_node)

/-- Of the texts among creations with different numbers, one at most has a given node. -/
theorem Creation.Within.unique {cs : List Creation} (h : (idsOf cs).Nodup) {p q : Program NodeId}
    {id : NodeId} (hp : Within cs p id) (hq : Within cs q id) : p = q := by
  by_contra hne
  have hsymm : Std.Symm (Function.onFun List.Disjoint Creation.ids) := ⟨fun _ _ h => h.symm⟩
  have hapart : List.Disjoint (Node.tagsAll p.nodes) (Node.tagsAll q.nodes) :=
    (List.nodup_flatMap.1 h).2.forall hp.text hq.text fun heq => hne (Creation.text.inj heq)
  exact hapart hp.node hq.node

/-- A table that only has names for the given creations, put over one that has none for them. -/
theorem ScopeTable.Takes.extend {t later : ScopeTable} {cs : List Creation}
    (h : ({} : ScopeTable).Takes cs later) (hnew : ∀ id ∈ idsOf cs, t.names.lookup id = none) :
    t.Takes cs (t.extend later) where
  own p id hp := by
    rw [lookup_extend, h.own p id hp, hnew id hp.mem_idsOf, Option.or_none]
  other id hid := by
    have hnone : later.names.lookup id = none := h.other id hid
    rw [lookup_extend, hnone, Option.none_or]

/-! ## Words -/

theorem mem_sharing {next id id' : NodeId} :
    id' ∈ sharing next id ↔ id' < next ∧ wordOf id' = wordOf id := by
  unfold sharing wordOf
  rw [List.mem_filter, decide_eq_true_iff, List.mem_map, and_comm]
  refine and_congr_right fun hlt => ⟨?_, fun h => ?_⟩
  · rintro ⟨turn, -, rfl⟩
    rw [Nat.add_mul_mod_self_right, Nat.mod_mod]
  · have hturn : id' / wordCount < next / wordCount + 1 :=
      Nat.lt_succ_of_le (Nat.div_le_div_right (Nat.le_of_lt hlt))
    refine ⟨id' / wordCount, List.mem_range.2 hturn, ?_⟩
    rw [← h, Nat.mod_add_div']

theorem lookup_map_pair (ids : List NodeId) (name : String) (id : NodeId) :
    (ids.map (·, name)).lookup id = if id ∈ ids then some name else none := by
  induction ids with
  | nil => rfl
  | cons first rest ih =>
    rw [List.map_cons, List.lookup_cons, ih]
    by_cases hfirst : id = first
    · simp [hfirst]
    · simp [hfirst, beq_eq_false_iff_ne.2 hfirst]

/-- Where names are kept by words, a number has the name that was last given to its word. -/
theorem ScopeTable.lookup_spread (t : ScopeTable) {next id : NodeId} (hid : id < next) :
    (t.spread next).names.lookup id =
      (t.names.find? fun entry => wordOf entry.1 == wordOf id).map Prod.snd := by
  obtain ⟨names⟩ := t
  unfold spread
  dsimp only
  induction names with
  | nil => rfl
  | cons entry rest ih =>
    rw [List.flatMap_cons, List.lookup_append, lookup_map_pair, ih, List.find?_cons]
    by_cases hword : wordOf entry.1 = wordOf id
    · rw [if_pos (mem_sharing.2 ⟨hid, hword.symm⟩), beq_iff_eq.2 hword]
      rfl
    · rw [if_neg fun hmem => hword (mem_sharing.1 hmem).2.symm, beq_eq_false_iff_ne.2 hword]
      rfl

/-- Numbers that lie closer together than the words come again have different words. -/
theorem eq_of_wordOf_eq {n id id' : Nat} (hle : n ≤ id) (hlt : id < n + wordCount)
    (hle' : n ≤ id') (hlt' : id' < n + wordCount) (h : wordOf id = wordOf id') : id = id' := by
  unfold wordOf wordCount at *
  omega

/-- As long as there are words for all numbers, names that are kept by words are those that are kept by
numbers. -/
theorem ScopeTable.lookup_spread_of_le {t : ScopeTable} {n next : NodeId}
    (hnext : next ≤ n + wordCount) (ht : ∀ entry ∈ t.names, n ≤ entry.1 ∧ entry.1 < next)
    {id : NodeId} (hle : n ≤ id) (hlt : id < next) :
    (t.spread next).names.lookup id = t.names.lookup id := by
  rw [lookup_spread t hlt]
  obtain ⟨names⟩ := t
  dsimp only at ht ⊢
  induction names with
  | nil => rfl
  | cons entry rest ih =>
    obtain ⟨⟨hentry, hentry'⟩, hrest⟩ := List.forall_mem_cons.1 ht
    have hsame : (wordOf entry.1 == wordOf id) = (id == entry.1) := by
      rw [Bool.eq_iff_iff, beq_iff_eq, beq_iff_eq]
      exact ⟨fun h => eq_of_wordOf_eq hle (Nat.lt_of_lt_of_le hlt hnext) hentry
        (Nat.lt_of_lt_of_le hentry' hnext) h.symm, fun h => h ▸ rfl⟩
    rw [List.find?_cons, List.lookup_cons, hsame]
    cases id == entry.1 with
    | true => rfl
    | false => exact ih hrest

namespace Session

/-! ## What happens to a session -/

/-- What a step links, if it comes to that. -/
def Step.launch? (fs : FileSystem) : Step → Option Linking.Start
  | .file written =>
    if !(pathName? written).any (hasEnding sourceExtension) then none
    else (fs.canonical fs.workingDirectory written).toOption.map .file
  | .source text => some (.text (Session.unit fs) text)

/-- The program that a step runs, with the linker that it comes from. -/
def ran? (s : Session) (fs : FileSystem) (step : Step) (log : FileLog) :
    Option (Program NodeId × Linker) :=
  (step.launch? fs).bind fun start =>
    match (start.link fs s.config.library).run (s.linker start.unit.key log) with
    | .done p l => if s.config.printTree then none else some (p, l)
    | .stopped _ _ => none

/-- What a step creates before its run. -/
def linkCreations (s : Session) (fs : FileSystem) (step : Step) (log : FileLog) : List Creation :=
  (step.launch? fs).elim [] fun start =>
    start.creations fs s.config.library (s.linker start.unit.key log)

/-- The visits of the run of a step. -/
def stepVisits (s : Session) (fs : FileSystem) (step : Step) (log : FileLog) : List Visit :=
  (s.ran? fs step log).elim [] fun (p, l) => visited ampleFuel l.scopes p (s.remember l).interpreter

/-- What happens in a process that has a session: a text is read, the session takes a step, or what is
on its stack is curried. -/
inductive Act
  | parse (unit : SourceUnit) (source : String)
  | step (fs : FileSystem) (step : Step) (log : FileLog)
  | curry

/-- The session afterwards. -/
def perform (s : Session) : Act → Session
  | .parse unit source => s.linked ((parse unit source).run (s.linker unit.key {})).state
  | .step fs step log => (s.take fs step log).session
  | .curry => { s with interpreter := (Library.curry.run s.interpreter).state }

/-- The nodes that are created, in order. -/
def created (s : Session) : Act → List Creation
  | .parse unit source => parseCreations (parse unit source) (s.linker unit.key {})
  | .step fs step log =>
    s.linkCreations fs step log ++ (madeIds (s.stepVisits fs step log)).map .node
  | .curry => ((curriedFrom s.interpreter).map (.node ·.mark.tag)).toList

/-- The creations whose names the session takes over: those of a program that is run. -/
def named (s : Session) : Act → List Creation
  | .step fs step log => if (s.ran? fs step log).isSome then s.linkCreations fs step log else []
  | _ => []

/-- The session after several acts. -/
def after (s : Session) (acts : List Act) : Session :=
  acts.foldl perform s

/-- The nodes that several acts create, in order. -/
def history (s : Session) : List Act → List Creation
  | [] => []
  | act :: acts => s.created act ++ (s.perform act).history acts

/-- The creations whose names the session takes over in several acts. -/
def taken (s : Session) : List Act → List Creation
  | [] => []
  | act :: acts => s.named act ++ (s.perform act).taken acts

theorem after_append (s : Session) (acts more : List Act) :
    s.after (acts ++ more) = (s.after acts).after more :=
  List.foldl_append

theorem history_append (s : Session) (acts more : List Act) :
    s.history (acts ++ more) = s.history acts ++ (s.after acts).history more := by
  induction acts generalizing s with
  | nil => rfl
  | cons act acts ih =>
    rw [List.cons_append, history, ih, history, List.append_assoc]
    rfl

/-! ## Numbers and names -/

/-- The name that a node has in a session. -/
def nameOf (s : Session) (id : NodeId) (written : String) : String :=
  s.interpreter.scopes.nameOf id written

/-- From one session to another, nodes are created with new numbers, and the table takes the names of
some of them. -/
structure Evolves (s : Session) (cs ds : List Creation) (s' : Session) : Prop where
  drawn : Drawn s.interpreter.nextId (idsOf cs) s'.interpreter.nextId
  takes : s.interpreter.scopes.Takes ds s'.interpreter.scopes
  subset : ds ⊆ cs

/-- Only numbers that have been drawn have names. -/
def Ahead (s : Session) : Prop :=
  ∀ id, s.interpreter.nextId ≤ id → s.interpreter.scopes.names.lookup id = none

theorem idsOf_subset {cs ds : List Creation} (h : ds ⊆ cs) : idsOf ds ⊆ idsOf cs :=
  fun id hid => by
    obtain ⟨c, hc, hmem⟩ := List.mem_flatMap.1 hid
    exact List.mem_flatMap.2 ⟨c, h hc, hmem⟩

namespace Evolves

variable {s s' s'' : Session} {cs cs' ds ds' : List Creation}

theorem refl (s : Session) : Evolves s [] [] s :=
  ⟨.nil _, .nil _, List.nil_subset _⟩

theorem append (h : Evolves s cs ds s') (k : Evolves s' cs' ds' s'') :
    Evolves s (cs ++ cs') (ds ++ ds') s'' where
  drawn := by
    rw [idsOf_append]
    exact h.drawn.append k.drawn
  takes := h.takes.append k.takes fun id hid hid' =>
    h.drawn.apart k.drawn id (idsOf_subset h.subset hid) (idsOf_subset k.subset hid')
  subset := List.append_subset.2
    ⟨fun c hc => List.mem_append_left _ (h.subset hc), fun c hc => List.mem_append_right _ (k.subset hc)⟩

theorem lookup_of_notMem (h : Evolves s cs ds s') {id : NodeId} (hid : id ∉ idsOf cs) :
    s'.interpreter.scopes.names.lookup id = s.interpreter.scopes.names.lookup id :=
  h.takes.lookup_of_notMem fun hmem => hid (idsOf_subset h.subset hmem)

theorem ahead (h : Evolves s cs ds s') (hs : s.Ahead) : s'.Ahead := by
  intro id hid
  rw [h.lookup_of_notMem fun hmem => Nat.not_lt.2 hid (h.drawn.lt_next id hmem)]
  exact hs id (Nat.le_trans h.drawn.le hid)

end Evolves

/-! ## What one act does -/

section Acts

variable {s : Session} {fs : FileSystem} {step : Step} {log : FileLog}

theorem take_of_launch?_eq_none (h : step.launch? fs = none) :
    (s.take fs step log).session = s := by
  cases step with
  | source text => cases h
  | file written =>
    show (s.runFile fs written log).session = s
    dsimp only [Step.launch?] at h
    unfold runFile
    split
    · rfl
    · next hending =>
      rw [if_neg hending] at h
      cases hpath : fs.canonical fs.workingDirectory written with
      | error fault => rfl
      | ok path =>
        rw [hpath] at h
        cases h

theorem take_of_launch?_eq_some {start : Linking.Start} (h : step.launch? fs = some start) :
    s.take fs step log = s.finish (start.link fs s.config.library) start.unit.key log := by
  cases step with
  | source text =>
    cases h
    rfl
  | file written =>
    show s.runFile fs written log = _
    dsimp only [Step.launch?] at h
    unfold runFile
    split
    · next hending =>
      rw [if_pos hending] at h
      cases h
    · next hending =>
      rw [if_neg hending] at h
      cases hpath : fs.canonical fs.workingDirectory written with
      | error fault =>
        rw [hpath] at h
        cases h
      | ok path =>
        rw [hpath] at h
        cases h
        rfl

theorem ran?_eq_some_iff {p : Program NodeId} {l : Linker} :
    s.ran? fs step log = some (p, l) ↔ s.config.printTree = false ∧
      ∃ start, step.launch? fs = some start ∧
        (start.link fs s.config.library).run (s.linker start.unit.key log) = .done p l := by
  unfold ran?
  rw [Option.bind_eq_some_iff]
  constructor
  · rintro ⟨start, hstart, hran⟩
    split at hran
    · next p' l' hrun =>
      split at hran
      · cases hran
      · next hprint =>
        cases hran
        exact ⟨Bool.eq_false_iff.2 hprint, start, hstart, hrun⟩
    · cases hran
  · rintro ⟨hprint, start, hstart, hrun⟩
    refine ⟨start, hstart, ?_⟩
    rw [hrun, hprint]
    rfl

/-- A session that starts to link has an empty table beside it. -/
theorem creating_launch (s : Session) (fs : FileSystem) (start : Linking.Start) (log : FileLog) :
    Creating (start.link fs s.config.library) (s.linker start.unit.key log)
      (start.creations fs s.config.library (s.linker start.unit.key log)) fun p _ =>
        Consists (start.creations fs s.config.library (s.linker start.unit.key log)) p.nodes :=
  creating_link fs s.config.library start fun _ _ => rfl

/-- What is known of the linking of a program that is run. -/
theorem creates_of_ran? {p : Program NodeId} {l : Linker} (h : s.ran? fs step log = some (p, l)) :
    Drawn s.interpreter.nextId (idsOf (s.linkCreations fs step log)) l.nextId ∧
      ({} : ScopeTable).Takes (s.linkCreations fs step log) l.scopes ∧
      Consists (s.linkCreations fs step log) p.nodes := by
  obtain ⟨-, start, hlaunch, hrun⟩ := ran?_eq_some_iff.1 h
  obtain ⟨hcreates, hconsists⟩ := (s.creating_launch fs start log).of_done hrun
  rw [linkCreations, hlaunch]
  exact ⟨hcreates.drawn, hcreates.takes, hconsists⟩

theorem perform_of_ran? {p : Program NodeId} {l : Linker} (h : s.ran? fs step log = some (p, l)) :
    s.perform (.step fs step log) =
      { s.remember l with
        interpreter := ((interpret ampleFuel l.scopes p).run (s.remember l).interpreter).state } := by
  obtain ⟨hprint, start, hlaunch, hrun⟩ := ran?_eq_some_iff.1 h
  rw [perform, take_of_launch?_eq_some hlaunch, finish_of_done hrun,
    if_neg (Bool.eq_false_iff.1 hprint), session_runProgram]

/-- Reading a text numbers its nodes, and names nothing. -/
theorem evolves_parse (s : Session) (unit : SourceUnit) (source : String) :
    Evolves s (s.created (.parse unit source)) [] (s.perform (.parse unit source)) := by
  exact ⟨drawn_parseCreations (l := s.linker unit.key {}) meets_parse_drawn, .nil _,
    List.nil_subset _⟩

theorem scopes_curry (s : Interpreter) : (Library.curry.run s).state.scopes = s.scopes :=
  (quiet_native 0 (fun _ => pure ()) ⟨false, false⟩ (f := .curry) rfl s).1.scopes

/-- Currying numbers the node that it makes, and names nothing. -/
theorem evolves_curry (s : Session) : Evolves s (s.created .curry) [] (s.perform .curry) where
  drawn := by
    have hdrawn := drawn_curry s.interpreter
    rw [created, perform]
    cases hcurried : curriedFrom s.interpreter <;> rw [hcurried] at hdrawn <;> exact hdrawn
  takes := by
    show s.interpreter.scopes.Takes [] (Library.curry.run s.interpreter).state.scopes
    rw [scopes_curry]
    exact .nil _
  subset := List.nil_subset _

/-- What a step keeps of its linking if it runs no program. -/
theorem evolves_of_linked {start : Linking.Start} {l : Linker} {s' : Session}
    (hstart : step.launch? fs = some start) (hran : s.ran? fs step log = none)
    (hdrawn : Drawn s.interpreter.nextId
      (idsOf (start.creations fs s.config.library (s.linker start.unit.key log))) l.nextId)
    (hnext : s'.interpreter.nextId = l.nextId)
    (hscopes : s'.interpreter.scopes = s.interpreter.scopes) :
    Evolves s (s.created (.step fs step log)) (s.named (.step fs step log)) s' := by
  have hcreated : s.created (.step fs step log) =
      start.creations fs s.config.library (s.linker start.unit.key log) := by
    rw [created, linkCreations, stepVisits, hstart, hran]
    exact List.append_nil _
  rw [hcreated, named, hran]
  refine ⟨?_, ?_, List.nil_subset _⟩
  · rw [hnext]
    exact hdrawn
  · rw [hscopes]
    exact .nil _

/-- A step that does not come to a run names nothing. -/
theorem evolves_step_of_none (hran : s.ran? fs step log = none) :
    Evolves s (s.created (.step fs step log)) (s.named (.step fs step log))
      (s.perform (.step fs step log)) := by
  rw [perform]
  cases hlaunch : step.launch? fs with
  | none =>
    rw [take_of_launch?_eq_none hlaunch, created, linkCreations, stepVisits, named, hlaunch, hran]
    exact .refl s
  | some start =>
    rw [take_of_launch?_eq_some hlaunch]
    have hlink := s.creating_launch fs start log
    cases hrun : (start.link fs s.config.library).run (s.linker start.unit.key log) with
    | stopped e l =>
      rw [finish_of_stopped hrun]
      exact evolves_of_linked hlaunch hran (hlink.of_stopped hrun) rfl rfl
    | done p l =>
      have hprint : s.config.printTree = true := by
        by_contra hprint
        have hsome := ran?_eq_some_iff.2 ⟨Bool.eq_false_iff.2 hprint, start, hlaunch, hrun⟩
        rw [hran] at hsome
        cases hsome
      rw [finish_of_done hrun, if_pos hprint]
      obtain ⟨console, hsession⟩ := ((s.linked l).printProgram_eq p l.log).1
      rw [hsession]
      exact evolves_of_linked hlaunch hran (hlink.of_done hrun).1.drawn rfl rfl

/-- A program that is run has its nodes numbered before those that it makes. -/
theorem drawn_step_of_some {p : Program NodeId} {l : Linker}
    (hran : s.ran? fs step log = some (p, l)) :
    Drawn s.interpreter.nextId (idsOf (s.created (.step fs step log)))
      (s.perform (.step fs step log)).interpreter.nextId := by
  obtain ⟨hdrawn, -, -⟩ := creates_of_ran? hran
  rw [perform_of_ran? hran, created, stepVisits, hran, idsOf_append, idsOf_map_node]
  exact hdrawn.append (drawn_visited ampleFuel l.scopes p (s.remember l).interpreter)

/-- The names of a program that is run are in force before it starts. -/
theorem takes_step_of_some (hs : s.Ahead) {p : Program NodeId} {l : Linker}
    (hran : s.ran? fs step log = some (p, l))
    (hwords : (s.perform (.step fs step log)).WithinWords) :
    s.interpreter.scopes.Takes (s.linkCreations fs step log)
      (s.perform (.step fs step log)).interpreter.scopes := by
  obtain ⟨hdrawn, htakes, -⟩ := creates_of_ran? hran
  rw [perform_of_ran? hran] at hwords ⊢
  have hle : l.nextId ≤ _ := (drawn_visited ampleFuel l.scopes p (s.remember l).interpreter).le
  dsimp only
  rw [scopes_interpret, s.remember_of_le (Nat.le_trans hle hwords)]
  exact htakes.extend fun id hid => hs id (hdrawn.from_le id hid)

/-- **An act numbers each node that it makes once**, and gives no number back. -/
theorem drawn_perform (s : Session) (act : Act) :
    Drawn s.interpreter.nextId (idsOf (s.created act)) (s.perform act).interpreter.nextId := by
  cases act with
  | parse unit source => exact (evolves_parse s unit source).drawn
  | step fs step log =>
    cases hran : s.ran? fs step log with
    | none => exact (evolves_step_of_none hran).drawn
    | some linked => exact drawn_step_of_some hran
  | curry => exact (evolves_curry s).drawn

theorem evolves_perform (hs : s.Ahead) (act : Act) (hwords : (s.perform act).WithinWords) :
    Evolves s (s.created act) (s.named act) (s.perform act) := by
  cases act with
  | parse unit source => exact evolves_parse s unit source
  | step fs step log =>
    cases hran : s.ran? fs step log with
    | none => exact evolves_step_of_none hran
    | some linked =>
      refine ⟨drawn_step_of_some hran, ?_, ?_⟩
      · rw [named, hran]
        exact takes_step_of_some hs hran hwords
      · rw [named, hran]
        exact List.subset_append_left _ _
  | curry => exact evolves_curry s

/-! ## Several acts -/

theorem drawn_after (s : Session) (acts : List Act) :
    Drawn s.interpreter.nextId (idsOf (s.history acts)) (s.after acts).interpreter.nextId := by
  induction acts generalizing s with
  | nil => exact .nil _
  | cons act acts ih =>
    rw [history, idsOf_append]
    exact (s.drawn_perform act).append (ih (s.perform act))

theorem WithinWords.of_after {acts : List Act} (h : (s.after acts).WithinWords) : s.WithinWords :=
  Nat.le_trans (s.drawn_after acts).le h

theorem evolves_after (hs : s.Ahead) (acts : List Act) (hwords : (s.after acts).WithinWords) :
    Evolves s (s.history acts) (s.taken acts) (s.after acts) := by
  induction acts generalizing s with
  | nil => exact .refl s
  | cons act acts ih =>
    have hact := evolves_perform hs act (@WithinWords.of_after _ acts hwords)
    exact hact.append (ih (hact.ahead hs) hwords)

theorem ahead_new (config : Config) (console : Console) (random : RandomSource) :
    (Session.new config console random).Ahead :=
  fun _ _ => rfl

/-- Acts that come later change no name of a node that is there. -/
theorem nameOf_after (hs : s.Ahead) (before later : List Act)
    (hwords : (s.after (before ++ later)).WithinWords) {id : NodeId}
    (hid : id ∈ idsOf (s.history before)) (written : String) :
    (s.after (before ++ later)).nameOf id written = (s.after before).nameOf id written := by
  rw [after_append] at hwords ⊢
  have hbefore := evolves_after hs before hwords.of_after
  have hlater := evolves_after (hbefore.ahead hs) later hwords
  unfold nameOf ScopeTable.nameOf
  rw [hlater.lookup_of_notMem (hbefore.drawn.apart hlater.drawn id hid)]

/-- At each visit of a run, the scopes are those that the session has afterwards. -/
theorem scopes_stepVisits (fs : FileSystem) (step : Step) (log : FileLog) :
    ∀ v ∈ s.stepVisits fs step log,
      v.state.scopes = (s.perform (.step fs step log)).interpreter.scopes := by
  unfold stepVisits
  cases hran : s.ran? fs step log with
  | none => exact fun v hv => absurd hv List.not_mem_nil
  | some linked =>
    obtain ⟨p, l⟩ := linked
    rw [perform_of_ran? hran]
    exact scopes_visited ampleFuel l.scopes p (s.remember l).interpreter

end Acts

/-- What is known of the nodes that are created in some acts, and of their names. -/
structure Settled (s : Session) (acts : List Act) : Prop where
  /-- No word is given twice. -/
  distinct : ((idsOf (s.history acts)).map wordOf).Nodup
  /-- A table that is kept by words gives each node the same name. -/
  byWord : ∀ id ∈ idsOf (s.history acts), ∀ written,
    ((s.after acts).interpreter.scopes.spread (s.after acts).interpreter.nextId).nameOf id written =
      (s.after acts).nameOf id written
  /-- The code that is run consists of nodes that were created for it. -/
  consists : ∀ before fs step log later p l, acts = before ++ .step fs step log :: later →
    (s.after before).ran? fs step log = some (p, l) →
    Consists ((s.after before).linkCreations fs step log) p.nodes
  /-- Later acts do not change the name of a node. -/
  kept : ∀ before later, acts = before ++ later → ∀ id ∈ idsOf (s.history before), ∀ written,
    (s.after acts).nameOf id written = (s.after before).nameOf id written
  /-- So a name is at each visit of each run what it is in the end, for all nodes that are there. -/
  visited : ∀ before fs step log later, acts = before ++ .step fs step log :: later →
    ∀ v ∈ (s.after before).stepVisits fs step log,
      ∀ id ∈ idsOf (s.history (before ++ [.step fs step log])), ∀ written,
        v.state.scopes.nameOf id written = (s.after acts).nameOf id written
  /-- A node of a program that is run has the name that the scopes of its own text give it. -/
  own : ∀ p id, Within (s.taken acts) p id → ∀ written,
    (s.after acts).nameOf id written = (Scope.analyse p).table.nameOf id written
  /-- A node that the scopes of its own text leave as it is keeps its name. -/
  unrenamed : ∀ p id, Within (s.history acts) p id →
    (Scope.analyse p).table.names.lookup id = none → ∀ written,
      (s.after acts).nameOf id written = written
  /-- And so does a node that is in no program that is run, such as one made by currying. -/
  unnamed : ∀ id, (∀ p, ¬Within (s.taken acts) p id) → ∀ written,
    (s.after acts).nameOf id written = written

section Settled

variable {s : Session}

/-- Numbers that are drawn before the words are used up have different words. -/
theorem nodup_words {n next : NodeId} {tags : List NodeId} (h : Drawn n tags next)
    (hnext : next ≤ n + wordCount) : (tags.map wordOf).Nodup :=
  h.nodup.map_on fun id hid id' hid' => eq_of_wordOf_eq
    (h.from_le id hid) (Nat.lt_of_lt_of_le (h.lt_next id hid) hnext)
    (h.from_le id' hid') (Nat.lt_of_lt_of_le (h.lt_next id' hid') hnext)

/-- Where the table has been empty at first, only numbers that have been drawn since have names. -/
theorem drawn_of_mem_names {cs ds : List Creation} {s' : Session} (h : Evolves s cs ds s')
    (hempty : s.interpreter.scopes = {}) :
    ∀ entry ∈ s'.interpreter.scopes.names, entry.1 ∈ idsOf cs := by
  intro entry hentry
  by_contra hnot
  have hnone := h.lookup_of_notMem hnot
  rw [hempty] at hnone
  exact absurd (List.lookup_eq_none_iff.1 hnone entry hentry) (by simp)

/-- As long as there are words for all nodes, a table that is kept by words names them all the same. -/
theorem nameOf_spread {cs ds : List Creation} {s' : Session} (h : Evolves s cs ds s')
    (hempty : s.interpreter.scopes = {})
    (hnext : s'.interpreter.nextId ≤ s.interpreter.nextId + wordCount) {id : NodeId}
    (hid : id ∈ idsOf cs) (written : String) :
    (s'.interpreter.scopes.spread s'.interpreter.nextId).nameOf id written = s'.nameOf id written := by
  have hnames : ∀ entry ∈ s'.interpreter.scopes.names,
      s.interpreter.nextId ≤ entry.1 ∧ entry.1 < s'.interpreter.nextId := by
    intro entry hentry
    have hmem := drawn_of_mem_names h hempty entry hentry
    exact ⟨h.drawn.from_le _ hmem, h.drawn.lt_next _ hmem⟩
  unfold nameOf ScopeTable.nameOf
  rw [ScopeTable.lookup_spread_of_le hnext hnames (h.drawn.from_le id hid) (h.drawn.lt_next id hid)]

/-- At each visit of a step's run, each node that is there has the name that it has after later acts. -/
theorem nameOf_visited (hs : s.Ahead) (before : List Act) (fs : FileSystem) (step : Step)
    (log : FileLog) (later : List Act)
    (hwords : (s.after (before ++ .step fs step log :: later)).WithinWords) {v : Visit}
    (hv : v ∈ (s.after before).stepVisits fs step log) {id : NodeId}
    (hid : id ∈ idsOf (s.history (before ++ [.step fs step log]))) (written : String) :
    v.state.scopes.nameOf id written =
      (s.after (before ++ .step fs step log :: later)).nameOf id written := by
  rw [List.append_cons] at hwords ⊢
  rw [nameOf_after hs _ later hwords hid, after_append, scopes_stepVisits fs step log v hv]
  rfl

/-- Where the table has been empty at first, a node of a program that is run has its own name. -/
theorem nameOf_own {cs ds : List Creation} {s' : Session} (h : Evolves s cs ds s')
    {p : Program NodeId} {id : NodeId} (hp : Within ds p id) (written : String) :
    s'.nameOf id written = (Scope.analyse p).table.nameOf id written := by
  unfold nameOf ScopeTable.nameOf
  rw [h.takes.own p id hp]

theorem nameOf_other {cs ds : List Creation} {s' : Session} (h : Evolves s cs ds s')
    (hempty : s.interpreter.scopes = {}) {id : NodeId} (hid : ∀ p, ¬Within ds p id)
    (written : String) : s'.nameOf id written = written := by
  unfold nameOf ScopeTable.nameOf
  rw [h.takes.other id hid, hempty]
  rfl

/-- The numbers tell texts apart, so that a text's node is named by that text or not at all. -/
theorem nameOf_unrenamed {cs ds : List Creation} {s' : Session} (h : Evolves s cs ds s')
    (hempty : s.interpreter.scopes = {}) {p : Program NodeId} {id : NodeId} (hp : Within cs p id)
    (hleft : (Scope.analyse p).table.names.lookup id = none) (written : String) :
    s'.nameOf id written = written := by
  by_cases hrun : ∃ q, Within ds q id
  · obtain ⟨q, hq⟩ := hrun
    obtain rfl := hp.unique h.drawn.nodup ⟨h.subset hq.text, hq.node⟩
    rw [nameOf_own h hq, ScopeTable.nameOf, hleft, Option.getD_none]
  · exact nameOf_other h hempty (fun q hq => hrun ⟨q, hq⟩) written

/-- **As long as there are words for all nodes, later code never changes earlier names.** Whatever
texts are read, whatever steps the session takes and whatever is curried, no two of the nodes that are
created have the same word, and the names of the nodes stay as they are. -/
theorem names_settled (config : Config) (console : Console) (random : RandomSource)
    (acts : List Act) (hwords : ((Session.new config console random).after acts).WithinWords) :
    (Session.new config console random).Settled acts := by
  have hnew := ahead_new config console random
  have hempty : (Session.new config console random).interpreter.scopes = {} := rfl
  have hall := evolves_after hnew acts hwords
  have hnext : ((Session.new config console random).after acts).interpreter.nextId ≤ 1 + wordCount := by
    rw [Nat.add_comm]
    exact hwords
  constructor
  case distinct => exact nodup_words hall.drawn hnext
  case byWord => exact fun id hid written => nameOf_spread hall hempty hnext hid written
  case consists =>
    rintro before fs step log later p l - hran
    exact (creates_of_ran? hran).2.2
  case kept =>
    rintro before later rfl id hid written
    exact nameOf_after hnew before later hwords hid written
  case visited =>
    rintro before fs step log later rfl v hv id hid written
    exact nameOf_visited hnew before fs step log later hwords hv hid written
  case own => exact fun p id hp written => nameOf_own hall hp written
  case unrenamed => exact fun p id hp hleft written => nameOf_unrenamed hall hempty hp hleft written
  case unnamed => exact fun id hid written => nameOf_other hall hempty hid written

/-- A function has a local `x`. What its text leaves on the stack is curried, and another text binds
`x` outside of functions. -/
def crossing : List Act :=
  [.step ⟨[], []⟩ (.source "def f { 1 let x x } 5 { 2 }") {}, .curry,
    .step ⟨[], []⟩ (.source "3 let x x") {}]

/-- There are words enough for these nodes. -/
theorem names_settled_crossing : ((Session.new {} {}).after crossing).WithinWords ∧
    (Session.new {} {}).Settled crossing := by
  have hwords : ((Session.new {} {}).after crossing).WithinWords := by
    decide +kernel
  exact ⟨hwords, names_settled {} {} {} crossing hwords⟩

-- a node has a higher number than what is inside it
example :
    let s := Session.new {} {}
    idsOf (s.history crossing) = [4, 1, 2, 3, 5, 7, 6, 8, 9, 10, 11] ∧
      (s.after crossing).nameOf 3 "x" = "f$x" ∧ (s.after crossing).nameOf 11 "x" = "x" := by
  decide +kernel

/-! ## When the words come round -/

/-- A text is run, another one is refused so many times, and `x` is run. -/
def roundabout (times : Nat) : List Act :=
  .step mixed (.source hides) {} :: List.replicate times (.step mixed (.source nests) {}) ++
    [.step mixed (.source "x") {}]

theorem after_late (times : Nat) : (Session.new {} {}).after (.step mixed (.source hides) {} ::
    List.replicate times (.step mixed (.source nests) {})) = late times := by
  induction times with
  | zero => rfl
  | succ times ih =>
    rw [List.replicate_succ', ← List.cons_append, after_append, ih]
    rfl

theorem exists_within (cs : List Creation) (id : NodeId) (f : Program NodeId → Bool)
    (h : cs.any fun
      | .text p => decide (id ∈ Node.tagsAll p.nodes) && f p
      | .node _ => false) : ∃ p, Within cs p id ∧ f p := by
  obtain ⟨c, hc, hcheck⟩ := List.any_eq_true.1 h
  cases c with
  | node _ => cases hcheck
  | text p =>
    obtain ⟨hnode, hf⟩ := Bool.and_eq_true_iff.1 hcheck
    exact ⟨p, ⟨hc, of_decide_eq_true hnode⟩, hf⟩

/-- **Once the words come round, later code changes names.** The node of the last text has the word of
a use of the local of `f`. Its own text leaves it as it is, and it has the name of that local. -/
theorem names_unsettled :
    ¬(Session.new {} {}).Settled (roundabout 2147483646) ∧ ∃ p q,
      Within ((Session.new {} {}).history (roundabout 2147483646)) p 3 ∧
        Within ((Session.new {} {}).history (roundabout 2147483646)) q (3 + wordCount) ∧
        wordOf (3 + wordCount) = wordOf 3 ∧
        (Scope.analyse q).table.names.lookup (3 + wordCount) = none ∧
        ((Session.new {} {}).after (roundabout 2147483646)).nameOf (3 + wordCount) "x" = "f$x" := by
  have hfirst : ∃ p, Within ((Session.new {} {}).history (roundabout 2147483646)) p 3 := by
    obtain ⟨p, hp, -⟩ := exists_within ((Session.new {} {}).created (.step mixed (.source hides) {})) 3
      (fun _ => true) (by decide +kernel)
    exact ⟨p, List.mem_append_left _ hp.text, hp.node⟩
  have hlast : ∃ q, Within ((Session.new {} {}).history (roundabout 2147483646)) q (3 + wordCount) ∧
      (Scope.analyse q).table.names.lookup (3 + wordCount) = none := by
    obtain ⟨q, hq, hnone⟩ := exists_within
      (((late 0).skip (2 * 2147483646)).linkCreations mixed (.source "x") {}) (3 + wordCount)
      (fun q => ((Scope.analyse q).table.names.lookup (3 + wordCount)).isNone) (by decide +kernel)
    refine ⟨q, ⟨?_, hq.node⟩, Option.isNone_iff_eq_none.1 hnone⟩
    rw [roundabout, history_append, after_late, late_eq]
    exact List.mem_append_right _ (List.mem_append_left _ (List.mem_append_left _ hq.text))
  have hname : ((Session.new {} {}).after (roundabout 2147483646)).nameOf (3 + wordCount) "x" =
      "f$x" := by
    rw [roundabout, after_append, after_late, late_eq]
    decide +kernel
  obtain ⟨p, hp⟩ := hfirst
  obtain ⟨q, hq, hleft⟩ := hlast
  refine ⟨fun hsettled => ?_, p, q, hp, hq, Nat.add_mod_right 3 wordCount, hleft, hname⟩
  have hkept := hsettled.unrenamed q _ hq hleft "x"
  rw [hname] at hkept
  exact absurd hkept (by decide)

end Settled

end Session

end Catena

import Catena.Proofs.Evaluation.Imports
import Catena.Proofs.Linking.Plan

/-!
# Running linked code

When linked code runs, the loaders grow by one module for each file that its plan offers, in the
order of the plan (`Serving`), and imports are carried out at the points of the plan where they are
asked for (`Asking`) and nowhere else. The second is said by comparison: code runs the same under any
other meaning of imports that agrees with the real one at those points (`Runs`).

The main result is `runs_linked`, by induction over the plan. Plain nodes and everything that they
call keep to the discipline `plain`, under which there are no imports and no modules.
-/

namespace Catena

open Linking

/-- The discipline of code without imports and modules: it never lacks a namespace. -/
def Discipline.plain : Discipline where
  node := Node.Plain
  array _ := True
  error e := ∀ source, e ≠ .unknownNamespace source
  modules := False
  node_literal _ _ := trivial
  node_sequence _ _ _ := trivial
  node_array _ _ := trivial
  node_program h := h
  array_ofLiterals _ := trivial
  array_push _ _ := trivial
  array_set _ _ := trivial
  array_pop _ := trivial
  error_of h := h

/-- Any two states are kept by a run that may do anything, but for the frame. -/
theorem Discipline.keeps_anything {s t : Interpreter} (frame : Frame s t)
    (size : s.spaces.spaces.size ≤ t.spaces.spaces.size) : anything.Keeps s t :=
  ⟨frame, size, fun hquiet => absurd trivial hquiet, fun hquiet => absurd trivial hquiet⟩

namespace Evaluation

/-- A state in which linked code can run: no other code in it imports, the current namespace has been
made, and namespaces are mounted in order. -/
structure Sound (s : Interpreter) : Prop where
  holds : Discipline.plain.Holds s
  current : s.current < s.spaces.spaces.size
  nested : s.spaces.Nested

/-- Going on elsewhere, in a namespace that has been made, is sound. -/
theorem Sound.of_eq {s t : Interpreter} (h : Sound s) (stack : t.stack = s.stack)
    (spaces : t.spaces = s.spaces) (loaders : t.loaders = s.loaders)
    (current : t.current < s.spaces.spaces.size) : Sound t where
  holds := h.holds.of_eq stack spaces loaders
  current := by rw [spaces]; exact current
  nested := by rw [spaces]; exact h.nested

/-! ## Modules -/

/-- The state in which the code of a module starts. -/
def entered (info : ProgramInfo) (s : Interpreter) : Interpreter :=
  { s with spaces := s.spaces.fresh.2, current := s.spaces.fresh.1, file := info.file.or s.file }

/-- The state after the code of a module has run and its public members have been handed over. -/
def published (info : ProgramInfo) (s t : Interpreter) : Interpreter :=
  { t with
    current := s.current
    file := s.file
    loaders := t.loaders.push
      (.module ⟨info.loaderKey, (t.spaces.get s.spaces.fresh.1).exported, info.origin⟩) }

theorem run_runProgram {info : ProgramInfo} (hroot : info.isRoot = false) (run : Code → Eval Unit)
    (nodes : Code) (s : Interpreter) : (runProgram run info nodes).run s =
      match (run nodes).run (entered info s) with
      | .done _ t => .done () (published info s t)
      | .stopped halt t => .stopped halt { t with current := s.current, file := s.file } := by
  unfold runProgram
  rw [Action.run_bind, Action.run_state]
  dsimp only
  rw [if_neg (by simp [hroot]), Action.run_bind]
  unfold freshSpace Eval.within
  dsimp only
  rw [Action.run_bind]
  dsimp only
  cases h : (run nodes).run (entered info s) with
  | done a t =>
    unfold entered at h
    rw [h]
    rfl
  | stopped halt t =>
    unfold entered at h
    rw [h]

/-- A module that some run of a file's program handed over. -/
def ModuleOf (fs : FileSystem) (library : String) (j : Path × Origin) (m : Module) : Prop :=
  ∃ top there body es fuel s t,
    Linked fs library top (some j) there (requests fs j.1) body es ∧
      (runProgram (exec fuel) (moduleInfo j) body).run s = .done () t ∧
      t.loaders.loaders.head? = some (.module m)

theorem ModuleOf.eq_exported {fs : FileSystem} {library : String} {j : Path × Origin} {m : Module}
    (h : ModuleOf fs library j m) : ∃ n : Namespace, m = ⟨fileKey j, n.exported, j.2⟩ := by
  obtain ⟨top, there, body, es, fuel, s, t, -, hrun, hhead⟩ := h
  rw [run_runProgram rfl] at hrun
  split at hrun
  · next u _ =>
    cases hrun
    cases hhead
    exact ⟨u.spaces.get s.spaces.fresh.1, rfl⟩
  · cases hrun

theorem ModuleOf.key_eq {fs : FileSystem} {library : String} {j : Path × Origin} {m : Module}
    (h : ModuleOf fs library j m) : m.key = fileKey j := by
  obtain ⟨n, rfl⟩ := h.eq_exported
  rfl

/-- Files and the modules that they became, the latest first. -/
abbrev Shelf := List ((Path × Origin) × Module)

/-- The loaders are those of `base` and, above them, the modules of a shelf. -/
structure Serves (fs : FileSystem) (library : String) (base : List Loader) (shelf : Shelf)
    (s : Interpreter) : Prop where
  modules : ∀ x ∈ shelf, ModuleOf fs library x.1 x.2
  loaders : s.loaders.loaders = shelf.map (fun x => .module x.2) ++ base

/-- The loaders are those of `base` and, above them, a module for each of `files`. -/
def Serving (fs : FileSystem) (library : String) (base : List Loader) (files : List (Path × Origin))
    (s : Interpreter) : Prop :=
  ∃ shelf : Shelf, shelf.map (·.1) = files ∧ Serves fs library base shelf s

theorem Serving.of_loaders_eq {fs : FileSystem} {library : String} {base : List Loader}
    {files : List (Path × Origin)} {s t : Interpreter} (h : Serving fs library base files s)
    (loaders : t.loaders = s.loaders) : Serving fs library base files t := by
  obtain ⟨shelf, hfiles, hserves⟩ := h
  exact ⟨shelf, hfiles, hserves.modules, by rw [loaders, hserves.loaders]⟩

/-- Some loader of `base`, or some of `files`, has members under a key. -/
def Known (base : List Loader) (files : List (Path × Origin)) (key : String) : Prop :=
  (∃ l ∈ base, l.has key) ∨ ∃ j ∈ files, fileKey j = key

/-- Loaders serve the keys of their modules. -/
theorem Serving.has_iff {fs : FileSystem} {library : String} {base : List Loader}
    {files : List (Path × Origin)} {s : Interpreter} (h : Serving fs library base files s)
    (key : String) : s.loaders.has key ↔ Known base files key := by
  obtain ⟨shelf, rfl, hserves⟩ := h
  unfold LoaderStack.has Known
  rw [hserves.loaders, List.any_append, Bool.or_eq_true, List.any_eq_true, List.any_eq_true,
    or_comm]
  refine or_congr Iff.rfl ?_
  constructor
  · rintro ⟨l, hl, hkey⟩
    obtain ⟨x, hx, rfl⟩ := List.mem_map.1 hl
    refine ⟨x.1, List.mem_map_of_mem hx, ?_⟩
    rw [← (hserves.modules x hx).key_eq]
    exact eq_of_beq hkey
  · rintro ⟨j, hj, hkey⟩
    obtain ⟨x, hx, rfl⟩ := List.mem_map.1 hj
    refine ⟨_, List.mem_map_of_mem hx, beq_iff_eq.2 ?_⟩
    rw [(hserves.modules x hx).key_eq]
    exact hkey

/-! ## Imports -/

/-- All imports of a plan find their namespace, where `files` have been offered before. -/
def Answered (base : List Loader) : List (Path × Origin) → List Event → Prop
  | _, [] => True
  | files, .asks _ request :: es => Known base files request.loaderKey ∧ Answered base files es
  | files, .offers j :: es => Answered base (j :: files) es

theorem Answered.append {base : List Loader} {files : List (Path × Origin)} {es es' : List Event}
    (h : Answered base files es) (h' : Answered base (offered es ++ files) es') :
    Answered base files (es ++ es') := by
  induction es generalizing files with
  | nil => exact h'
  | cons e es ih =>
    cases e with
    | asks i request => exact ⟨h.1, ih h.2 h'⟩
    | offers j =>
      rw [offered_offers, List.append_assoc] at h'
      exact ih h h'

/-- An import of an answered plan finds its namespace among what was offered before it. -/
theorem Answered.known {base : List Loader} {files : List (Path × Origin)} {before es : List Event}
    {i : Importer} {request : Import} (h : Answered base files (before ++ .asks i request :: es)) :
    Known base (offered before ++ files) request.loaderKey := by
  induction before generalizing files with
  | nil => exact h.1
  | cons e before ih =>
    cases e with
    | asks i request => exact ih h.2
    | offers j =>
      have known : Known base (offered before ++ j :: files) request.loaderKey := ih h
      rw [offered_offers, List.append_assoc]
      exact known

/-- The import `request` of `i` is about to be carried out in the state `t`, where `before` has
happened and the files `remembered` were there at the start. -/
structure Asking (fs : FileSystem) (library : String) (top : SourceUnit) (base : List Loader)
    (remembered : List Path) (before : List Event) (i : Importer) (request : Import)
    (t : Interpreter) : Prop where
  proper : request.Proper
  found : request.isExternal → ∃ j, LeadsTo fs library (i.unit top) request j
  there : ∀ j, LeadsTo fs library (i.unit top) request j → j.1 ∈ after before remembered
  serving : Serving fs library base (offered before) t
  sound : Sound t

section Runs

variable (fs : FileSystem) (library : String) (top : SourceUnit) (base : List Loader)
  (remembered : List Path) (events : List Event)

/-- Some point of the plan at which an import is carried out. -/
def AskedAt (request : Import) (t : Interpreter) : Prop :=
  ∃ before more i, events = before ++ .asks i request :: more ∧
    Asking fs library top base remembered before i request t

/-- A reason to stop: no import lacks its namespace, or one at a point of the plan does. -/
def Excused (halt : Halt) : Prop :=
  Discipline.plain.AllowsHalt halt ∨
    ∃ request t d, AskedAt fs library top base remembered events request t ∧
      t.loaders.has request.loaderKey = false ∧ halt = .failed d ∧
      d.cause = .runtime (.unknownNamespace request.source)

/-- An outcome of a start at `s`, where `done` has happened and `es` is to happen. -/
def Ran {α : Type} (done es : List Event) (s : Interpreter) : Outcome Interpreter Halt α → Prop
  | .done _ t => Sound t ∧ Discipline.anything.Keeps s t ∧
      Serving fs library base (offered (done ++ es)) t ∧ Answered base (offered done) es
  | .stopped halt t => Sound t ∧ Discipline.anything.Keeps s t ∧
      Excused fs library top base remembered events halt

/-- Two steps that have the same outcome when `es` is to happen after `done`, and as planned. -/
def Runs {α : Type} (done es : List Event) (m m' : Eval α) : Prop :=
  ∀ s, Sound s → Serving fs library base (offered done) s →
    m.run s = m'.run s ∧ Ran fs library top base remembered events done es s (m'.run s)

variable {fs library top base remembered events} {α β : Type} {done es es' : List Event}

theorem Runs.bind {m m' : Eval α} {f f' : α → Eval β}
    (hm : Runs fs library top base remembered events done es m m')
    (hf : ∀ a, Runs fs library top base remembered events (done ++ es) es' (f a) (f' a)) :
    Runs fs library top base remembered events done (es ++ es') (m >>= f) (m' >>= f') := by
  intro s hs hserving
  obtain ⟨same, ran⟩ := hm s hs hserving
  rw [Action.run_bind, Action.run_bind, same]
  cases h : m'.run s with
  | stopped halt t =>
    rw [h] at ran
    exact ⟨rfl, ran⟩
  | done a t =>
    rw [h] at ran
    obtain ⟨ht, keeps, hserving', hanswered⟩ := ran
    obtain ⟨same', ran'⟩ := hf a t ht hserving'
    refine ⟨same', ?_⟩
    dsimp only
    cases k : (f' a).run t with
    | stopped halt u =>
      rw [k] at ran'
      exact ⟨ran'.1, keeps.trans ran'.2.1, ran'.2.2⟩
    | done b u =>
      rw [k] at ran'
      obtain ⟨hu, keeps', hserving'', hanswered'⟩ := ran'
      rw [offered_append] at hanswered'
      rw [List.append_assoc] at hserving''
      exact ⟨hu, keeps.trans keeps', hserving'', hanswered.append hanswered'⟩

theorem Runs.exhausted : Runs fs library top base remembered events done es
    (Action.stop .exhausted : Eval α) (Action.stop .exhausted) :=
  fun s hs _ => ⟨rfl, hs, Discipline.Keeps.refl s, Or.inl trivial⟩

/-- Steps that are alike without imports and modules add nothing to the plan. -/
theorem Runs.of_alike {Q : α → Prop} {m m' : Eval α} (h : Discipline.plain.Alike m m' Q) :
    Runs fs library top base remembered events done [] m m' := by
  intro s hs hserving
  obtain ⟨same, ends⟩ := h s hs.holds
  rw [same] at ends
  refine ⟨same, ?_⟩
  have sound : ∀ {t}, Discipline.plain.Holds t → Discipline.plain.Keeps s t → Sound t := by
    intro t ht keeps
    refine ⟨ht, ?_, keeps.nested nofun hs.nested⟩
    rw [keeps.current]
    exact Nat.lt_of_lt_of_le hs.current keeps.size
  cases k : m'.run s with
  | stopped halt t =>
    rw [k] at ends
    obtain ⟨ht, keeps, hallowed⟩ := ends
    exact ⟨sound ht keeps, Discipline.keeps_anything keeps.toFrame keeps.size, Or.inl hallowed⟩
  | done a t =>
    rw [k] at ends
    obtain ⟨ht, keeps, -⟩ := ends
    refine ⟨sound ht keeps, Discipline.keeps_anything keeps.toFrame keeps.size, ?_, trivial⟩
    rw [List.append_nil]
    exact hserving.of_loaders_eq (keeps.quiet nofun)

theorem Runs.onFailure {f : Option String → Diagnostic → Diagnostic} {m m' : Eval α}
    (hf : ∀ file d, (f file d).cause = d.cause)
    (h : Runs fs library top base remembered events done es m m') :
    Runs fs library top base remembered events done es (Eval.onFailure f m)
      (Eval.onFailure f m') := by
  intro s hs hserving
  obtain ⟨same, ran⟩ := h s hs hserving
  unfold Eval.onFailure
  dsimp only
  rw [same]
  refine ⟨rfl, ?_⟩
  cases k : m'.run s with
  | done a t => rw [k] at ran; exact ran
  | stopped halt t =>
    rw [k] at ran
    cases halt with
    | exhausted => exact ran
    | failed d =>
      obtain ⟨ht, keeps, hallowed | ⟨request, u, d', hasked, hunknown, hd, hcause⟩⟩ := ran
      · obtain ⟨e, he, hne⟩ := hallowed
        exact ⟨ht, keeps, Or.inl ⟨e, (hf t.file d).trans he, hne⟩⟩
      · cases hd
        exact ⟨ht, keeps, Or.inr ⟨request, u, _, hasked, hunknown, rfl,
          (hf t.file d).trans hcause⟩⟩

/-- An import is carried out as planned. -/
theorem Runs.importNames {imports : Import → Eval Unit} {i : Importer} {request : Import}
    {more : List Event} (hevents : events = done ++ .asks i request :: more)
    (hproper : request.Proper)
    (hfound : request.isExternal → ∃ j, LeadsTo fs library (i.unit top) request j)
    (hthere : ∀ j, LeadsTo fs library (i.unit top) request j → j.1 ∈ after done remembered)
    (himports : ∀ t, AskedAt fs library top base remembered events request t →
      (imports request).run t = (Evaluation.importNames request).run t) :
    Runs fs library top base remembered events done [.asks i request] (imports request)
      (Evaluation.importNames request) := by
  intro s hs hserving
  have hasked : AskedAt fs library top base remembered events request s :=
    ⟨done, more, i, hevents, hproper, hfound, hthere, hserving, hs⟩
  refine ⟨himports s hasked, ?_⟩
  rw [run_importNames]
  cases h : imported s request with
  | error e =>
    refine ⟨hs, Discipline.Keeps.refl s, ?_⟩
    by_cases hhas : s.loaders.has request.loaderKey
    · refine Or.inl ⟨e, rfl, Discipline.error_imported h ?_⟩
      rintro source rfl
      rw [(imported_unknownNamespace_iff.1 h).1] at hhas
      cases hhas
    · have hunknown := Bool.eq_false_iff.2 hhas
      rw [imported_unknownNamespace_iff.2 ⟨hunknown, rfl⟩] at h
      cases h
      exact Or.inr ⟨request, s, _, hasked, hunknown, rfl, rfl⟩
  | ok spaces =>
    have hsize := size_imported h
    refine ⟨⟨⟨hs.holds.stack, Discipline.allowsSpaces_imported hs.holds h, hs.holds.loaders⟩,
      Nat.lt_of_lt_of_le hs.current hsize, nested_imported hs.current hs.nested h⟩,
      Discipline.keeps_anything ⟨rfl, rfl, rfl, rfl, rfl, List.suffix_rfl⟩ hsize, ?_,
      (hserving.has_iff request.loaderKey).1 (has_of_imported h), trivial⟩
    rw [offered_append, offered_asks]
    exact hserving.of_loaders_eq rfl

/-- The code of a file runs and then the file is offered. -/
theorem Runs.module {imports : Import → Eval Unit} {j : Path × Origin} {there : List Path}
    {body : Code} {inner : List Event} {fuel : Nat} {top' : SourceUnit}
    (hlinked : Linked fs library top' (some j) there (requests fs j.1) body inner)
    (h : Runs fs library top base remembered events done inner (execWith imports fuel body)
      (exec fuel body)) :
    Runs fs library top base remembered events done (inner ++ [.offers j])
      (runProgram (execWith imports fuel) (moduleInfo j) body)
      (runProgram (exec fuel) (moduleInfo j) body) := by
  intro s hs hserving
  have hentered : Sound (entered (moduleInfo j) s) :=
    ⟨⟨hs.holds.stack, hs.holds.spaces.fresh, hs.holds.loaders⟩, by simp [entered, Namespaces.fresh],
      s.spaces.grows_fresh.nested hs.nested⟩
  obtain ⟨same, ran⟩ := h _ hentered (hserving.of_loaders_eq rfl)
  have hroot : (moduleInfo j).isRoot = false := rfl
  have hrun := run_runProgram hroot (exec fuel) body s
  rw [run_runProgram rfl, same, ← hrun]
  refine ⟨rfl, ?_⟩
  have back : ∀ {t : Interpreter}, Discipline.anything.Keeps (entered (moduleInfo j) s) t →
      s.spaces.spaces.size ≤ t.spaces.spaces.size := by
    intro t keeps
    exact Nat.le_trans s.spaces.grows_fresh.size keeps.size
  cases k : (exec fuel body).run (entered (moduleInfo j) s) with
  | stopped halt t =>
    rw [k] at ran hrun
    obtain ⟨ht, keeps, hexcused⟩ := ran
    have grown := back keeps
    rw [hrun]
    exact ⟨ht.of_eq rfl rfl rfl (Nat.lt_of_lt_of_le hs.current grown),
      Discipline.keeps_anything ⟨rfl, rfl, keeps.depth, keeps.maxDepth, keeps.scopes,
        keeps.loaders⟩ grown, hexcused⟩
  | done a t =>
    rw [k] at ran hrun
    obtain ⟨ht, keeps, ⟨shelf, hfiles, hserves⟩, hanswered⟩ := ran
    have grown := back keeps
    dsimp only at hrun
    rw [hrun]
    refine ⟨⟨⟨ht.holds.stack, ht.holds.spaces, ?_⟩, Nat.lt_of_lt_of_le hs.current grown,
      ht.nested⟩, Discipline.keeps_anything ⟨rfl, rfl, keeps.depth, keeps.maxDepth, keeps.scopes,
        keeps.loaders.trans (List.suffix_cons _ _)⟩ grown, ?_, hanswered.append trivial⟩
    · intro l hl
      rcases List.mem_cons.1 hl with rfl | hl
      · exact (ht.holds.spaces _).exported
      · exact ht.holds.loaders l hl
    · rw [← List.append_assoc, offered_append, offered_offers, offered_nil]
      let m : Module := ⟨(moduleInfo j).loaderKey, (t.spaces.get s.spaces.fresh.1).exported,
        (moduleInfo j).origin⟩
      have hm : ModuleOf fs library j m :=
        ⟨top', there, body, inner, fuel, s, _, hlinked, hrun, rfl⟩
      refine ⟨(j, m) :: shelf, by rw [List.map_cons, hfiles]; rfl, ?_, ?_⟩
      · exact List.forall_mem_cons.2 ⟨hm, hserves.modules⟩
      · rw [List.map_cons, List.cons_append, ← hserves.loaders]
        rfl

/-! ## Whole programs -/

theorem plain_execWith (imports : Import → Eval Unit) (fuel : Nat) {code : Code}
    (hcode : Discipline.plain.AllowsCode code) :
    Discipline.plain.Alike (execWith imports fuel code) (exec fuel code) fun _ => True :=
  Discipline.alike_execWith (fun _ _ (hplain : False) => hplain.elim) fuel hcode

/-- Placing an error is no matter of the plan. -/
theorem Runs.step {imports : Import → Eval Unit} {fuel : Nat} {n : Node NodeId}
    (h : Runs fs library top base remembered events done es
      (nodeWith imports fuel (execWith imports fuel) n) (node fuel (exec fuel) n)) :
    Runs fs library top base remembered events done es
      (stepWith imports fuel (execWith imports fuel) n) (Evaluation.step fuel (exec fuel) n) :=
  Runs.onFailure (fun _ _ => rfl) h

/-- **Linked code runs as planned**, under every meaning of imports that agrees with the real one at
the points of the plan. -/
theorem runs_linked {imports : Import → Eval Unit} {i : Importer} {there : List Path}
    {requests : List Import} {code : Code}
    (himports : ∀ request t, AskedAt fs library top base remembered events request t →
      (imports request).run t = (Evaluation.importNames request).run t)
    (h : Linked fs library top i there requests code es) (hthere : there = after done remembered)
    (hevents : ∃ more, events = done ++ es ++ more) (fuel : Nat) :
    Runs fs library top base remembered events done es (execWith imports fuel code)
      (exec fuel code) := by
  induction h generalizing done fuel with
  | plain hplain => exact Runs.of_alike (plain_execWith imports fuel hplain)
  | @known i there request requests m code es proper found there_of _ ih =>
    obtain ⟨more, hevents⟩ := hevents
    subst hthere
    cases fuel with
    | zero => exact Runs.exhausted
    | succ fuel =>
      have hask : Runs fs library top base remembered events done [.asks i request]
          (imports request) (Evaluation.importNames request) :=
        Runs.importNames (by rw [hevents, List.append_assoc]; rfl) proper found there_of
          (himports request)
      refine Runs.bind (Runs.step (n := .importing m request) hask) fun _ => ih ?_ ?_ (fuel + 1)
      · simp [after]
      · exact ⟨more, by rw [hevents, List.append_cons]⟩
  | @fresh i there j request requests m m' body inner code es proper leads _ _ file _ ihfile
      ihrest =>
    obtain ⟨more, hevents⟩ := hevents
    subst hthere
    cases fuel with
    | zero => exact Runs.exhausted
    | succ fuel =>
      have hinner : Runs fs library top base remembered events done inner
          (execWith imports fuel body) (exec fuel body) :=
        ihfile rfl ⟨.offers j :: .asks i request :: es ++ more, by rw [hevents]; simp⟩ fuel
      have hask : Runs fs library top base remembered events (done ++ (inner ++ [.offers j]))
          [.asks i request] (imports request) (Evaluation.importNames request) := by
        have hpoint : events =
            done ++ (inner ++ [.offers j]) ++ .asks i request :: (es ++ more) := by
          rw [hevents]
          simp
        refine Runs.importNames hpoint proper (fun _ => ⟨j, leads⟩) (fun k hk => ?_)
          (himports request)
        rw [hk.unique leads]
        simp [after]
      have hrest : Runs fs library top base remembered events
          (done ++ (inner ++ [.offers j]) ++ [.asks i request]) es
          (execWith imports (fuel + 1) code) (exec (fuel + 1) code) :=
        ihrest (by simp [after]) ⟨more, by rw [hevents]; simp⟩ (fuel + 1)
      have hplan : inner ++ .offers j :: .asks i request :: es =
          (inner ++ [.offers j]) ++ ([.asks i request] ++ es) := by
        simp
      rw [hplan]
      exact Runs.bind (Runs.step (n := .program m' (moduleInfo j) body) (Runs.module file hinner))
        fun _ => Runs.bind (Runs.step (n := .importing m request) hask) fun _ => hrest

end Runs

/-! ## Programs from start to end -/

/-- `interpret` with another meaning of imports. -/
def interpretWith (imports : Import → Eval Unit) (fuel : Nat) (scopes : ScopeTable)
    (p : Program NodeId) : Eval (Option Value) := do
  Action.change fun s => { s with scopes := s.scopes.extend scopes, depth := 0 }
  runProgram (execWith imports fuel) p.info p.nodes
  return (← Action.state).stack.peek?

/-- `P` holds of every import that is carried out when a program runs from `s`, and of the state in
which it is: the program runs the same, whatever imports do where `P` does not hold. -/
def EveryImport (fuel : Nat) (scopes : ScopeTable) (p : Program NodeId) (s : Interpreter)
    (P : Import → Interpreter → Prop) : Prop :=
  ∀ imports : Import → Eval Unit,
    (∀ request t, P request t → (imports request).run t = (importNames request).run t) →
      (interpretWith imports fuel scopes p).run s = (interpret fuel scopes p).run s

theorem EveryImport.mono {fuel : Nat} {scopes : ScopeTable} {p : Program NodeId} {s : Interpreter}
    {P Q : Import → Interpreter → Prop} (h : EveryImport fuel scopes p s P)
    (hPQ : ∀ request t, P request t → Q request t) : EveryImport fuel scopes p s Q :=
  fun imports himports => h imports fun request t hP => himports request t (hPQ request t hP)

/-- The state in which a program starts. -/
def started (scopes : ScopeTable) (info : ProgramInfo) (s : Interpreter) : Interpreter :=
  { s with scopes := s.scopes.extend scopes, depth := 0, file := info.file.or s.file }

/-- A root program runs in place; its errors belong to its own file. -/
theorem run_interpretWith {p : Program NodeId} (hroot : p.info.isRoot = true)
    (imports : Import → Eval Unit) (fuel : Nat) (scopes : ScopeTable) (s : Interpreter) :
    (interpretWith imports fuel scopes p).run s =
      match (execWith imports fuel p.nodes).run (started scopes p.info s) with
      | .done _ t => .done t.stack.peek? { t with current := s.current, file := s.file }
      | .stopped halt t => .stopped halt { t with current := s.current, file := s.file } := by
  unfold interpretWith
  rw [Action.run_bind, Action.run_change]
  dsimp only
  rw [Action.run_bind]
  unfold runProgram
  rw [Action.run_bind, Action.run_state]
  dsimp only
  rw [if_pos hroot]
  unfold Eval.within
  dsimp only
  cases h : (execWith imports fuel p.nodes).run (started scopes p.info s) with
  | done a t =>
    unfold started at h
    rw [h]
    rfl
  | stopped halt t =>
    unfold started at h
    rw [h]

theorem interpretWith_importNames (fuel : Nat) (scopes : ScopeTable) (p : Program NodeId) :
    interpretWith importNames fuel scopes p = interpret fuel scopes p := by
  unfold interpretWith interpret
  rw [funext (execWith_importNames fuel)]

/-- Code that starts with an import of an unknown namespace fails for lack of it. -/
theorem exec_importing_of_unknown {s : Interpreter} {request : Import}
    (hunknown : s.loaders.has request.loaderKey = false) (fuel : Nat) (m : Mark NodeId)
    (rest : Code) : ∃ d, (exec (fuel + 1) (.importing m request :: rest)).run s =
      .stopped (.failed d) s ∧ d.cause = .runtime (.unknownNamespace request.source) := by
  let d := (Diagnostic.ofRuntime (.unknownNamespace request.source)).locate m.token.position s.file
  have hstep : (step fuel (exec fuel) (.importing m request)).run s = .stopped (.failed d) s := by
    unfold step Eval.onFailure
    dsimp only
    rw [node, run_importNames, imported_unknownNamespace_iff.2 ⟨hunknown, rfl⟩]
    rfl
  refine ⟨d, ?_, rfl⟩
  unfold exec each
  rw [Action.run_bind, hstep]

section Interpret

variable {fs : FileSystem} {library : String} {top : SourceUnit} {i : Importer}
  {remembered : List Path} {requests : List Import} {es : List Event} {p : Program NodeId}
  {s : Interpreter}

/-- **A linked program runs as planned** from every state without code that imports. -/
theorem interpret_linked (hroot : p.info.isRoot = true)
    (hlinked : Linked fs library top i remembered requests p.nodes es)
    (hs : Sound s) (fuel : Nat) (scopes : ScopeTable) :
    EveryImport fuel scopes p s (AskedAt fs library top s.loaders.loaders remembered es) ∧
      match (interpret fuel scopes p).run s with
      | .done _ t => Sound t ∧ Serving fs library s.loaders.loaders (offered es) t ∧
          Answered s.loaders.loaders [] es
      | .stopped halt t => Sound t ∧ s.loaders.loaders <:+ t.loaders.loaders ∧
          Excused fs library top s.loaders.loaders remembered es halt := by
  have runs : ∀ imports : Import → Eval Unit,
      (∀ request t, AskedAt fs library top s.loaders.loaders remembered es request t →
        (imports request).run t = (importNames request).run t) →
      Runs fs library top s.loaders.loaders remembered es [] es (execWith imports fuel p.nodes)
        (exec fuel p.nodes) :=
    fun imports himports => runs_linked himports hlinked rfl ⟨[], by simp⟩ fuel
  have hstarted : Sound (started scopes p.info s) := hs.of_eq rfl rfl rfl hs.current
  have hserving : Serving fs library s.loaders.loaders (offered []) (started scopes p.info s) :=
    ⟨[], rfl, nofun, rfl⟩
  have hrun := run_interpretWith hroot importNames fuel scopes s
  rw [interpretWith_importNames, execWith_importNames] at hrun
  constructor
  · intro imports himports
    rw [run_interpretWith hroot, hrun, (runs imports himports _ hstarted hserving).1]
  · have ran := (runs importNames (fun _ _ _ => rfl) _ hstarted hserving).2
    rw [hrun]
    cases h : (exec fuel p.nodes).run (started scopes p.info s) with
    | done a t =>
      rw [h] at ran
      obtain ⟨ht, keeps, hserving', hanswered⟩ := ran
      exact ⟨ht.of_eq rfl rfl rfl (Nat.lt_of_lt_of_le hs.current keeps.size),
        hserving'.of_loaders_eq rfl, hanswered⟩
    | stopped halt t =>
      rw [h] at ran
      obtain ⟨ht, keeps, hexcused⟩ := ran
      exact ⟨ht.of_eq rfl rfl rfl (Nat.lt_of_lt_of_le hs.current keeps.size), keeps.loaders,
        hexcused⟩

end Interpret

end Evaluation

end Catena

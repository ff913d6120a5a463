import Catena.Proofs.Evaluation.Blame
import Catena.Proofs.Evaluation.Seclusion
import Catena.Proofs.Linking.Nodes
import Catena.Proofs.Tree.Sites

/-!
# Where a failure is placed

Two things are done to a failure on its way out. A node gives it a place if it has none, and a call
gives it the place where the call was made if it has none, and a note otherwise. So a failure gets its
place at once, from the node that raised it, and after that only notes.

For this it has to be known what is going on when a node is visited. `Comes` lists the visits that a
visit is inside of, and among them are the calls that are being carried out (`Visit.call?`). They
determine the place and the notes of a failure (`Comes.fails`), whatever lies between them: conditions,
modules and native functions that run code.

Nodes that stand nowhere, which currying makes, raise nothing. So a failure of a program that was read
has a place in a text (`failure_located`), in every state that linked programs lead to (`Attained`), and
in particular in a session, whatever it has run before (`Session.Arises.exists_place`).
-/

namespace Catena

open Catena.Eval

namespace Evaluation

/-! ## What a visit is inside of -/

/-- `Comes fuel ways code s outer v`: a run of `code` from `s` comes to the visit `v` while the visits
`outer` are going on, the outermost first. -/
inductive Comes : Nat → List Way → Code → Interpreter → List Visit → Visit → Prop
  | here {fuel : Nat} {ways : List Way} {n : Node NodeId} {rest : Code} {s : Interpreter} :
    Comes (fuel + 1) ways (n :: rest) s [] ⟨n, s, ways, fuel⟩
  | inside {fuel : Nat} {ways : List Way} {n : Node NodeId} {rest : Code} {s : Interpreter}
    {start : Start} {outer : List Visit} {v : Visit} (hstart : start ∈ starts fuel (exec fuel) s n)
    (h : Comes fuel (start.way :: ways) start.code start.state outer v) :
    Comes (fuel + 1) ways (n :: rest) s (⟨n, s, ways, fuel⟩ :: outer) v
  | later {fuel : Nat} {ways : List Way} {n : Node NodeId} {rest : Code} {s t : Interpreter}
    {outer : List Visit} {v : Visit} (hstep : (step fuel (exec fuel) n).run s = .done () t)
    (h : Comes (fuel + 1) ways rest t outer v) : Comes (fuel + 1) ways (n :: rest) s outer v

variable {fuel : Nat} {ways : List Way} {code : Code} {n : Node NodeId} {s t : Interpreter}
  {outer : List Visit} {v : Visit} {d : Diagnostic}

/-- A run comes to its visits, and to nothing else. -/
theorem mem_visits_iff_comes :
    v ∈ visits fuel ways code s ↔ ∃ outer, Comes fuel ways code s outer v := by
  constructor
  · intro h
    induction fuel generalizing ways code s with
    | zero => cases h
    | succ fuel ihfuel =>
      induction code generalizing s with
      | nil => cases h
      | cons n rest ih =>
        rcases mem_visits_cons.1 h with rfl | ⟨start, hstart, hv⟩ | ⟨t, hstep, hv⟩
        · exact ⟨[], .here⟩
        · obtain ⟨outer, houter⟩ := ihfuel hv
          exact ⟨_, .inside hstart houter⟩
        · obtain ⟨outer, houter⟩ := ih hv
          exact ⟨outer, .later hstep houter⟩
  · rintro ⟨outer, h⟩
    induction h with
    | here => exact mem_visits_cons.2 (.inl rfl)
    | inside hstart _ ih => exact mem_visits_cons.2 (.inr (.inl ⟨_, hstart, ih⟩))
    | later hstep _ ih => exact mem_visits_cons.2 (.inr (.inr ⟨_, hstep, ih⟩))

/-- The place of the call that a visit carries out: the node is a use of a name that stands for
something. -/
def Visit.call? (v : Visit) : Option Position :=
  match v.node with
  | .identifier m qualifier name =>
    match lookUp v.state qualifier (v.state.scopes.nameOf m.tag name) with
    | .ok _ => some (site m qualifier)
    | .error _ => none
  | _ => none

/-- The places of the calls among visits. -/
def calls (vs : List Visit) : List Position :=
  vs.filterMap Visit.call?

/-- The notes that a failure takes out of calls: the innermost come first, and there are only so
many. -/
def calledFrom (sites : List Position) : List Note :=
  (sites.reverse.take Diagnostic.maxNotes).map .calledFrom

theorem calledFrom_cons (site : Position) (sites : List Position) :
    calledFrom (site :: sites) =
      if (calledFrom sites).length < Diagnostic.maxNotes then
        calledFrom sites ++ [.calledFrom site]
      else calledFrom sites := by
  unfold calledFrom
  rw [List.reverse_cons, List.take_append, List.map_append, List.length_map, List.length_take]
  split
  · next h =>
    have hroom : sites.reverse.length < Diagnostic.maxNotes := by omega
    obtain ⟨k, hk⟩ := Nat.exists_eq_add_of_lt hroom
    have hleft : Diagnostic.maxNotes - sites.reverse.length = k + 1 := by omega
    rw [hleft, List.take_succ_cons, List.take_nil]
    rfl
  · next h =>
    have hfull : Diagnostic.maxNotes - sites.reverse.length = 0 := by omega
    rw [hfull, List.take_zero, List.map_nil, List.append_nil]

/-! ## Failures of a node -/

/-- A failure that a node raises by itself is placed there at once: at the call, if the node carries
one out. -/
theorem raised (h : (step fuel (exec fuel) n).run s = .stopped (.failed d) t)
    (hended : ∀ start ∈ starts fuel (exec fuel) s n,
      ∃ u, (exec fuel start.code).run start.state = .done () u) :
    d.position = some ((Visit.call? ⟨n, s, ways, fuel⟩).getD n.position) ∧ d.notes = [] := by
  have other : (∀ token ∈ tokens n, token = n.mark.token) →
      d.position = some n.position ∧ d.notes = [] := by
    intro hn
    rcases (accounts_step fuel n s).failed d t h with
      ⟨e, ⟨token, htoken, rfl⟩, -⟩ | ⟨start, hstart, d', u, hrun, -⟩
    · rw [hn token htoken]
      exact ⟨rfl, rfl⟩
    · obtain ⟨w, hw⟩ := hended start hstart
      rw [hw] at hrun
      cases hrun
  cases n with
  | identifier m qualifier name =>
    unfold step onFailure at h
    dsimp only at h
    rw [node, run_callName] at h
    unfold Visit.call?
    dsimp only
    cases hf : lookUp s qualifier (s.scopes.nameOf m.tag name) with
    | error e =>
      rw [hf] at h
      cases h
      exact ⟨rfl, rfl⟩
    | ok f =>
      rw [hf] at h
      dsimp only at h
      unfold onFailure at h
      dsimp only at h
      cases hrun : (invoke fuel (exec fuel) f m.token.lexeme).run s with
      | done a u =>
        rw [hrun] at h
        cases h
      | stopped halt u =>
        rw [hrun] at h
        cases halt with
        | exhausted => cases h
        | failed d' =>
          cases h
          rcases (threads_invoke fuel (exec fuel) hf).failed hrun with
            ⟨e, rfl, -⟩ | ⟨start, hstart, w, hfailed⟩
          · exact ⟨rfl, rfl⟩
          · obtain ⟨w, hw⟩ := hended start hstart
            rw [hw] at hfailed
            cases hfailed
  | _ => exact other fun token htoken => List.mem_singleton.1 htoken

theorem step_of_failed (h : (node fuel (exec fuel) n).run s = .stopped (.failed d) t) :
    (step fuel (exec fuel) n).run s = .stopped (.failed (d.locate n.position s.file)) t := by
  have hfile := (node_frame fuel n s).file
  rw [h] at hfile
  change t.file = s.file at hfile
  unfold step onFailure
  dsimp only
  rw [h]
  dsimp only
  rw [hfile]

/-- A failure of code that a node starts becomes one of the node. -/
theorem step_fails {start : Start} (hstart : start ∈ starts fuel (exec fuel) s n)
    (hrun : (exec fuel start.code).run start.state = .stopped (.failed d) t) :
    ∃ u, (step fuel (exec fuel) n).run s =
      .stopped (.failed ((relayed n s.file d).locate n.position s.file)) u := by
  cases n with
  | condition m form =>
    obtain ⟨u, hu⟩ := (threads_condition m form).stopped hstart hrun
    exact ⟨u, step_of_failed hu⟩
  | program m info nodes =>
    obtain rfl := List.mem_singleton.1 hstart
    have hnode : (node fuel (exec fuel) (.program m info nodes)).run s =
        .stopped (.failed d) { t with current := s.current, file := s.file } := by
      rw [node, run_program, hrun]
    exact ⟨_, step_of_failed hnode⟩
  | identifier m qualifier name =>
    cases hf : lookUp s qualifier (s.scopes.nameOf m.tag name) with
    | error e =>
      rw [starts_identifier, callee?_eq_none hf] at hstart
      cases hstart
    | ok f =>
      obtain ⟨u, hu⟩ := (threads_invoke fuel (exec fuel) hf).stopped hstart hrun
      have hnode : (node fuel (exec fuel) (.identifier m qualifier name)).run s =
          .stopped (.failed (d.throughCall (site m qualifier) u.file)) u := by
        rw [node, run_callName, hf]
        dsimp only
        unfold onFailure
        dsimp only
        rw [hu]
      have hfile := (node_frame fuel (.identifier m qualifier name) s).file
      rw [hnode] at hfile
      change u.file = s.file at hfile
      rw [hfile] at hnode
      exact ⟨u, step_of_failed hnode⟩
  | _ => cases hstart

/-- What is going on around started code carries out a call exactly if it is a use of a name. -/
theorem call?_of_mem_starts {start : Start} (hstart : start ∈ starts fuel (exec fuel) s n) :
    Visit.call? ⟨n, s, ways, fuel⟩ =
      match n with
      | .identifier m qualifier _ => some (site m qualifier)
      | _ => none := by
  unfold Visit.call?
  cases n with
  | identifier m qualifier name =>
    dsimp only
    cases hf : lookUp s qualifier (s.scopes.nameOf m.tag name) with
    | error e =>
      rw [starts_identifier, callee?_eq_none hf] at hstart
      cases hstart
    | ok f => rfl
  | _ => rfl

/-- A failure that has a place keeps it, and takes a note of a call on its way out. -/
theorem adapt_placed (ways : List Way) (file : Option String) {start : Start}
    (hstart : start ∈ starts fuel (exec fuel) s n) {position : Position} {sites : List Position}
    (hposition : d.position = some position) (hnotes : d.notes = calledFrom sites) :
    ((relayed n file d).locate n.position file).position = some position ∧
      ((relayed n file d).locate n.position file).notes =
        calledFrom ((Visit.call? ⟨n, s, ways, fuel⟩).toList ++ sites) := by
  refine ⟨position_adapt hposition, ?_⟩
  rw [call?_of_mem_starts hstart]
  unfold relayed Diagnostic.throughCall Diagnostic.locate
  cases n with
  | identifier m qualifier name =>
    dsimp only
    rw [hposition, Option.toList_some, List.singleton_append, calledFrom_cons, ← hnotes]
    dsimp only
    split <;> rfl
  | _ => exact hnotes

/-! ## Failures of a run -/

/-- **The calls that are being carried out place a failure.** If a run comes to a visit that raises a
failure, it fails with that failure, at the place of the visit and with notes of the calls around
it. -/
theorem Comes.fails (h : Comes fuel ways code s outer v) {cause : Cause} (hv : v.Raises cause) :
    ∃ d t, (exec fuel code).run s = .stopped (.failed d) t ∧ d.cause = cause ∧
      d.position = some (v.call?.getD v.node.position) ∧ d.notes = calledFrom (calls outer) := by
  induction h with
  | @here fuel ways n rest s =>
    obtain ⟨⟨d, t, hfailed, hcause⟩, hended⟩ := hv
    have hstep : (step fuel (exec fuel) n).run s = .stopped (.failed d) t := hfailed
    obtain ⟨hposition, hnotes⟩ := raised hstep hended
    refine ⟨d, t, ?_, hcause, hposition, hnotes⟩
    rw [exec_cons, Action.run_bind, hstep]
  | @inside fuel ways n rest s start outer v hstart _ ih =>
    obtain ⟨d, t, hrun, hcause, hposition, hnotes⟩ := ih hv
    obtain ⟨u, hu⟩ := step_fails hstart hrun
    obtain ⟨hposition', hnotes'⟩ := adapt_placed ways s.file hstart hposition
      hnotes
    refine ⟨_, u, ?_, (cause_adapt n s.file d).trans hcause, hposition', ?_⟩
    · rw [exec_cons, Action.run_bind, hu]
    · rw [hnotes', calls, calls, List.filterMap_cons]
      cases Visit.call? ⟨n, s, ways, fuel⟩ <;> rfl
  | @later fuel ways n rest s t outer v hstep _ ih =>
    obtain ⟨d, u, hrun, hd⟩ := ih hv
    refine ⟨d, u, ?_, hd⟩
    rw [exec_cons, Action.run_bind, hstep]
    exact hrun

/-- A program fails exactly if its nodes do. -/
theorem interpret_failed_iff {scopes : ScopeTable} {p : Program NodeId} :
    (∃ t, (interpret fuel scopes p).run s = .stopped (.failed d) t) ↔
      ∃ t, (exec fuel p.nodes).run (begun scopes p s) = .stopped (.failed d) t := by
  rw [run_interpret]
  cases (exec fuel p.nodes).run (begun scopes p s) with
  | done a t => simp
  | stopped halt t => simp

end Evaluation

/-! ## Nodes that stand nowhere -/

/-- The discipline of code that was read: nodes stand on a line of a text, but for those that push a
value and for modules. -/
def Discipline.sited : Discipline where
  node n := n.Sited Position.OnLine ∨ n.Pushes ∨ n.isModule = true
  array := TypedArray.Uniform
  error _ := True
  modules := True
  node_literal _ _ := .inr (.inl trivial)
  node_sequence _ _ _ := .inr (.inl trivial)
  node_array _ h := .inr (.inl h.exists_ofLiterals)
  node_program _ := trivial
  array_ofLiterals := TypedArray.uniform_ofLiterals
  array_push := TypedArray.Uniform.push
  array_set := TypedArray.Uniform.set
  array_pop := TypedArray.Uniform.pop
  error_of _ := trivial

namespace Discipline

open Linking

theorem alike_imports_sited (m : Mark NodeId) (request : Import)
    (_ : sited.node (.importing m request)) :
    sited.Alike (Evaluation.importNames request) (Evaluation.importNames request) fun _ => True :=
  alike_importNames trivial fun _ => trivial

/-- **Linked code stands on the lines of its texts.** -/
theorem allowsCode_sited {fs : FileSystem} {library : String} {start : Start} {l l' : Linker}
    {p : Program NodeId} (hlink : (start.link fs library).run l = .done p l') :
    sited.AllowsCode p.nodes := by
  refine (meets_link_allIn ?_ (fun _ _ _ => .inr (.inr rfl)) start l).of_done hlink
  intro source q n hq
  exact Node.allIn_numberAll (fun node k hnode => .inl (node.sited_number k hnode)) n q.nodes
    (Tree.allIn_sited_of_ofSource (program?_eq_some_iff.1 hq).1)

end Discipline

namespace Evaluation

variable {fuel : Nat} {s t : Interpreter} {d : Diagnostic}

/-- The states that linked programs lead to from a fresh one, run one after the other to whatever
end. Between two programs streams, numbers and the limits may change, and values without code may be
put on the stack. -/
inductive Attained : Interpreter → Prop
  | fresh {s : Interpreter} (h : Fresh s) : Attained s
  | altered {s t : Interpreter} (h : Attained s) (spaces : t.spaces = s.spaces)
    (loaders : t.loaders = s.loaders) (stack : ∀ value ∈ t.stack.items, value ∈ s.stack.items ∨
      (∃ l, value = .literal l) ∨ ∃ a, value = .array a ∧ a.Uniform) : Attained t
  | ran {s : Interpreter} (h : Attained s) {fs : FileSystem} {library : String} {start : Linking.Start}
    {l l' : Linker} {p : Program NodeId} (hlink : (start.link fs library).run l = .done p l')
    (fuel : Nat) (scopes : ScopeTable) : Attained ((interpret fuel scopes p).run s).state

theorem Attained.holds (h : Attained s) : Discipline.sited.Holds s := by
  induction h with
  | fresh h => exact h.holds _
  | altered _ hspaces hloaders hstack ih =>
    refine ⟨fun value hvalue => ?_, hspaces ▸ ih.spaces, hloaders ▸ ih.loaders⟩
    rcases hstack value hvalue with hold | ⟨l, rfl⟩ | ⟨a, rfl, ha⟩
    · exact ih.stack value hold
    · exact trivial
    · exact ha
  | ran _ hlink fuel scopes ih =>
    exact holds_interpret trivial Discipline.alike_imports_sited ih fuel scopes
      (Discipline.allowsCode_sited hlink)

/-- Where a node stands at which failures can be placed. -/
theorem Visit.onLine (v : Visit) (h : v.node.Sited Position.OnLine) :
    (v.call?.getD v.node.position).OnLine := by
  obtain ⟨n, s, ways, fuel⟩ := v
  unfold Visit.call?
  cases n with
  | identifier m qualifier name =>
    obtain ⟨hname, hqualifier⟩ := h
    dsimp only
    cases lookUp s qualifier (s.scopes.nameOf m.tag name) with
    | error e => exact hname
    | ok f =>
      cases qualifier with
      | none => exact hname
      | some token => exact hqualifier token rfl
  | _ => exact h

section Failed

variable {scopes : ScopeTable} {p : Program NodeId}

/-- A program that fails has come to a node that raises the failure. -/
theorem exists_comes_raises (hfailed : (interpret fuel scopes p).run s = .stopped (.failed d) t) :
    ∃ outer v, Comes fuel [.module p.info] p.nodes (begun scopes p s) outer v ∧ v.Raises d.cause := by
  obtain ⟨u, hu⟩ := interpret_failed_iff.1 ⟨t, hfailed⟩
  obtain ⟨v, hv, hraises, -⟩ := exists_raises hu
  obtain ⟨outer, hcomes⟩ := mem_visits_iff_comes.1 hv
  exact ⟨outer, v, hcomes, hraises⟩

/-- A failure is placed at the call that raises it, or at the node, with notes of the calls around. -/
theorem placed_of_raises (hfailed : (interpret fuel scopes p).run s = .stopped (.failed d) t)
    {outer : List Visit} {v : Visit} {cause : Cause}
    (hv : Comes fuel [.module p.info] p.nodes (begun scopes p s) outer v) (hraises : v.Raises cause) :
    d.cause = cause ∧ d.position = some (v.call?.getD v.node.position) ∧
      d.notes = ((calls outer).reverse.take 10).map .calledFrom := by
  obtain ⟨u, hu⟩ := interpret_failed_iff.1 ⟨t, hfailed⟩
  obtain ⟨d', u', hrun, hd'⟩ := hv.fails hraises
  rw [hu] at hrun
  cases hrun
  exact hd'

/-- If a program has been linked, and all code that was run before, its failures are on lines of
texts. -/
theorem position_ne_synthetic (hfailed : (interpret fuel scopes p).run s = .stopped (.failed d) t)
    {fs : FileSystem} {library : String} {start : Linking.Start} {l l' : Linker}
    (hlink : (start.link fs library).run l = .done p l') (hs : Attained s) :
    d.position ≠ some .synthetic := by
  intro hsynthetic
  obtain ⟨outer, v, hcomes, hraises⟩ := exists_comes_raises hfailed
  obtain ⟨-, hposition, -⟩ := placed_of_raises hfailed hcomes hraises
  have hnode := (allowed_visits Discipline.alike_imports_sited (holds_begun hs.holds scopes p)
    (Discipline.allowsCode_sited hlink) v (mem_visits_iff_comes.2 ⟨outer, hcomes⟩)).2.self
  rcases hnode with hsited | hpushes | hmodule
  · rw [hposition] at hsynthetic
    exact (v.onLine hsited).ne_synthetic (Option.some.inj hsynthetic)
  · exact not_raises_of_pushes hpushes _ hraises
  · exact not_raises_of_isModule hmodule _ hraises

end Failed

/-- **Where a failure is placed.** A program that fails has come to a node that raises the failure. If
that node carries out a call, the failure is placed where the call was made, at the qualifier if there
is one, and else at the node. The notes give the places of the calls around it, the innermost first and
ten at most. If the program was linked, and so was all code that was run before, then the place is on a
line of a text. -/
theorem failure_located {scopes : ScopeTable} {p : Program NodeId}
    (hfailed : (interpret fuel scopes p).run s = .stopped (.failed d) t) :
    (∃ outer v, Comes fuel [.module p.info] p.nodes (begun scopes p s) outer v ∧
      v.Raises d.cause) ∧
    (∀ outer v cause, Comes fuel [.module p.info] p.nodes (begun scopes p s) outer v →
      v.Raises cause → d.cause = cause ∧ d.position = some (v.call?.getD v.node.position) ∧
        d.notes = ((calls outer).reverse.take 10).map .calledFrom) ∧
    ∀ fs library (start : Linking.Start) l l', (start.link fs library).run l = .done p l' →
      Attained s → d.position ≠ some .synthetic :=
  ⟨exists_comes_raises hfailed, fun _ _ _ => placed_of_raises hfailed,
    fun _ _ _ _ _ => position_ne_synthetic hfailed⟩

end Evaluation

namespace Session

open Evaluation

/-- The states between the steps of a session are attained. -/
theorem Arises.attained {config : Config} {s : Session} (h : Arises config s) :
    Attained s.interpreter := by
  have same : ∀ {s t : Interpreter}, Attained s → t.spaces = s.spaces → t.loaders = s.loaders →
      t.stack = s.stack → Attained t := fun hs hspaces hloaders hstack =>
    hs.altered hspaces hloaders fun _ hvalue => .inl (hstack ▸ hvalue)
  exact h.invariant (fun _ _ => .fresh ⟨rfl, rfl, rfl, rfl, rfl⟩) (fun _ _ hs => same hs rfl rfl rfl)
    (fun _ _ _ hs => same hs rfl rfl rfl)
    fun _ _ _ _ _ _ l hlink hs => hs.ran hlink ampleFuel l.scopes

/-- **Whatever a session has run, a failure of its next run is on a line of a text.** -/
theorem Arises.exists_place {config : Config} {s : Session} (h : Arises config s) {fs : FileSystem}
    {library : String} {start : Linking.Start} {root : String} {log : FileLog} {p : Program NodeId}
    {l : Linker} (hlink : (start.link fs library).run (s.linker root log) = .done p l) {fuel : Nat}
    {d : Diagnostic} {t : Interpreter}
    (hfailed : (interpret fuel l.scopes p).run (s.remember l).interpreter = .stopped (.failed d) t) :
    ∃ place, d.position = some place ∧ place ≠ .synthetic := by
  have hs : Attained (s.remember l).interpreter :=
    h.attained.altered rfl rfl fun _ hvalue => .inl hvalue
  obtain ⟨outer, v, hcomes, hraises⟩ := exists_comes_raises hfailed
  obtain ⟨-, hposition, -⟩ := placed_of_raises hfailed hcomes hraises
  refine ⟨_, hposition, fun hsynthetic => position_ne_synthetic hfailed hlink hs ?_⟩
  rw [hposition, hsynthetic]

end Session

namespace Evaluation

open Linking

/-- A file that calls a function of another one by way of its namespace. -/
def dotted : FileSystem where
  workingDirectory := []
  entries :=
    [(["m.twl"], .file "public def fall { nope }".toUTF8.toList),
      (["main.twl"], .file "import \"m.twl\"\nm.fall".toUTF8.toList)]

/-- A name that is not bound is reported where it stands, with a note of the call around it, which was
made at its qualifier. -/
theorem failure_located_dotted : ∃ p l d t,
    (linkEntry dotted "std" ["main.twl"]).run (Start.linker (.file ["main.twl"]) {} 1) = .done p l ∧
      (interpret 10 l.scopes p).run (.withNatives {}) = .stopped (.failed d) t ∧
      d.position = some ⟨1, 19⟩ ∧ d.notes.map Note.text = ["called from line 2, character 1"] ∧
      d.position ≠ some .synthetic ∧
      ∃ outer v, Comes 10 [.module p.info] p.nodes (begun l.scopes p (.withNatives {})) outer v ∧
        v.Raises d.cause ∧ d.position = some (v.call?.getD v.node.position) ∧
        d.notes = ((calls outer).reverse.take 10).map .calledFrom := by
  have hcheck : ((failure? dotted "std" ["main.twl"] 10).any fun (_, _, d) =>
      d.position == some ⟨1, 19⟩ &&
        d.notes.map Note.text == ["called from line 2, character 1"]) = true := by decide +kernel
  cases hfailure : failure? dotted "std" ["main.twl"] 10 with
  | none => rw [hfailure] at hcheck; cases hcheck
  | some x =>
    obtain ⟨p, l, d⟩ := x
    rw [hfailure, Option.any_some, Bool.and_eq_true, beq_iff_eq, beq_iff_eq] at hcheck
    obtain ⟨hposition, hnotes⟩ := hcheck
    obtain ⟨hlink, t, hfailed⟩ := failure?_eq_some hfailure
    obtain ⟨⟨outer, v, hv, hraises⟩, hall, hwritten⟩ := failure_located hfailed
    have hplace := hwritten _ _ (.file ["main.twl"]) _ _ hlink (.fresh (.withNatives {}))
    exact ⟨p, l, d, t, hlink, hfailed, hposition, hnotes, hplace, outer, v, hv, hraises,
      (hall outer v _ hv hraises).2⟩

end Evaluation

end Catena

import Catena.Proofs.Evaluation.Stock
import Catena.Proofs.Linking.Order
import Catena.Proofs.TypedArray

/-!
# Which file a failure belongs to

A diagnostic takes its position from the node that raised it and its file from the state in which that
node was evaluated. The nodes of a program and of the body of a function are evaluated in the file
that they were read from. Those of a sequence are evaluated wherever the sequence is run, and a
function that is defined there belongs to that place too.

So the file of a diagnostic is that of the node, unless a sequence has been run away from home
(`failure_attributed`), and then it can be a file that has nothing at the position
(`failure_misattributed`).
-/

namespace Catena

/-! ## The file of a node -/

namespace Node

mutual

/-- A node that was read from `file` and everything inside it, each with the file that it was read
from. -/
def filed (file : Option String) : Node NodeId → List (Option String × Node NodeId)
  | sequence m block body => (file, sequence m block body) :: filedAll file body
  | definition m signature body => (file, definition m signature body) :: filedAll file body
  | program m info nodes => (file, program m info nodes) :: filedAll (info.file.or file) nodes
  | node => [(file, node)]

/-- The same for code. -/
def filedAll (file : Option String) : Code → List (Option String × Node NodeId)
  | [] => []
  | node :: rest => node.filed file ++ filedAll file rest

end

theorem mem_filed_self (file : Option String) (n : Node NodeId) : (file, n) ∈ n.filed file := by
  cases n <;> simp [filed]

theorem mem_filedAll {file : Option String} {code : Code} {x : Option String × Node NodeId} :
    x ∈ filedAll file code ↔ ∃ n ∈ code, x ∈ n.filed file := by
  induction code with
  | nil => simp [filedAll]
  | cons n rest ih => simp [filedAll, ih]

theorem mem_filedAll_self {file : Option String} {code : Code} {n : Node NodeId} (h : n ∈ code) :
    (file, n) ∈ filedAll file code :=
  mem_filedAll.2 ⟨n, h, mem_filed_self file n⟩

mutual

theorem filed_trans {file f : Option String} {x : Node NodeId} {y : Option String × Node NodeId}
    (n : Node NodeId) (hx : (f, x) ∈ n.filed file) (hy : y ∈ x.filed f) : y ∈ n.filed file := by
  cases n with
  | sequence m block body =>
    rw [filed, List.mem_cons] at hx
    rcases hx with hx | hx
    · cases hx
      exact hy
    · rw [filed]
      exact List.mem_cons_of_mem _ (filedAll_trans body hx hy)
  | definition m signature body =>
    rw [filed, List.mem_cons] at hx
    rcases hx with hx | hx
    · cases hx
      exact hy
    · rw [filed]
      exact List.mem_cons_of_mem _ (filedAll_trans body hx hy)
  | program m info nodes =>
    rw [filed, List.mem_cons] at hx
    rcases hx with hx | hx
    · cases hx
      exact hy
    · rw [filed]
      exact List.mem_cons_of_mem _ (filedAll_trans nodes hx hy)
  | literal m value | arithmetic m op | comparison m op | condition m form
  | identifier m qualifier name | importing m request | binding m name isPublic | array m items =>
    simp only [filed, List.mem_singleton] at hx
    cases hx
    exact hy

/-- What is inside a node that is inside some code is inside the code. -/
theorem filedAll_trans {file f : Option String} {x : Node NodeId} {y : Option String × Node NodeId}
    (code : Code) (hx : (f, x) ∈ filedAll file code) (hy : y ∈ x.filed f) :
    y ∈ filedAll file code := by
  cases code with
  | nil => simp [filedAll] at hx
  | cons n rest =>
    rw [filedAll, List.mem_append] at hx ⊢
    rcases hx with hx | hx
    · exact .inl (filed_trans n hx hy)
    · exact .inr (filedAll_trans rest hx hy)

end

mutual

theorem all_of_filed {P : Node NodeId → Prop} {file : Option String} (n : Node NodeId)
    (h : ∀ x ∈ n.filed file, P x.2) : n.All P := by
  cases n with
  | sequence m block body | definition m signature body | program m info nodes =>
    rw [filed, List.forall_mem_cons] at h
    exact ⟨h.1, allIn_of_filed _ h.2⟩
  | literal m value | arithmetic m op | comparison m op | condition m form
  | identifier m qualifier name | importing m request | binding m name isPublic | array m items =>
    exact h _ (mem_filed_self file _)

/-- Every node of some code is listed. -/
theorem allIn_of_filed {P : Node NodeId → Prop} {file : Option String} (code : Code)
    (h : ∀ x ∈ filedAll file code, P x.2) : AllIn P code := by
  cases code with
  | nil => exact trivial
  | cons n rest =>
    rw [filedAll, List.forall_mem_append] at h
    exact ⟨all_of_filed n h.1, allIn_of_filed rest h.2⟩

end

mutual

theorem filed_of_read {file : Option String} {x : Option String × Node NodeId} (n : Node NodeId)
    (h : n.All Read) (hx : x ∈ n.filed file) : x.1 = file ∧ x.2.isModule = false := by
  cases n with
  | sequence m block body =>
    rw [filed, List.mem_cons] at hx
    rcases hx with rfl | hx
    · exact ⟨rfl, rfl⟩
    · exact filedAll_of_read body h.2 hx
  | definition m signature body =>
    rw [filed, List.mem_cons] at hx
    rcases hx with rfl | hx
    · exact ⟨rfl, rfl⟩
    · exact filedAll_of_read body h.2 hx
  | program m info nodes => exact h.1.elim
  | literal m value | arithmetic m op | comparison m op | condition m form
  | identifier m qualifier name | importing m request | binding m name isPublic | array m items =>
    simp only [filed, List.mem_singleton] at hx
    rw [hx]
    exact ⟨rfl, rfl⟩

/-- Code as it is read comes from one file. -/
theorem filedAll_of_read {file : Option String} {x : Option String × Node NodeId} (code : Code)
    (h : AllIn Read code) (hx : x ∈ filedAll file code) : x.1 = file ∧ x.2.isModule = false := by
  cases code with
  | nil => simp [filedAll] at hx
  | cons n rest =>
    rw [filedAll, List.mem_append] at hx
    rcases hx with hx | hx
    · exact filed_of_read n h.1 hx
    · exact filedAll_of_read rest h.2 hx

end

end Node

/-- A node stands in a program, in the part that was read from `file`. -/
def Program.Writes (p : Program NodeId) (file : Option String) (n : Node NodeId) : Prop :=
  (file, n) ∈ Node.filedAll p.info.file p.nodes

/-! ## Code that was read -/

/-- A node that does no more than push a value. -/
def Node.Pushes : Node NodeId → Prop
  | .literal _ _ => True
  | .sequence _ _ _ => True
  | .array _ items => ∃ a, TypedArray.ofLiterals items = .ok a
  | _ => False

/-- The discipline of the code that a program makes: it was read with the program, but for nodes that
push a value. -/
def Discipline.written (p : Program NodeId) : Discipline where
  node n := (∃ file, p.Writes file n) ∨ n.Pushes
  array := TypedArray.Uniform
  error _ := True
  modules := True
  node_literal _ _ := .inr trivial
  node_sequence _ _ _ := .inr trivial
  node_array _ h := .inr h.exists_ofLiterals
  node_program _ := trivial
  array_ofLiterals := TypedArray.uniform_ofLiterals
  array_push := TypedArray.Uniform.push
  array_set := TypedArray.Uniform.set
  array_pop := TypedArray.Uniform.pop
  error_of _ := trivial

theorem Discipline.allowsCode_written (p : Program NodeId) :
    (Discipline.written p).AllowsCode p.nodes :=
  Node.allIn_of_filed p.nodes fun x (hx : x ∈ Node.filedAll p.info.file p.nodes) => .inl ⟨x.1, hx⟩

namespace Evaluation

/-! ## Where failures come from -/

/-- A failure with the given cause is raised by the visited node itself: everything that the node
started has come to its end. -/
structure Visit.Raises (v : Visit) (cause : Cause) : Prop where
  failed : ∃ d t, v.outcome = .stopped (.failed d) t ∧ d.cause = cause
  ended : ∀ start ∈ v.starts, ∃ t, (exec v.fuel start.code).run start.state = .done () t

theorem position_adapt {n : Node NodeId} {file : Option String} {d : Diagnostic}
    {position : Position} (h : d.position = some position) :
    ((relayed n file d).locate n.position file).position = some position := by
  unfold relayed Diagnostic.throughCall Diagnostic.locate
  split
  · rw [h]
    dsimp only
    split <;> simp [h]
  · simp [h]

theorem cause_adapt (n : Node NodeId) (file : Option String) (d : Diagnostic) :
    ((relayed n file d).locate n.position file).cause = d.cause := by
  unfold relayed
  split
  · exact d.cause_throughCall _ file
  · rfl

theorem file_adapt {n : Node NodeId} {file : Option String} {d : Diagnostic} {name : String}
    (hposition : d.position.isSome) (h : d.file = some name) :
    ((relayed n file d).locate n.position file).file = some name := by
  obtain ⟨position, hposition⟩ := Option.isSome_iff_exists.1 hposition
  unfold relayed Diagnostic.throughCall Diagnostic.locate
  split
  · rw [hposition]
    dsimp only
    split <;> simp [h]
  · simp [h]

/-- **Every failure was raised by a node** that was visited, and is placed there: at a token of the
node, and in the file in which the node was visited. -/
theorem exists_raises {fuel : Nat} {ways : List Way} {code : Code} {s t : Interpreter}
    {d : Diagnostic} (h : (exec fuel code).run s = .stopped (.failed d) t) :
    ∃ v ∈ visits fuel ways code s, v.Raises d.cause ∧
      (∃ token ∈ tokens v.node, d.position = some token.position) ∧
      ∀ name, v.state.file = some name → d.file = some name := by
  induction fuel generalizing ways code s t d with
  | zero => cases h
  | succ fuel ihfuel =>
    induction code generalizing s with
    | nil => cases h
    | cons n rest ih =>
      rw [exec_cons, Action.run_bind] at h
      cases hstep : (step fuel (exec fuel) n).run s with
      | done a u =>
        rw [hstep] at h
        obtain ⟨v, hv, hraises⟩ := ih h
        exact ⟨v, mem_visits_cons.2 (.inr (.inr ⟨u, hstep, hv⟩)), hraises⟩
      | stopped halt u =>
        rw [hstep] at h
        cases h
        rcases (accounts_step fuel n s).failed d t hstep with
          ⟨e, ⟨token, htoken, rfl⟩, hended⟩ | ⟨start, hstart, d', u, hrun, rfl⟩
        · refine ⟨⟨n, s, ways, fuel⟩, mem_visits_cons.2 (.inl rfl), ⟨⟨_, t, hstep, rfl⟩, hended⟩,
            ⟨token, htoken, rfl⟩, fun name hname => hname⟩
        · obtain ⟨v, hv, hraises, ⟨token, htoken, hposition⟩, hfile⟩ := ihfuel hrun
          refine ⟨v, mem_visits_cons.2 (.inr (.inl ⟨start, hstart, hv⟩)), ?_,
            ⟨token, htoken, position_adapt hposition⟩, fun name hname => ?_⟩
          · rw [cause_adapt]
            exact hraises
          · exact file_adapt (by rw [hposition]; rfl) (hfile name hname)

/-- A node that only pushes a value raises nothing. -/
theorem not_raises_of_pushes {v : Visit} (h : v.node.Pushes) (cause : Cause) : ¬v.Raises cause := by
  rintro ⟨⟨d, t, hfailed, -⟩, -⟩
  obtain ⟨n, s, ways, fuel⟩ := v
  have done : ∀ {u}, (node fuel (exec fuel) n).run s = .done () u → False := by
    intro u hnode
    unfold Visit.outcome at hfailed
    dsimp only at hfailed
    rw [step_of_done hnode] at hfailed
    cases hfailed
  cases n with
  | literal m value => exact done rfl
  | sequence m block body => exact done rfl
  | array m items =>
    obtain ⟨a, ha⟩ := h
    refine done (u := { s with stack := s.stack.push (.array a) }) ?_
    rw [node, ha]
    rfl
  | _ => exact h

/-- A module raises nothing by itself. -/
theorem not_raises_of_isModule {v : Visit} (h : v.node.isModule = true) (cause : Cause) :
    ¬v.Raises cause := by
  rintro ⟨⟨d, t, hfailed, -⟩, hended⟩
  obtain ⟨n, s, ways, fuel⟩ := v
  cases n with
  | program m info nodes =>
    obtain ⟨u, hu⟩ := hended _ (List.mem_singleton_self _)
    have hnode : (node fuel (exec fuel) (.program m info nodes)).run s =
        .done () (closed info s u) := by
      rw [node, run_program, hu]
    unfold Visit.outcome at hfailed
    dsimp only at hfailed
    rw [step_of_done hnode] at hfailed
    cases hfailed
  | _ => cases h

/-! ## Where nodes are visited -/

/-- The visited node stands in a sequence that is run. -/
def Visit.InSequence (v : Visit) : Prop :=
  ∃ way rest, v.ways = way :: rest ∧ way.runsSequence = true

/-- The visited node stands in a sequence that is run away from home: in a file that the node was not
read from. -/
def Visit.Strays (p : Program NodeId) (v : Visit) : Prop :=
  v.InSequence ∧ (∃ file, p.Writes file v.node) ∧ ¬p.Writes v.state.file v.node

/-- A node that is inside one that strayed. -/
def Astray (p : Program NodeId) (vs : List Visit) (n : Node NodeId) : Prop :=
  ∃ w ∈ vs, w.Strays p ∧ ∃ file, (file, n) ∈ w.node.filed w.state.file

/-- A node that belongs to the file that is current, or has gone astray. -/
def Homely (p : Program NodeId) (vs : List Visit) (file : Option String) (n : Node NodeId) : Prop :=
  p.Writes file n ∨ Astray p vs n

section Homely

variable {p : Program NodeId} {vs : List Visit}

theorem Homely.of_definition {file : Option String} {m : Mark NodeId} {signature : Signature}
    {body : Code} (h : Homely p vs file (.definition m signature body)) :
    ∀ n ∈ body, Homely p vs file n := by
  intro n hn
  have inside : ∀ f, (f, n) ∈ (Node.definition m signature body).filed f := by
    intro f
    rw [Node.filed]
    exact List.mem_cons_of_mem _ (Node.mem_filedAll_self hn)
  rcases h with hwrites | ⟨w, hw, hstrays, f, hf⟩
  · exact .inl (Node.filedAll_trans p.nodes hwrites (inside file))
  · exact .inr ⟨w, hw, hstrays, f, Node.filed_trans w.node hf (inside f)⟩

theorem Homely.of_program {file : Option String} {m : Mark NodeId} {info : ProgramInfo}
    {nodes : Code} (h : Homely p vs file (.program m info nodes)) :
    ∀ n ∈ nodes, Homely p vs (info.file.or file) n := by
  intro n hn
  have inside : ∀ f, (info.file.or f, n) ∈ (Node.program m info nodes).filed f := by
    intro f
    rw [Node.filed]
    exact List.mem_cons_of_mem _ (Node.mem_filedAll_self hn)
  rcases h with hwrites | ⟨w, hw, hstrays, f, hf⟩
  · exact .inl (Node.filedAll_trans p.nodes hwrites (inside file))
  · exact .inr ⟨w, hw, hstrays, info.file.or f, Node.filed_trans w.node hf (inside f)⟩

/-- A function whose body belongs to the file of the function. -/
def Settled (p : Program NodeId) (vs : List Visit) : Function → Prop
  | .defined d => d.file.isSome ∧ ∀ n ∈ d.body, Homely p vs d.file n
  | _ => True

/-- Code that is run in a file: that of a sequence, or code that belongs to the file. -/
structure Placed (p : Program NodeId) (vs : List Visit) (ways : List Way) (code : Code)
    (s : Interpreter) : Prop where
  holds : (Discipline.written p).Holds s
  allowed : (Discipline.written p).AllowsCode code
  file : s.file.isSome
  home : (∃ way rest, ways = way :: rest ∧ way.runsSequence = true) ∨
    ∀ n ∈ code, Homely p vs s.file n

/-- What is known of a visit in the end. -/
def Visit.Settled (p : Program NodeId) (vs : List Visit) (v : Visit) : Prop :=
  v.state.file.isSome ∧ (Homely p vs v.state.file v.node ∨ v.node.Pushes)

theorem alike_imports_written (p : Program NodeId) (m : Mark NodeId) (request : Import)
    (_ : (Discipline.written p).node (.importing m request)) :
    (Discipline.written p).Alike (importNames request) (importNames request) fun _ => True :=
  Discipline.alike_importNames trivial fun _ => trivial

variable {ways : List Way} {n : Node NodeId} {rest : Code} {s t : Interpreter} {fuel : Nat}

theorem Placed.settled (h : Placed p vs ways (n :: rest) s) (hmem : ⟨n, s, ways, fuel⟩ ∈ vs) :
    Visit.Settled p vs ⟨n, s, ways, fuel⟩ := by
  refine ⟨h.file, ?_⟩
  rcases h.home with hsequence | hhome
  · rcases h.allowed.1.self with hwritten | hpushes
    · by_cases hwrites : p.Writes s.file n
      · exact .inl (.inl hwrites)
      · exact .inl (.inr ⟨_, hmem, ⟨hsequence, hwritten, hwrites⟩, s.file, Node.mem_filed_self _ n⟩)
    · exact .inr hpushes
  · exact .inl (hhome n List.mem_cons_self)

theorem Placed.next (h : Placed p vs ways (n :: rest) s)
    (hstep : (step fuel (exec fuel) n).run s = .done () t) : Placed p vs ways rest t := by
  have hends := (alike_step (alike_imports_written p) fuel h.allowed.1 s h.holds).2
  rw [hstep] at hends
  have hfile : t.file = s.file := hends.2.1.file
  refine ⟨hends.1, h.allowed.2, hfile ▸ h.file, ?_⟩
  rcases h.home with hsequence | hhome
  · exact .inl hsequence
  · rw [hfile]
    exact .inr fun n hn => hhome n (List.mem_cons_of_mem _ hn)

theorem Settled.effect (h : Every (Settled p vs) s.stock)
    (hv : Visit.Settled p vs ⟨n, s, ways, fuel⟩) :
    Every (Settled p vs) (Visit.effect ⟨n, s, ways, fuel⟩) := by
  refine Every.effect h (fun m signature body hnode => ?_) (fun _ _ _ _ _ _ _ => trivial)
    fun _ _ _ _ => trivial
  dsimp only at hnode
  subst hnode
  exact ⟨hv.1, (hv.2.resolve_right id).of_definition⟩

theorem Placed.start (h : Placed p vs ways (n :: rest) s) (hstock : Every (Settled p vs) s.stock)
    (hv : Visit.Settled p vs ⟨n, s, ways, fuel⟩) {start : Start}
    (hstart : start ∈ starts fuel (exec fuel) s n) :
    Placed p vs (start.way :: ways) start.code start.state := by
  obtain ⟨hholds, hallowed, hleads⟩ := leads_of_mem_starts
    (fun _ => alike_exec (alike_imports_written p) fuel) h.holds h.allowed.1 hstart
  have hfile := h.file
  cases hleads with
  | branch hstill => exact ⟨hholds, hallowed, by rw [hstill.file]; exact hfile, .inl ⟨_, _, rfl, rfl⟩⟩
  | sequence _ hframe =>
    exact ⟨hholds, hallowed, by rw [hframe.file]; exact hfile, .inl ⟨_, _, rfl, rfl⟩⟩
  | @body _ d hcalls =>
    obtain ⟨m, qualifier, name, -, hcallee⟩ := hcalls
    obtain ⟨space, hbound⟩ := function?_of_lookUp (lookUp_of_callee? hcallee).1
    obtain ⟨hsome, hbody⟩ : Settled p vs (.defined d) := hstock.bound space _ _ hbound
    have hentered : (enter (.defined d) s).file = d.file := by
      show d.file.or s.file = d.file
      rw [Option.or_of_isSome hsome]
    exact ⟨hholds, hallowed, by rw [hentered]; exact hsome, .inr (by rw [hentered]; exact hbody)⟩
  | @module m info nodes =>
    have hnodes : ∀ n ∈ nodes, Homely p vs (info.file.or s.file) n :=
      (hv.2.resolve_right id).of_program
    refine ⟨hholds, hallowed, ?_, .inr (by rw [file_opened]; exact hnodes)⟩
    rw [file_opened, Option.isSome_or, hfile, Bool.or_true]

end Homely

/-- Wherever a run comes to, the node belongs to the file in which it is visited, or has gone astray. -/
theorem settled_visits {p : Program NodeId} {fuel : Nat} {ways : List Way} {code : Code}
    {s : Interpreter} (h : Placed p (visits fuel ways code s) ways code s)
    (hstock : Every (Settled p (visits fuel ways code s)) s.stock) :
    ∀ v ∈ visits fuel ways code s, v.Settled p (visits fuel ways code s) := by
  refine (run_invariant (K := (· ∈ visits fuel ways code s)) (I := Placed p (visits fuel ways code s))
    (J := Every (Settled p (visits fuel ways code s))) ?publish ?visit ?next ?start
    (fun _ hv => hv) h hstock).1
  case publish => exact fun v _ _ key origin _ h => h.publish key v.state.spaces.fresh.1 origin
  case visit =>
    intro ways n rest s fuel hmem h hs
    exact ⟨h.settled hmem, Settled.effect hs (h.settled hmem)⟩
  case next => exact fun ways n rest s fuel t h hstep => h.next hstep
  case start => exact fun ways n rest s fuel hv h hs start hstart => h.start hs hv hstart

theorem file_begun {scopes : ScopeTable} {p : Program NodeId} {s : Interpreter}
    (h : p.info.file.isSome) : (begun scopes p s).file = p.info.file :=
  (file_opened p.info _).trans (Option.or_of_isSome h)

/-- **A failure is placed where the node was visited that raised it**, and the node belongs to that
file or has gone astray. -/
theorem interpret_failed {p : Program NodeId} {fuel : Nat} {scopes : ScopeTable} {s t : Interpreter}
    {d : Diagnostic} (hfile : p.info.file.isSome) (hs : Fresh s)
    (hfailed : (interpret fuel scopes p).run s = .stopped (.failed d) t) :
    ∃ v ∈ visited fuel scopes p s, v.Raises d.cause ∧
      (∃ token ∈ tokens v.node, d.position = some token.position) ∧ d.file = v.state.file ∧
      Homely p (visited fuel scopes p s) v.state.file v.node := by
  have hexec : ∃ u, (exec fuel p.nodes).run (begun scopes p s) = .stopped (.failed d) u := by
    rw [run_interpret] at hfailed
    split at hfailed
    · cases hfailed
    · next u hu =>
      cases hfailed
      exact ⟨u, hu⟩
  obtain ⟨u, hu⟩ := hexec
  have hplaced : Placed p (visited fuel scopes p s) [.module p.info] p.nodes (begun scopes p s) := by
    refine ⟨holds_begun (hs.holds _) scopes p, Discipline.allowsCode_written p, ?_, .inr ?_⟩
    · rw [file_begun hfile]
      exact hfile
    · rw [file_begun hfile]
      exact fun n hn => .inl (Node.mem_filedAll_self hn)
  have hsettled := settled_visits hplaced (every_begun (hs.every _) scopes p)
  obtain ⟨v, hv, hraises, hposition, hplace⟩ := exists_raises hu
  obtain ⟨hsome, hhome⟩ := hsettled v hv
  obtain ⟨name, hname⟩ := Option.isSome_iff_exists.1 hsome
  refine ⟨v, hv, hraises, hposition, (hplace name hname).trans hname.symm, ?_⟩
  exact hhome.resolve_right fun hpushes => not_raises_of_pushes hpushes _ hraises

end Evaluation

/-! ## Linked programs -/

namespace Linking

/-- A node was read from a file that is shown as `file`. -/
def Parsed (fs : FileSystem) (file : Option String) (n : Node NodeId) : Prop :=
  ∃ path source program k, file = some path.fileName ∧ fs.read path = .ok source ∧
    program? source = some program ∧ (file, n) ∈ Node.filedAll file (Node.numberAll k program.nodes).1

variable {fs : FileSystem} {library : String} {top : SourceUnit}

theorem parsed_of_mem {path : Path} {source : String} {program : Program Unit} {k : NodeId}
    (hread : fs.read path = .ok source) (hprogram : program? source = some program)
    {x : Option String × Node NodeId}
    (hx : x ∈ Node.filedAll (some path.fileName) (Node.numberAll k program.nodes).1) :
    Parsed fs x.1 x.2 := by
  have hnodes := Node.allIn_read_numberAll k program.nodes
    (Tree.allIn_read_of_ofSource (program?_eq_some_iff.1 hprogram).1)
  obtain ⟨file, n⟩ := x
  obtain ⟨rfl, -⟩ := Node.filedAll_of_read _ hnodes hx
  exact ⟨path, source, program, k, rfl, hread, hprogram, hx⟩

/-- What code carries besides the nodes of the importer was read from other files. -/
theorem Carries.parsed {root : String} {i : Importer} {nodes code : Code}
    (h : Carries fs library top root i nodes code) {file : Option String}
    {x : Option String × Node NodeId} (hx : x ∈ Node.filedAll file code)
    (hmodule : x.2.isModule = false) : x ∈ Node.filedAll file nodes ∨ Parsed fs x.1 x.2 := by
  induction h generalizing file with
  | nil => exact .inl hx
  | own _ ih =>
    rw [Node.filedAll, List.mem_append] at hx ⊢
    rcases hx with hx | hx
    · exact .inl (.inl hx)
    · exact (ih hx).imp_left .inr
  | @module i j m m' request nodes code body source p n _ _ hread hprogram _ _ ihfile ihrest =>
    rw [Node.filedAll, Node.filedAll, List.mem_append, List.mem_append] at hx
    rcases hx with hx | hx | hx
    · rw [Node.filed, List.mem_cons] at hx
      rcases hx with rfl | hx
      · cases hmodule
      · rcases ihfile hx with hx | hparsed
        · exact .inr (parsed_of_mem hread hprogram hx)
        · exact .inr hparsed
    · rw [Node.filedAll, List.mem_append]
      exact .inl (.inl hx)
    · rw [Node.filedAll, List.mem_append]
      exact (ihrest hx).imp_left .inr

/-- Everything in a linked program but its modules was read from the file that it is filed under. -/
theorem parsed_of_writes {entry : Path} {log : FileLog} {nextId : NodeId} {p : Program NodeId}
    {l : Linker} (hlink : (linkEntry fs library entry).run (Start.linker (.file entry) log nextId) =
      .done p l) {file : Option String} {n : Node NodeId} (hn : p.Writes file n)
    (hmodule : n.isModule = false) : Parsed fs file n := by
  obtain ⟨source, program, k, hread, hprogram, hcarries⟩ :=
    (meets_link_carries (.file entry) log nextId).of_done hlink
  obtain ⟨hinfo, -⟩ :=
    (meets_linkEntry_linked (.ofFile entry .user) entry closed_nil).of_done hlink
  unfold Program.Writes at hn
  rw [hinfo] at hn
  rcases hcarries.parsed hn hmodule with hmem | hparsed
  · exact parsed_of_mem hread hprogram hmem
  · exact hparsed

end Linking

namespace Evaluation

open Linking

variable {fs : FileSystem} {library : String}

/-- **The file of a diagnostic.** In a run of linked files a failure was raised by a node that was
visited, and has the position of a token of that node and the file in which the node was visited.
That is the file that the node was read from, unless it stands in something that was visited in a
sequence away from home. -/
theorem failure_attributed {entry : Path} {log : FileLog} {nextId : NodeId} {p : Program NodeId}
    {l : Linker} {fuel : Nat} {s t : Interpreter} {d : Diagnostic}
    (hlink : (linkEntry fs library entry).run (Start.linker (.file entry) log nextId) = .done p l)
    (hs : Fresh s) (hfailed : (interpret fuel l.scopes p).run s = .stopped (.failed d) t) :
    ∃ v ∈ visited fuel l.scopes p s, v.Raises d.cause ∧
      (∃ token ∈ tokens v.node, d.position = some token.position) ∧ d.file = v.state.file ∧
      (p.Writes d.file v.node ∧ Parsed fs d.file v.node ∨
        Astray p (visited fuel l.scopes p s) v.node) := by
  obtain ⟨hinfo, -⟩ :=
    (meets_linkEntry_linked (.ofFile entry .user) entry closed_nil).of_done hlink
  obtain ⟨v, hv, hraises, hposition, hfile, hhome⟩ :=
    interpret_failed (by rw [hinfo]; rfl) hs hfailed
  refine ⟨v, hv, hraises, hposition, hfile, ?_⟩
  rw [hfile]
  refine hhome.imp_left fun hwrites => ⟨hwrites, parsed_of_writes hlink hwrites ?_⟩
  cases hmodule : v.node.isModule with
  | false => rfl
  | true => exact absurd hraises (not_raises_of_isModule hmodule _)

/-- A file with a function that fails and one that runs what it is given, a file that calls the one,
and a file that gives the other something to fail on. -/
def lender : FileSystem where
  workingDirectory := []
  entries :=
    [(["m.twl"],
        .file "import * from <sequences>\npublic def fall { nope }\npublic def go { exec }".toUTF8.toList),
      (["call.twl"], .file "import * from \"m.twl\"\nfall".toUTF8.toList),
      (["lend.twl"], .file "import * from \"m.twl\"\n\n\n{ nope } go".toUTF8.toList)]

/-- The linked program of a file, with what is left of the linker and what its run fails with. -/
def failure? (fs : FileSystem) (library : String) (entry : Path) (fuel : Nat) :
    Option (Program NodeId × Linker × Diagnostic) :=
  match (linkEntry fs library entry).run (Start.linker (.file entry) {} 1) with
  | .done p l =>
    match (interpret fuel l.scopes p).run (.withNatives {}) with
    | .stopped (.failed d) _ => some (p, l, d)
    | _ => none
  | .stopped _ _ => none

theorem failure?_eq_some {entry : Path} {fuel : Nat} {p : Program NodeId} {l : Linker} {d : Diagnostic}
    (h : failure? fs library entry fuel = some (p, l, d)) :
    (linkEntry fs library entry).run (Start.linker (.file entry) {} 1) = .done p l ∧
      ∃ t, (interpret fuel l.scopes p).run (.withNatives {}) = .stopped (.failed d) t := by
  unfold failure? at h
  split at h
  · next hlink =>
    split at h
    · next t hfailed =>
      cases h
      exact ⟨hlink, t, hfailed⟩
    · cases h
  · cases h

/-- The failure of a function of another file is filed under that file. -/
theorem failure_attributed_call : ∃ p l d t,
    (linkEntry lender "std" ["call.twl"]).run (Start.linker (.file ["call.twl"]) {} 1) = .done p l ∧
      (interpret 10 l.scopes p).run (.withNatives {}) = .stopped (.failed d) t ∧
      d.file = some "m.twl" ∧ ∃ v ∈ visited 10 l.scopes p (.withNatives {}), v.Raises d.cause ∧
        (∃ token ∈ tokens v.node, d.position = some token.position) ∧
        p.Writes (some "m.twl") v.node ∧ Parsed lender (some "m.twl") v.node := by
  have hcheck : ((failure? lender "std" ["call.twl"] 10).any fun (p, l, d) =>
      d.file == some "m.twl" && (visited 10 l.scopes p (.withNatives {})).all fun v =>
        v.ways.head?.all (!·.runsSequence)) = true := by decide +kernel
  cases hfailure : failure? lender "std" ["call.twl"] 10 with
  | none => rw [hfailure] at hcheck; cases hcheck
  | some x =>
    obtain ⟨p, l, d⟩ := x
    rw [hfailure, Option.any_some, Bool.and_eq_true, beq_iff_eq, List.all_eq_true] at hcheck
    obtain ⟨hfile, hways⟩ := hcheck
    obtain ⟨hlink, t, hfailed⟩ := failure?_eq_some hfailure
    obtain ⟨v, hv, hraises, hposition, -, hhome | ⟨w, hw, ⟨⟨way, rest, hrest, hsequence⟩, -⟩, -⟩⟩ :=
      failure_attributed hlink (Fresh.withNatives {}) hfailed
    · rw [hfile] at hhome
      exact ⟨p, l, d, t, hlink, hfailed, hfile, v, hv, hraises, hposition, hhome⟩
    · have hplain := hways w hw
      rw [hrest, List.head?_cons, Option.all_some, hsequence] at hplain
      cases hplain

/-- **A failure inside a sequence can be filed under a file that has nothing at its position**: the
sequence was given to a function of that file. -/
theorem failure_misattributed : ∃ p l d t,
    (linkEntry lender "std" ["lend.twl"]).run (Start.linker (.file ["lend.twl"]) {} 1) = .done p l ∧
      (interpret 10 l.scopes p).run (.withNatives {}) = .stopped (.failed d) t ∧
      d.file = some "m.twl" ∧ d.position = some ⟨4, 3⟩ ∧
      ∀ n, p.Writes (some "m.twl") n → ∀ token ∈ tokens n, d.position ≠ some token.position := by
  have hcheck : ((failure? lender "std" ["lend.twl"] 10).any fun (p, _, d) =>
      d.file == some "m.twl" && d.position == some ⟨4, 3⟩ &&
        (Node.filedAll p.info.file p.nodes).all fun x => x.1 != some "m.twl" ||
          (tokens x.2).all fun token => token.position != ⟨4, 3⟩) = true := by decide +kernel
  cases hfailure : failure? lender "std" ["lend.twl"] 10 with
  | none => rw [hfailure] at hcheck; cases hcheck
  | some x =>
    obtain ⟨p, l, d⟩ := x
    rw [hfailure, Option.any_some, Bool.and_eq_true, Bool.and_eq_true, beq_iff_eq, beq_iff_eq,
      List.all_eq_true] at hcheck
    obtain ⟨⟨hfile, hposition⟩, hall⟩ := hcheck
    obtain ⟨hlink, t, hfailed⟩ := failure?_eq_some hfailure
    refine ⟨p, l, d, t, hlink, hfailed, hfile, hposition, fun n hn token htoken heq => ?_⟩
    have hnot := hall _ hn
    rw [bne_self_eq_false, Bool.false_or, List.all_eq_true] at hnot
    rw [hposition] at heq
    have hne := hnot token htoken
    rw [← Option.some.inj heq] at hne
    exact absurd hne (by decide)

end Evaluation

end Catena

import Catena.Linking
import Catena.Proofs.Scope

/-!
# The steps of linking

One rule for each step that linking is made of, in the form "from this linker, the step ends as `Q`
and `E` say" (`Meets`): `Q` of the result and the linker after it, `E` of the reason to stop and the
linker that is left. A rule for a step that goes on with something else takes what must hold in each
case as a hypothesis, so that the proofs about whole runs are case analyses over the imports of a
file and never look inside a step.

What a text asks for is read off the program that it spells (`program?`, `requests`), and the file
that a request leads to is its `target?`; both are independent of the state of linking.
-/

namespace Catena

/-- A reason to stop that lies in the texts and not in a run. -/
def RunError.IsStatic : RunError → Prop
  | .diagnostic d => ∀ error, d.cause ≠ .runtime error
  | .reported _ _ => True
  | .io _ => False
  | .exhausted => False

/-- A reason to stop that reports a circle. -/
def RunError.IsCircular (e : RunError) : Prop :=
  ∃ d target importer, e = .diagnostic d ∧ d.cause = .module (.circular target importer)

/-- A reason to stop that does not come from running a program. -/
def RunError.NotRun (e : RunError) : Prop :=
  ∀ d error, e = .diagnostic d → d.cause ≠ .runtime error

theorem RunError.IsStatic.notRun {e : RunError} (h : e.IsStatic) : e.NotRun := by
  rintro d error rfl
  exact h error

theorem RunError.IsCircular.notRun {e : RunError} (h : e.IsCircular) : e.NotRun := by
  obtain ⟨d, target, importer, rfl, hcause⟩ := h
  rintro d' error heq
  cases heq
  rw [hcause]
  nofun

/-- The unit's part of what is known of its program. -/
def SourceUnit.info (unit : SourceUnit) : ProgramInfo :=
  { name := unit.name, origin := unit.origin, file := some unit.display }

namespace Linking

/-! ## What a text asks for -/

/-- The program that a text spells, if its scopes are in order. -/
def program? (source : String) : Option (Program Unit) :=
  match Tree.ofSource "" source with
  | .ok p => if (Scope.analyse (p.number 0).1).failed then none else some p
  | .error _ => none

theorem program?_eq_some_iff {source : String} {p : Program Unit} :
    program? source = some p ↔
      Tree.ofSource "" source = .ok p ∧ (Scope.analyse (p.number 0).1).failed = false := by
  unfold program?
  cases Tree.ofSource "" source with
  | error errors => simp
  | ok q =>
    cases hfailed : (Scope.analyse (q.number 0).1).failed with
    | true =>
      simp only [hfailed, if_true, reduceCtorEq, false_iff, not_and]
      rintro ⟨⟩
      simp [hfailed]
    | false =>
      simp only [hfailed, Bool.false_eq_true, if_false, Option.some.injEq, Except.ok.injEq]
      exact ⟨fun h => ⟨h, h ▸ hfailed⟩, fun h => h.1⟩

/-- The imports of a text come first, and there are no others. -/
theorem importsFirst_of_program? {source : String} {p : Program Unit}
    (h : program? source = some p) (k : NodeId) :
    Scope.ImportsFirst (Node.numberAll k p.nodes).1 := by
  obtain ⟨hsource, hpassed⟩ := program?_eq_some_iff.1 h
  have hread := Node.allIn_read_numberAll k p.nodes (Tree.allIn_read_of_ofSource hsource)
  rw [Scope.failed_number p 0 k] at hpassed
  exact Scope.importsFirst_of_not_failed hread hpassed

theorem proper_of_program? {source : String} {p : Program Unit} (h : program? source = some p)
    {request : Import} (hrequest : request ∈ p.imports) : request.Proper := by
  have hread := Tree.allIn_read_of_ofSource (program?_eq_some_iff.1 h).1
  obtain ⟨n, hn, himport⟩ := List.mem_filterMap.1 hrequest
  obtain ⟨m, rfl⟩ := Node.import?_eq_some_iff.1 himport
  exact Node.AllIn.of_mem hread hn

/-- A file that can be read and holds a program in order. -/
def Intact (fs : FileSystem) (p : Path) : Prop :=
  ∃ source, fs.read p = .ok source ∧ (program? source).isSome

/-- The imports of a text. -/
def requestsOf (source : String) : List Import :=
  ((program? source).map Program.imports).getD []

/-- The imports of a file; none if the file is not intact. -/
def requests (fs : FileSystem) (p : Path) : List Import :=
  match fs.read p with
  | .ok source => requestsOf source
  | .error _ => []

theorem requests_eq {fs : FileSystem} {p : Path} {source : String} {program : Program Unit}
    (hread : fs.read p = .ok source) (hprogram : program? source = some program) :
    requests fs p = program.imports := by
  unfold requests requestsOf
  rw [hread]
  dsimp only
  rw [hprogram]
  rfl

/-- The file that an import of a unit leads to, and whom it is read for. -/
def target? (fs : FileSystem) (library : String) (unit : SourceUnit) (request : Import) :
    Option (Path × Origin) :=
  match wanted? fs library unit request with
  | none => none
  | some ((written, base), origin) =>
    match fs.canonical base written with
    | .ok path => some (path, origin)
    | .error _ => none

theorem target?_eq_some_iff {fs : FileSystem} {library : String} {unit : SourceUnit}
    {request : Import} {path : Path} {origin : Origin} :
    target? fs library unit request = some (path, origin) ↔
      ∃ written base, wanted? fs library unit request = some ((written, base), origin) ∧
        fs.canonical base written = .ok path := by
  unfold target?
  constructor
  · intro h
    split at h
    · cases h
    · next written base origin' hwanted =>
      split at h
      · next path' hpath =>
        cases h
        exact ⟨written, base, hwanted, hpath⟩
      · cases h
  · rintro ⟨written, base, hwanted, hpath⟩
    rw [hwanted]
    dsimp only
    rw [hpath]

/-- Where the file of a library module would be, as written. -/
def libraryPlace (library name : String) : String :=
  joinPath library (name ++ sourceExtension)

/-- An import of a unit leads to a file: by its path, seen from the directory of the unit, or as a
library module that there is a file for. A library module's import of its own namespace leads to no
file. -/
inductive LeadsTo (fs : FileSystem) (library : String) (unit : SourceUnit) (request : Import) :
    Path × Origin → Prop
  | byPath {path : Path} (external : request.isExternal)
    (found : fs.canonical unit.directory request.source = .ok path) :
    LeadsTo fs library unit request (path, .user)
  | asModule {path : Path} (bare : ¬request.isExternal)
    (other : ¬(unit.origin = .internal ∧ unit.name = request.source))
    (there : fs.isFile fs.workingDirectory (libraryPlace library request.source))
    (found : fs.canonical fs.workingDirectory (libraryPlace library request.source) = .ok path) :
    LeadsTo fs library unit request (path, .internal)

theorem wanted?_external {fs : FileSystem} {library : String} {unit : SourceUnit}
    {request : Import} (h : request.isExternal) : wanted? fs library unit request =
      some ((request.source, unit.directory), .user) := by
  simp [wanted?, location, h]

theorem wanted?_internal {fs : FileSystem} {library : String} {unit : SourceUnit}
    {request : Import} (h : ¬request.isExternal) : wanted? fs library unit request =
      if fs.isFile fs.workingDirectory (libraryPlace library request.source) ∧
        ¬(unit.origin = .internal ∧ unit.name = request.source)
      then some ((libraryPlace library request.source, fs.workingDirectory), .internal)
      else none := by
  have place : joinPath library (request.source ++ sourceExtension) =
      libraryPlace library request.source := rfl
  unfold wanted? location
  simp only [h, Bool.false_eq_true, if_false, place]
  by_cases hfile : fs.isFile fs.workingDirectory (libraryPlace library request.source)
  · by_cases hown : unit.origin = .internal ∧ unit.name = request.source
    · simp [hfile, hown]
    · simp [hfile, hown]
  · simp [hfile]

/-- The target of an import is where it leads to. -/
theorem target?_eq_some_iff_leadsTo {fs : FileSystem} {library : String} {unit : SourceUnit}
    {request : Import} {j : Path × Origin} :
    target? fs library unit request = some j ↔ LeadsTo fs library unit request j := by
  obtain ⟨path, origin⟩ := j
  rw [target?_eq_some_iff]
  by_cases hext : request.isExternal
  · rw [wanted?_external hext]
    constructor
    · rintro ⟨written, base, hwanted, hpath⟩
      cases hwanted
      exact .byPath hext hpath
    · intro h
      cases h with
      | byPath _ found => exact ⟨_, _, rfl, found⟩
      | asModule bare => exact absurd hext bare
  · rw [wanted?_internal hext]
    constructor
    · rintro ⟨written, base, hwanted, hpath⟩
      split at hwanted
      · next h =>
        cases hwanted
        exact .asModule hext h.2 h.1 hpath
      · cases hwanted
    · intro h
      cases h with
      | byPath external => exact absurd external hext
      | asModule _ other there found => exact ⟨_, _, if_pos ⟨there, other⟩, found⟩

theorem LeadsTo.unique {fs : FileSystem} {library : String} {unit : SourceUnit} {request : Import}
    {j j' : Path × Origin}
    (hj : LeadsTo fs library unit request j) (hj' : LeadsTo fs library unit request j') :
    j = j' := by
  rw [← target?_eq_some_iff_leadsTo] at hj hj'
  exact Option.some.inj (hj.symm.trans hj')

/-! ## Steps one after the other -/

/-- Two linkers that know of the same imports and the same files. -/
structure Untouched (l l' : Linker) : Prop where
  graph : l'.graph = l.graph
  loaded : l'.loaded = l.loaded

section Rules

variable {α β : Type} {l : Linker} {Q : α → Linker → Prop} {E : RunError → Linker → Prop}

/-- From `l`, the step ends as `Q` and `E` say. -/
def Meets (m : Linking α) (l : Linker) (Q : α → Linker → Prop) (E : RunError → Linker → Prop) :
    Prop :=
  match m.run l with
  | .done a l' => Q a l'
  | .stopped e l' => E e l'

theorem Meets.of_done {m : Linking α} (h : Meets m l Q E) {a : α} {l' : Linker}
    (hrun : m.run l = .done a l') : Q a l' := by
  unfold Meets at h
  rw [hrun] at h
  exact h

theorem Meets.of_stopped {m : Linking α} (h : Meets m l Q E) {e : RunError} {l' : Linker}
    (hrun : m.run l = .stopped e l') : E e l' := by
  unfold Meets at h
  rw [hrun] at h
  exact h

/-- A step that cannot stop and can end in one way only does so. -/
theorem Meets.run_eq {m : Linking α} {a : α} {l₁ : Linker}
    (h : Meets m l (fun b l' => b = a ∧ l' = l₁) fun _ _ => False) : m.run l = .done a l₁ := by
  cases hrun : m.run l with
  | stopped e l' => exact (h.of_stopped hrun).elim
  | done b l' =>
    obtain ⟨rfl, rfl⟩ := h.of_done hrun
    rfl

theorem Meets.bind {m : Linking α} {f : α → Linking β} {R : β → Linker → Prop}
    (hm : Meets m l (fun a l' => Meets (f a) l' R E) E) : Meets (m >>= f) l R E := by
  unfold Meets at hm ⊢
  rw [Action.run_bind]
  cases h : m.run l with
  | done a l' => rw [h] at hm; exact hm
  | stopped e l' => rw [h] at hm; exact hm

theorem Meets.mono {Q' : α → Linker → Prop} {E' : RunError → Linker → Prop} {m : Linking α}
    (h : Meets m l Q E) (hQ : ∀ a l', Q a l' → Q' a l') (hE : ∀ e l', E e l' → E' e l') :
    Meets m l Q' E' := by
  unfold Meets at h ⊢
  cases hrun : m.run l with
  | done a l' => rw [hrun] at h; exact hQ a l' h
  | stopped e l' => rw [hrun] at h; exact hE e l' h

theorem Meets.change {f : Linker → Linker} {R : Unit → Linker → Prop} (h : R () (f l)) :
    Meets (Action.change f) l R E :=
  h

theorem Meets.abort {stage : Stage} {errors : List Diagnostic}
    (h : ∀ l', Untouched l l' → E (.reported stage errors.length) l') :
    Meets (Linking.abort stage errors : Linking α) l Q E :=
  h _ ⟨rfl, rfl⟩

theorem Meets.fail {d : Diagnostic} (h : ∀ l', Untouched l l' → E (.diagnostic d) l') :
    Meets (Linking.fail d : Linking α) l Q E :=
  h _ ⟨rfl, rfl⟩

end Rules

/-! ## Reading a text -/

section Unit

variable {l : Linker} {E : RunError → Linker → Prop} {unit : SourceUnit} {source : String}

/-- **Parsing gives the tree of the text** with the unit's own description, numbered from the next free
number on. Of a text that has none, all lexical errors are reported, or the one that the parser found,
after it has made some nodes. -/
theorem meets_parse {Q : Program NodeId → Linker → Prop}
    (ok : ∀ p, Tree.ofSource "" source = .ok p →
      Q { info := unit.info, nodes := (Node.numberAll l.nextId p.nodes).1 }
        { l with nextId := (Node.numberAll l.nextId p.nodes).2 })
    (scanning : ∀ errors, Source.scan source = .error errors →
      Tree.ofSource "" source = .error errors → Meets (abort .lexer errors) l Q E)
    (reading : ∀ error position made,
      Tree.ofSource "" source = .error [.located (.parse error) position] →
      Meets (fail { Diagnostic.located (.parse error) position with file := some unit.display })
        { l with nextId := l.nextId + made } Q E) :
    Meets (parse unit source) l Q E := by
  unfold parse
  unfold Tree.ofSource at ok scanning reading
  cases hscan : Source.scan source with
  | error errors =>
    rw [hscan] at scanning
    exact scanning errors rfl rfl
  | ok scanned =>
    rw [hscan] at ok reading
    unfold Tree.ofScanned at ok reading ⊢
    dsimp only at ok reading ⊢
    cases hread : Tree.readNodes scanned.finish [] [] scanned.tokens with
    | error refusal =>
      rw [hread] at reading
      exact reading refusal.error refusal.position _ rfl
    | ok nodes =>
      rw [hread] at ok
      exact ok { info := { name := "" }, nodes } rfl

/-- Checking scopes goes on exactly if nothing is refused. -/
theorem meets_checkScopes {p : Program NodeId} {Q : Unit → Linker → Prop}
    (ok : (Scope.analyse p).failed = false → ∀ l', Untouched l l' → Q () l')
    (refused : (Scope.analyse p).failed = true →
      ∀ e l', RunError.IsStatic e → Untouched l l' → E e l') :
    Meets (checkScopes p) l Q E := by
  refine Meets.bind (Meets.change ?_)
  split
  · next hfailed =>
    exact Meets.abort fun l' h => refused hfailed _ l' trivial ⟨h.graph, h.loaded⟩
  · next hpassed => exact ok (Bool.not_eq_true _ ▸ hpassed) _ ⟨rfl, rfl⟩

/-- Linking a text is splicing the nodes of its program, if it spells one. -/
theorem meets_linkText {fs : FileSystem} {library : String}
    {load : Path → Origin → Linking (Program NodeId)} {Q : Program NodeId → Linker → Prop}
    (ok : ∀ p n l₁, program? source = some p → Untouched l l₁ →
      Meets (splice (resolve fs library load unit) (Node.numberAll n p.nodes).1) l₁
        (fun nodes l' => ∀ l'', Untouched l' l'' → Q { info := unit.info, nodes } l'') E)
    (refused : program? source = none →
      ∀ e l', RunError.IsStatic e → Untouched l l' → E e l') :
    Meets (linkText fs library load unit source) l Q E := by
  unfold program? at ok refused
  refine Meets.bind (Meets.change ?_)
  refine Meets.bind (meets_parse ?_ ?_ ?_)
  · intro p hp
    rw [hp] at ok refused
    dsimp only at ok refused
    rw [Scope.failed_number p 0 l.nextId] at ok refused
    refine Meets.bind (meets_checkScopes ?_ ?_)
    · intro hchecked l₂ hl₂
      have accepted : (Scope.analyse (p.number l.nextId).1).failed = false := hchecked
      refine Meets.bind ((ok p l.nextId l₂ (by rw [accepted]; rfl) ⟨hl₂.graph, hl₂.loaded⟩).mono ?_
        fun _ _ h => h)
      intro nodes l' h
      exact h _ ⟨rfl, rfl⟩
    · intro hfailed e l' he hl'
      have rejected : (Scope.analyse (p.number l.nextId).1).failed = true := hfailed
      exact refused (by rw [rejected]; rfl) e l' he ⟨hl'.graph, hl'.loaded⟩
  · intro errors _ hp
    rw [hp] at refused
    exact Meets.abort fun l' hl' => refused rfl _ l' trivial ⟨hl'.graph, hl'.loaded⟩
  · intro error position made hp
    rw [hp] at refused
    exact Meets.fail fun l' hl' => refused rfl _ l' (fun _ => nofun) ⟨hl'.graph, hl'.loaded⟩

end Unit

/-! ## Following an import -/

/-- The linker after the import of a file has been recorded. -/
def connected (unit : SourceUnit) (path : Path) (l : Linker) : Linker :=
  { l with graph := l.graph.add unit.key path.text }

section Import

variable {l : Linker} {E : RunError → Linker → Prop} {unit : SourceUnit} {position : Position}
  {request : Import}

/-- Recording an import stops exactly if imports then go in a circle. -/
theorem meets_connect {path : Path} {Q : Unit → Linker → Prop}
    (ok : (connected unit path l).graph.isCircular = false → Q () (connected unit path l))
    (circle : (connected unit path l).graph.isCircular = true →
      ∀ e l', RunError.IsCircular e → Untouched (connected unit path l) l' → E e l') :
    Meets (connect unit position request path) l Q E := by
  refine Meets.bind (Meets.change ?_)
  refine Meets.bind (show Meets (if (connected unit path l).graph.isCircular then _ else _) _ Q E
    from ?_)
  split
  · next h => exact Meets.fail fun l' hl' => circle h _ l' ⟨_, _, _, rfl, rfl⟩ hl'
  · next h => exact ok (Bool.not_eq_true _ ▸ h)

/-- An import that asks for a file records it, and loads the file unless it is there. -/
theorem meets_resolve {fs : FileSystem} {library : String}
    {load : Path → Origin → Linking (Program NodeId)}
    {Q : Option (Program NodeId) → Linker → Prop}
    (alone : wanted? fs library unit request = none → Q none l)
    (missing : ∀ written base origin fault,
      wanted? fs library unit request = some ((written, base), origin) →
      fs.canonical base written = .error fault →
      ∀ e l', RunError.IsStatic e → Untouched l l' → E e l')
    (circle : ∀ path origin, target? fs library unit request = some (path, origin) →
      (connected unit path l).graph.isCircular = true →
      ∀ e l', RunError.IsCircular e → Untouched (connected unit path l) l' → E e l')
    (known : ∀ path origin, target? fs library unit request = some (path, origin) →
      (connected unit path l).graph.isCircular = false → path ∈ l.loaded →
      Q none (connected unit path l))
    (fresh : ∀ path origin, target? fs library unit request = some (path, origin) →
      (connected unit path l).graph.isCircular = false → path ∉ l.loaded →
      Meets (load path origin) (connected unit path l)
        (fun p l' => Q (some p) { l' with loaded := path :: l'.loaded }) E) :
    Meets (resolve fs library load unit position request) l Q E := by
  unfold resolve
  split
  · next h => exact alone h
  · next written base origin hwanted =>
    split
    · next fault hpath =>
      exact Meets.fail fun l' hl' =>
        missing written base origin fault hwanted hpath _ l' (fun _ => nofun) hl'
    · next path hpath =>
      have htarget := target?_eq_some_iff.2 ⟨written, base, hwanted, hpath⟩
      refine Meets.bind (meets_connect (fun hacyclic => ?_) (circle path origin htarget))
      refine Meets.bind (show Meets (if l.loaded.contains path then _ else _) _ Q E from ?_)
      split
      · next hknown =>
        exact known path origin htarget hacyclic (List.contains_iff_mem.1 hknown)
      · next hfresh =>
        exact Meets.bind (fresh path origin htarget hacyclic (mt List.contains_iff_mem.2 hfresh))

end Import

/-! ## Splicing -/

section Splice

variable {l : Linker} {E : RunError → Linker → Prop} {Q : Code → Linker → Prop}
  {follow : Position → Import → Linking (Option (Program NodeId))} {rest : Code}

/-- An import after the program that it needs, if it needs one. -/
def preceded (id : NodeId) (m : Mark NodeId) (request : Import) (others : Code) :
    Option (Program NodeId) → Code
  | some p => moduleNode id m.token p :: .importing m request :: others
  | none => .importing m request :: others

theorem meets_splice_importing {m : Mark NodeId} {request : Import}
    (h : Meets (follow m.token.position request) l
      (fun found l₁ => ∀ id l₂, Untouched l₁ l₂ →
        Meets (splice follow rest) l₂ (fun others => Q (preceded id m request others found)) E) E) :
    Meets (splice follow (.importing m request :: rest)) l Q E := by
  refine Meets.bind (h.mono ?_ fun _ _ he => he)
  intro found l₁ hfound
  cases found with
  | some p => exact Meets.bind (Meets.bind (hfound l₁.nextId _ ⟨rfl, rfl⟩))
  | none => exact Meets.bind (hfound 0 l₁ ⟨rfl, rfl⟩)

theorem meets_splice_node {node : Node NodeId} (hnode : node.import? = none)
    (h : Meets (splice follow rest) l (fun others => Q (node :: others)) E) :
    Meets (splice follow (node :: rest)) l Q E := by
  cases node with
  | importing m request => cases hnode
  | literal m value => exact Meets.bind h
  | arithmetic m op => exact Meets.bind h
  | comparison m op => exact Meets.bind h
  | condition m form => exact Meets.bind h
  | sequence m block body => exact Meets.bind h
  | definition m signature body => exact Meets.bind h
  | identifier m qualifier name => exact Meets.bind h
  | binding m name isPublic => exact Meets.bind h
  | array m items => exact Meets.bind h
  | program m info nodes => exact Meets.bind h

end Splice

end Linking

end Catena

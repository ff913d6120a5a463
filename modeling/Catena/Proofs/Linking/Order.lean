import Catena.Proofs.Linking.Circles
import Catena.Proofs.Linking.Plan

/-!
# Each module once, before what needs it

Linked code is evaluated from left to right, and a module that was put in is evaluated where it
stands. `stepsAll?` lists what happens in that order: the nodes that a text has of its own, and each
module when all of it has been evaluated. A module stands in front of the import that it was read
for, so its file is the one that this import leads to.

Two descriptions of a linked program meet here. Its plan (`Linked`) has the events that the steps
show (`Linked.events_eq`), and so every file comes once and before the imports that lead to it.
`Carries` says what splicing leaves alone: the nodes that were read from a file are still there, in
order, and modules have only been put between them.
-/

namespace Catena

/-- Whether a node is a module that was put in. -/
def Node.isModule {ι : Type} : Node ι → Bool
  | .program _ _ _ => true
  | _ => false

namespace Linking

/-- Code without the modules that were put in. -/
def ownNodes (code : Code) : Code :=
  code.filter (!·.isModule)

/-- Apart from the modules that were put in, code is what a text spells, with numbers. -/
def Spells (source : String) (code : Code) : Prop :=
  ∃ p n, Tree.ofSource "" source = .ok p ∧ ownNodes code = (Node.numberAll n p.nodes).1

/-- What happens when linked code is evaluated. -/
inductive Step
  /-- A node that the importer has of its own. -/
  | own (importer : Importer) (node : Node NodeId)
  /-- A module, when all of it has been evaluated. -/
  | module (file : Path × Origin) (nodes : Code)

/-- The file of a module that has been evaluated. -/
def Step.file? : Step → Option Path
  | .own _ _ => none
  | .module file _ => some file.1

/-- The files of the modules that have been evaluated, in order. -/
def files (steps : List Step) : List Path :=
  steps.filterMap Step.file?

mutual

/-- The steps of a node of the importer `i`, where `next` is the import that follows it. -/
def steps? (fs : FileSystem) (library : String) (top : SourceUnit) (i : Importer)
    (next : Option Import) : Node NodeId → Option (List Step)
  | .program _ _ nodes =>
    match next.bind (target? fs library (i.unit top)) with
    | some file => (stepsAll? fs library top (some file) nodes).map (· ++ [.module file nodes])
    | none => none
  | node => some [.own i node]

/-- The steps of code of the importer `i`; none if a module in it is not followed by an import that
leads to a file. -/
def stepsAll? (fs : FileSystem) (library : String) (top : SourceUnit) (i : Importer) :
    Code → Option (List Step)
  | [] => some []
  | node :: rest =>
    match steps? fs library top i (rest.head?.bind Node.import?) node,
      stepsAll? fs library top i rest with
    | some first, some others => some (first ++ others)
    | _, _ => none

end

/-- Every module is evaluated once, and before it is needed. -/
structure InOrder (fs : FileSystem) (library : String) (top : SourceUnit) (steps : List Step) :
    Prop where
  /-- No file is evaluated twice. -/
  once : (files steps).Nodup
  /-- The files that are evaluated are those that imports lead to. -/
  imported : ∀ path, path ∈ files steps ↔ ∃ i m request origin,
    .own i (.importing m request) ∈ steps ∧
      LeadsTo fs library (i.unit top) request (path, origin)
  /-- The file that an import leads to has been evaluated when the import is carried out. -/
  before : ∀ earlier i m request later, steps = earlier ++ .own i (.importing m request) :: later →
    ∀ j, LeadsTo fs library (i.unit top) request j → j.1 ∈ files earlier
  /-- A module is what its file spells, with modules of its own between the nodes. -/
  spelled : ∀ j nodes, .module j nodes ∈ steps →
    ∃ source, fs.read j.1 = .ok source ∧ Spells source nodes
  /-- A node that is no import has no imports and no modules inside it. -/
  plain : ∀ i node, .own i node ∈ steps → node.import? = none → node.All Node.Plain

variable {fs : FileSystem} {library : String} {top : SourceUnit}

/-! ## Steps of code -/

theorem steps?_own {i : Importer} {next : Option Import} {node : Node NodeId}
    (h : node.isModule = false) : steps? fs library top i next node = some [.own i node] := by
  cases node with
  | program m info nodes => cases h
  | _ => simp only [steps?]

theorem stepsAll?_own {i : Importer} {node : Node NodeId} {rest : Code}
    (h : node.isModule = false) : stepsAll? fs library top i (node :: rest) =
      (stepsAll? fs library top i rest).map (.own i node :: ·) := by
  rw [stepsAll?, steps?_own h]
  cases stepsAll? fs library top i rest <;> rfl

/-- A module and the import that it stands in front of. -/
theorem stepsAll?_module {i : Importer} {j : Path × Origin} {m m' : Mark NodeId} {info : ProgramInfo}
    {request : Import} {body rest : Code} {steps : List Step}
    (hleads : LeadsTo fs library (i.unit top) request j) :
    stepsAll? fs library top i (.program m' info body :: .importing m request :: rest) =
        some steps ↔
      ∃ inner others, stepsAll? fs library top (some j) body = some inner ∧
        stepsAll? fs library top i rest = some others ∧
        steps = inner ++ .module j body :: .own i (.importing m request) :: others := by
  have htarget := target?_eq_some_iff_leadsTo.2 hleads
  have hnext : (Node.importing m request :: rest).head?.bind Node.import? = some request := rfl
  rw [stepsAll?, hnext, steps?, stepsAll?_own rfl, Option.bind_some, htarget]
  dsimp only
  cases stepsAll? fs library top (some j) body <;> cases stepsAll? fs library top i rest <;>
    simp [eq_comm]

theorem stepsAll?_plain (i : Importer) {code : Code} (h : Node.AllIn Node.Plain code) :
    stepsAll? fs library top i code = some (code.map (.own i)) := by
  induction code with
  | nil => rw [stepsAll?, List.map_nil]
  | cons node rest ih =>
    have hnode : node.isModule = false := by
      cases node with
      | program m info nodes => exact h.1.1.elim
      | _ => rfl
    rw [stepsAll?_own hnode, ih h.2, Option.map_some, List.map_cons]

@[simp] theorem files_nil : files [] = [] := rfl

@[simp] theorem files_append (l k : List Step) : files (l ++ k) = files l ++ files k :=
  List.filterMap_append

@[simp] theorem files_own (i : Importer) (node : Node NodeId) (l : List Step) :
    files (.own i node :: l) = files l := rfl

@[simp] theorem files_module (j : Path × Origin) (nodes : Code) (l : List Step) :
    files (.module j nodes :: l) = j.1 :: files l := rfl

/-! ## What splicing leaves alone -/

/-- `Carries fs library top root i nodes code`: code has the nodes of the importer `i` in order, and
in front of some imports what was read from the files that they lead to, none of which is the file
that `root` names. -/
inductive Carries (fs : FileSystem) (library : String) (top : SourceUnit) (root : String) :
    Importer → Code → Code → Prop
  | nil {i} : Carries fs library top root i [] []
  | own {i node nodes code} (rest : Carries fs library top root i nodes code) :
    Carries fs library top root i (node :: nodes) (node :: code)
  | module {i : Importer} {j m m' request nodes code body source p n}
    (leads : LeadsTo fs library (i.unit top) request j) (apart : j.1.text ≠ root)
    (read : fs.read j.1 = .ok source) (program : program? source = some p)
    (file : Carries fs library top root (some j) (Node.numberAll n p.nodes).1 body)
    (rest : Carries fs library top root i nodes code) :
    Carries fs library top root i (.importing m request :: nodes)
      (.program m' (moduleInfo j) body :: .importing m request :: code)

theorem isModule_of_program? {source : String} {p : Program Unit} (h : program? source = some p)
    (n : NodeId) : ∀ node ∈ (Node.numberAll n p.nodes).1, node.isModule = false := by
  intro node hnode
  have hread := Node.allIn_read_numberAll n p.nodes
    (Tree.allIn_read_of_ofSource (program?_eq_some_iff.1 h).1)
  have := hread.of_mem hnode
  cases node with
  | program m info nodes => exact this.1.elim
  | _ => rfl

/-- Taking the modules out again gives the nodes that were read. -/
theorem Carries.ownNodes_eq {root : String} {i : Importer} {nodes code : Code}
    (h : Carries fs library top root i nodes code)
    (hnodes : ∀ node ∈ nodes, node.isModule = false) : ownNodes code = nodes := by
  induction h with
  | nil => rfl
  | own rest ih =>
    obtain ⟨hnode, hrest⟩ := List.forall_mem_cons.1 hnodes
    unfold ownNodes at ih ⊢
    rw [List.filter_cons_of_pos (by simp [hnode]), ih hrest]
  | module _ _ _ _ _ _ _ ihrest =>
    have hrest := ihrest (List.forall_mem_cons.1 hnodes).2
    unfold ownNodes at hrest ⊢
    rw [List.filter_cons_of_neg (by simp [Node.isModule]),
      List.filter_cons_of_pos (by simp [Node.isModule]), hrest]

theorem Carries.spells {root : String} {i : Importer} {source : String} {p : Program Unit}
    {n : NodeId} {code : Code} (hprogram : program? source = some p)
    (h : Carries fs library top root i (Node.numberAll n p.nodes).1 code) : Spells source code :=
  ⟨p, n, (program?_eq_some_iff.1 hprogram).1, h.ownNodes_eq (isModule_of_program? hprogram n)⟩

/-- The steps of code that carries nodes: each module is what its file spells, and none is the file
of the root. -/
theorem Carries.exists_steps {root : String} {i : Importer} {nodes code : Code}
    (h : Carries fs library top root i nodes code)
    (hnodes : ∀ node ∈ nodes, node.isModule = false) :
    ∃ steps, stepsAll? fs library top i code = some steps ∧
      (∀ path ∈ files steps, path.text ≠ root) ∧
      ∀ j body, .module j body ∈ steps →
        ∃ source, fs.read j.1 = .ok source ∧ Spells source body := by
  induction h with
  | nil => exact ⟨[], by rw [stepsAll?], by simp, by simp⟩
  | own rest ih =>
    obtain ⟨hnode, hrest⟩ := List.forall_mem_cons.1 hnodes
    obtain ⟨steps, hsteps, hfiles, hmodules⟩ := ih hrest
    refine ⟨.own _ _ :: steps, by rw [stepsAll?_own hnode, hsteps]; rfl, hfiles, ?_⟩
    intro j body hmem
    rcases List.mem_cons.1 hmem with heq | hmem
    · cases heq
    · exact hmodules j body hmem
  | @module i k m m' request rest code body source p n leads apart read program file _ ihfile
      ihrest =>
    obtain ⟨inner, hinner, hfiles, hmodules⟩ := ihfile (isModule_of_program? program n)
    obtain ⟨others, hothers, hfiles', hmodules'⟩ := ihrest (List.forall_mem_cons.1 hnodes).2
    refine ⟨_, (stepsAll?_module leads).2 ⟨inner, others, hinner, hothers, rfl⟩, ?_, ?_⟩
    · intro path hpath
      simp only [files_append, files_module, files_own, List.mem_append, List.mem_cons] at hpath
      rcases hpath with hpath | rfl | hpath
      · exact hfiles path hpath
      · exact apart
      · exact hfiles' path hpath
    · intro j nodes hmem
      simp only [List.mem_append, List.mem_cons, Step.module.injEq, reduceCtorEq, false_or] at hmem
      rcases hmem with hmem | ⟨rfl, rfl⟩ | hmem
      · exact hmodules j nodes hmem
      · exact ⟨source, read, file.spells program⟩
      · exact hmodules' j nodes hmem

/-! ## Linking carries what it reads -/

/-- Anything may have stopped linking. -/
abbrev Anyhow : RunError → Linker → Prop := fun _ _ => True

/-- What loading a file gives, where the graph starts from `root`. -/
def Loads (fs : FileSystem) (library : String) (top : SourceUnit) (root : String) (j : Path × Origin)
    (p : Program NodeId) (l : Linker) : Prop :=
  l.graph.root = root ∧ p.info = (SourceUnit.ofFile j.1 j.2).info ∧
    ∃ source program n, fs.read j.1 = .ok source ∧ program? source = some program ∧
      Carries fs library top root (some j) (Node.numberAll n program.nodes).1 p.nodes

theorem root_connected (unit : SourceUnit) (path : Path) (l : Linker) :
    (connected unit path l).graph.root = l.graph.root := by
  unfold connected DependencyGraph.add
  dsimp only
  split
  · rfl
  · split <;> rfl

theorem text_ne_root {unit : SourceUnit} {path : Path} {l : Linker}
    (h : (connected unit path l).graph.isCircular = false) : path.text ≠ l.graph.root := by
  -- an edge to the root closes a circle at once, whatever else the graph has
  intro hroot
  obtain ⟨hopen, -⟩ := DependencyGraph.not_isCircular_iff.1 h
  unfold connected DependencyGraph.add at hopen
  dsimp only at hopen
  split at hopen
  · next hclosed => rw [hclosed] at hopen; cases hopen
  · rw [if_pos (beq_iff_eq.2 hroot)] at hopen; cases hopen

section Splice

variable {root : String} {i : Importer} {load : Path → Origin → Linking (Program NodeId)}
  (hload : ∀ j l, l.graph.root = root →
    Meets (load j.1 j.2) l (Loads fs library top root j) Anyhow)

include hload

theorem meets_resolve_carries {position : Position} {request : Import} {l : Linker}
    (hl : l.graph.root = root) :
    Meets (resolve fs library load (i.unit top) position request) l
      (fun found l' => l'.graph.root = root ∧ ∀ p, found = some p → ∃ j,
        LeadsTo fs library (i.unit top) request j ∧ j.1.text ≠ root ∧
          Loads fs library top root j p l') Anyhow := by
  refine meets_resolve ?alone ?missing ?circle ?known ?fresh
  case alone => exact fun _ => ⟨hl, nofun⟩
  case missing => exact fun _ _ _ _ _ _ _ _ _ _ => trivial
  case circle => exact fun _ _ _ _ _ _ _ _ => trivial
  case known => exact fun path _ _ _ _ => ⟨(root_connected _ path l).trans hl, nofun⟩
  case fresh =>
    intro path origin htarget hacyclic _
    rw [target?_eq_some_iff_leadsTo] at htarget
    have hroot := root_connected (i.unit top) path l
    refine (hload (path, origin) _ (hroot.trans hl)).mono ?_ fun _ _ he => he
    rintro p l' ⟨hl', hinfo, hfile⟩
    refine ⟨hl', fun p' hp' => ?_⟩
    cases hp'
    exact ⟨_, htarget, hl ▸ text_ne_root hacyclic, hl', hinfo, hfile⟩

-- by induction on the nodes that were read: only an import can put something in, and that is the
-- module that `resolve` gives for it
theorem meets_splice_carries (nodes : Code) {l : Linker} (hl : l.graph.root = root) :
    Meets (splice (resolve fs library load (i.unit top)) nodes) l
      (fun code l' => l'.graph.root = root ∧ Carries fs library top root i nodes code) Anyhow := by
  induction nodes generalizing l with
  | nil => exact ⟨hl, .nil⟩
  | cons node rest ih =>
    cases himport : node.import? with
    | none =>
      refine meets_splice_node himport ((ih hl).mono ?_ fun _ _ he => he)
      exact fun code l' h => ⟨h.1, .own h.2⟩
    | some request =>
      obtain ⟨m, rfl⟩ := Node.import?_eq_some_iff.1 himport
      refine meets_splice_importing ((meets_resolve_carries hload hl).mono ?_ fun _ _ he => he)
      rintro found l₁ ⟨hl₁, hfound⟩ id l₂ hl₂
      have hroot : l₂.graph.root = root := hl₂.graph ▸ hl₁
      refine (ih hroot).mono ?_ fun _ _ he => he
      rintro code l' ⟨hl', hcode⟩
      refine ⟨hl', ?_⟩
      cases found with
      | none => exact .own hcode
      | some p =>
        obtain ⟨j, hleads, hapart, -, hinfo, source, program, n, hread, hprogram, hfile⟩ :=
          hfound p rfl
        have hmodule : moduleNode id m.token p =
            .program ⟨id, m.token⟩ (moduleInfo j) p.nodes := by
          unfold moduleNode
          rw [hinfo]
          rfl
        show Carries _ _ _ _ _ _ (moduleNode id m.token p :: _)
        rw [hmodule]
        exact .module hleads hapart hread hprogram hfile hcode

theorem meets_linkText_carries {source : String} {l : Linker} (hl : l.graph.root = root) :
    Meets (linkText fs library load (i.unit top) source) l
      (fun p l' => l'.graph.root = root ∧ p.info = (i.unit top).info ∧
        ∃ program n, program? source = some program ∧
          Carries fs library top root i (Node.numberAll n program.nodes).1 p.nodes) Anyhow := by
  refine meets_linkText (fun program n l₁ hprogram hl₁ => ?_) fun _ _ _ _ _ => trivial
  have hroot : l₁.graph.root = root := hl₁.graph ▸ hl
  refine (meets_splice_carries hload _ hroot).mono ?_ fun _ _ he => he
  rintro code l' ⟨hl', hcode⟩ l'' hl''
  exact ⟨hl''.graph ▸ hl', rfl, program, n, hprogram, hcode⟩

end Splice

theorem meets_linkFile_carries {root : String} (fuel : Nat) (j : Path × Origin) {l : Linker}
    (hl : l.graph.root = root) :
    Meets (linkFile fs library fuel j.1 j.2) l (Loads fs library top root j) Anyhow := by
  induction fuel generalizing j l with
  | zero => trivial
  | succ fuel ih =>
    unfold linkFile
    split
    · trivial
    · next source hread =>
      refine (meets_linkText_carries (i := some j) (fun k l hl => ih k hl) hl).mono ?_
        fun _ _ he => he
      rintro p l' ⟨hl', hinfo, program, n, hprogram, hcode⟩
      exact ⟨hl', hinfo, source, program, n, hread, hprogram, hcode⟩

/-! ## The events of the steps -/

def Step.event? : Step → Option Event
  | .own i (.importing _ request) => some (.asks i request)
  | .own _ _ => none
  | .module file _ => some (.offers file)

/-- What steps show of a plan. -/
def events (steps : List Step) : List Event :=
  steps.filterMap Step.event?

@[simp] theorem events_append (l k : List Step) : events (l ++ k) = events l ++ events k :=
  List.filterMap_append

@[simp] theorem events_importing (i : Importer) (m : Mark NodeId) (request : Import)
    (l : List Step) :
    events (.own i (.importing m request) :: l) = .asks i request :: events l := rfl

@[simp] theorem events_module (j : Path × Origin) (nodes : Code) (l : List Step) :
    events (.module j nodes :: l) = .offers j :: events l := rfl

theorem events_own {node : Node NodeId} (h : node.import? = none) (i : Importer) (l : List Step) :
    events (.own i node :: l) = events l := by
  cases node with
  | importing m request => cases h
  | _ => rfl

theorem asks_mem_events {steps : List Step} {i : Importer} {request : Import} :
    .asks i request ∈ events steps ↔ ∃ m, .own i (.importing m request) ∈ steps := by
  induction steps with
  | nil => simp [events]
  | cons step rest ih =>
    cases step with
    | module j nodes => simp [ih]
    | own k node =>
      cases himport : node.import? with
      | none =>
        rw [events_own himport, ih]
        refine exists_congr fun m => ⟨List.mem_cons_of_mem _, fun h => ?_⟩
        rcases List.mem_cons.1 h with heq | h
        · cases heq
          cases himport
        · exact h
      | some request' =>
        obtain ⟨m', rfl⟩ := Node.import?_eq_some_iff.1 himport
        simp only [events_importing, List.mem_cons, Event.asks.injEq, Step.own.injEq,
          Node.importing.injEq, ih]
        constructor
        · rintro (⟨rfl, rfl⟩ | ⟨m, h⟩)
          · exact ⟨m', Or.inl ⟨rfl, rfl, rfl⟩⟩
          · exact ⟨m, Or.inr h⟩
        · rintro ⟨m, ⟨rfl, rfl, rfl⟩ | h⟩
          · exact Or.inl ⟨rfl, rfl⟩
          · exact Or.inr ⟨m, h⟩

/-- The files that are there after some steps are those that their events offer. -/
theorem after_events (steps : List Step) : after (events steps) [] = (files steps).reverse := by
  induction steps with
  | nil => rfl
  | cons step rest ih =>
    cases step with
    | own i node =>
      cases himport : node.import? with
      | none => rw [events_own himport, files_own, ih]
      | some request =>
        obtain ⟨m, rfl⟩ := Node.import?_eq_some_iff.1 himport
        rw [events_importing, files_own, ← ih]
        rfl
    | module j nodes =>
      rw [events_module, files_module, List.reverse_cons, ← ih]
      simp [after]

theorem events_plain (i : Importer) {code : Code} (h : Node.AllIn Node.Plain code) :
    events (code.map (.own i)) = [] := by
  induction code with
  | nil => rfl
  | cons node rest ih =>
    have himport : node.import? = none := by
      cases node with
      | importing m request => exact h.1.elim
      | _ => rfl
    rw [List.map_cons, events_own himport, ih h.2]

/-- **The steps of linked code show the events of its plan.** -/
theorem Linked.events_eq {i : Importer} {there : List Path} {requests : List Import}
    {code : Code} {es : List Event} (h : Linked fs library top i there requests code es)
    {steps : List Step} (hsteps : stepsAll? fs library top i code = some steps) :
    events steps = es := by
  induction h generalizing steps with
  | plain hplain =>
    rw [stepsAll?_plain _ hplain] at hsteps
    cases hsteps
    exact events_plain _ hplain
  | known _ _ _ _ ih =>
    rw [stepsAll?_own rfl] at hsteps
    obtain ⟨others, hothers, rfl⟩ := Option.map_eq_some_iff.1 hsteps
    rw [events_importing, ih hothers]
  | fresh _ leads _ _ _ _ ihfile ihrest =>
    obtain ⟨inner, others, hinner, hothers, rfl⟩ := (stepsAll?_module leads).1 hsteps
    rw [events_append, events_module, events_importing, ihfile hinner, ihrest hothers]

/-- Imports stand at the top of linked code, and modules only in front of them. -/
theorem Linked.plain_of_own {i : Importer} {there : List Path} {requests : List Import}
    {code : Code} {es : List Event} (h : Linked fs library top i there requests code es)
    {steps : List Step} (hsteps : stepsAll? fs library top i code = some steps) {k : Importer}
    {node : Node NodeId} (hmem : .own k node ∈ steps) (himport : node.import? = none) :
    node.All Node.Plain := by
  induction h generalizing steps with
  | plain hplain =>
    rw [stepsAll?_plain _ hplain] at hsteps
    cases hsteps
    obtain ⟨node', hnode', heq⟩ := List.mem_map.1 hmem
    cases heq
    exact hplain.of_mem hnode'
  | known _ _ _ _ ih =>
    rw [stepsAll?_own rfl] at hsteps
    obtain ⟨others, hothers, rfl⟩ := Option.map_eq_some_iff.1 hsteps
    rcases List.mem_cons.1 hmem with heq | hmem
    · cases heq
      cases himport
    · exact ih hothers hmem
  | fresh _ leads _ _ _ _ ihfile ihrest =>
    obtain ⟨inner, others, hinner, hothers, rfl⟩ := (stepsAll?_module leads).1 hsteps
    simp only [List.mem_append, List.mem_cons, reduceCtorEq, false_or] at hmem
    rcases hmem with hmem | heq | hmem
    · exact ihfile hinner hmem
    · cases heq
      cases himport
    · exact ihrest hothers hmem

/-- When an import is carried out, the file that it leads to is there. -/
theorem Linked.asks_there {i : Importer} {there : List Path} {requests : List Import}
    {code : Code} {es : List Event} (h : Linked fs library top i there requests code es)
    {before more : List Event} {k : Importer} {request : Import}
    (hes : es = before ++ .asks k request :: more) {j : Path × Origin}
    (hj : LeadsTo fs library (k.unit top) request j) : j.1 ∈ after before there := by
  induction h generalizing before more with
  | plain => simp at hes
  | known _ _ there_of _ ih =>
    cases before with
    | nil =>
      cases hes
      exact there_of j hj
    | cons e before =>
      have hthere := ih (List.cons.inj hes).2
      obtain rfl := (List.cons.inj hes).1
      exact hthere
  | @fresh i there p request' requests m m' body inner code es _ leads _ _ _ _ ihfile ihrest =>
    -- the import is asked for after the module's own events or among them
    rcases List.append_eq_append_iff.1 hes with ⟨later, rfl, hlater⟩ | ⟨later, rfl, hlater⟩
    · match later, hlater with
      | [], hlater => cases hlater
      | [e], hlater =>
        -- it is the one that the module was read for, and that file has just been offered
        cases hlater
        have hafter : after (inner ++ [.offers p]) there = p.1 :: after inner there := by
          simp [after]
        rw [hafter, hj.unique leads]
        exact List.mem_cons_self
      | e :: e' :: before', hlater =>
        cases hlater
        rw [after_fresh]
        exact ihrest rfl
    · cases later with
      | nil => cases hlater
      | cons e later =>
        cases hlater
        exact ihfile rfl

/-- Every file that is offered is one that an import of the plan leads to. -/
theorem Linked.asked_of_offered {i : Importer} {there : List Path} {requests : List Import}
    {code : Code} {es : List Event} (h : Linked fs library top i there requests code es)
    {j : Path × Origin} (hj : j ∈ offered es) :
    ∃ k request, .asks k request ∈ es ∧ LeadsTo fs library (k.unit top) request j := by
  induction h with
  | plain => cases hj
  | known _ _ _ _ ih =>
    obtain ⟨k, request, hmem, hleads⟩ := ih hj
    exact ⟨k, request, List.mem_cons_of_mem _ hmem, hleads⟩
  | @fresh i there p request _ _ _ _ _ _ _ _ leads _ _ _ _ ihfile ihrest =>
    simp only [offered_append, offered_offers, offered_asks, List.mem_append,
      List.mem_singleton] at hj
    rcases hj with (hj | rfl) | hj
    · obtain ⟨k, request, hmem, hleads⟩ := ihrest hj
      exact ⟨k, request, by simp [hmem], hleads⟩
    · exact ⟨i, request, by simp, leads⟩
    · obtain ⟨k, request, hmem, hleads⟩ := ihfile hj
      exact ⟨k, request, by simp [hmem], hleads⟩

/-- **Linked code is evaluated in order**, where nothing was there before. -/
theorem Linked.inOrder {i : Importer} {requests : List Import} {code : Code} {es : List Event}
    (h : Linked fs library top i [] requests code es) {steps : List Step}
    (hsteps : stepsAll? fs library top i code = some steps)
    (hspelled : ∀ j body, .module j body ∈ steps →
      ∃ source, fs.read j.1 = .ok source ∧ Spells source body) :
    InOrder fs library top steps := by
  have plain : ∀ k node, .own k node ∈ steps → node.import? = none → node.All Node.Plain :=
    fun _ _ hmem himport => h.plain_of_own hsteps hmem himport
  obtain rfl := h.events_eq hsteps
  have before : ∀ earlier k m request later,
      steps = earlier ++ .own k (.importing m request) :: later →
      ∀ j, LeadsTo fs library (k.unit top) request j → j.1 ∈ files earlier := by
    rintro earlier k m request later rfl j hj
    have hthere := h.asks_there (events_append _ _) hj
    rw [after_events, List.mem_reverse] at hthere
    exact hthere
  refine ⟨?_, fun path => ⟨fun hpath => ?_, ?_⟩, before, hspelled, plain⟩
  · rw [← List.nodup_reverse, ← after_events]
    exact h.nodup List.nodup_nil
  · rw [← List.mem_reverse, ← after_events, mem_after_iff] at hpath
    obtain ⟨j, hj, rfl⟩ | hnone := hpath
    · obtain ⟨k, request, hasks, hleads⟩ := h.asked_of_offered hj
      obtain ⟨m, hstep⟩ := asks_mem_events.1 hasks
      exact ⟨k, m, request, j.2, hstep, hleads⟩
    · exact absurd hnone List.not_mem_nil
  · rintro ⟨k, m, request, origin, hstep, hleads⟩
    obtain ⟨earlier, later, rfl⟩ := List.append_of_mem hstep
    rw [files_append]
    exact List.mem_append_left _ (before earlier k m request later rfl _ hleads)

/-! ## Whole programs -/

/-- What linking starts from: a file, or a text that is in no file. -/
inductive Start
  | file (path : Path)
  | text (unit : SourceUnit) (source : String)

namespace Start

def unit : Start → SourceUnit
  | file path => .ofFile path .user
  | text unit _ => unit

/-- Who imports first. -/
def importer : Start → Importer
  | file path => some (path, .user)
  | text _ _ => none

def source (fs : FileSystem) : Start → Except Fault String
  | file path => fs.read path
  | text _ source => .ok source

def link (fs : FileSystem) (library : String) : Start → Linking (Program NodeId)
  | file path => linkEntry fs library path
  | text unit source => linkSource fs library unit source

/-- A linker that has linked nothing yet. -/
def linker (start : Start) (log : FileLog) (nextId : NodeId) : Linker :=
  { graph := { root := start.unit.key }, log, loaded := [], nextId }

end Start

theorem closed_nil : Closed fs library [] :=
  fun _ h => absurd h List.not_mem_nil

theorem meets_link_linked (start : Start) (log : FileLog) (nextId : NodeId) :
    Meets (start.link fs library) (start.linker log nextId)
      (fun p _ => ∃ requests es,
        Linked fs library start.unit start.importer [] requests p.nodes es) Anyhow := by
  cases start with
  | file path =>
    refine (meets_linkEntry_linked (.ofFile path .user) path closed_nil).mono ?_ fun _ _ _ => trivial
    rintro p l' ⟨-, es, hlinked, -⟩
    exact ⟨_, es, hlinked⟩
  | text unit source =>
    refine (meets_linkSource_linked unit source closed_nil).mono ?_ fun _ _ _ => trivial
    rintro p l' ⟨-, es, hlinked, -⟩
    exact ⟨_, es, hlinked⟩

theorem meets_link_carries (start : Start) (log : FileLog) (nextId : NodeId) :
    Meets (start.link fs library) (start.linker log nextId)
      (fun p _ => ∃ source program n, start.source fs = .ok source ∧
        program? source = some program ∧ Carries fs library start.unit start.unit.key
          start.importer (Node.numberAll n program.nodes).1 p.nodes) Anyhow := by
  cases start with
  | file path =>
    have hfile : Meets (linkFile fs library (fuelFor fs) path .user)
        (Start.linker (.file path) log nextId)
        (Loads fs library (.ofFile path .user) _ (path, .user)) Anyhow :=
      meets_linkFile_carries (fuelFor fs) (path, .user) rfl
    refine Meets.bind (hfile.mono ?_ fun _ _ he => he)
    rintro p l' ⟨-, -, source, program, n, hread, hprogram, hcode⟩
    exact ⟨source, program, n, hread, hprogram, hcode⟩
  | text unit source =>
    refine (meets_linkText_carries (i := none)
      (fun j _ hl => meets_linkFile_carries (fuelFor fs) j hl) rfl).mono ?_ fun _ _ he => he
    rintro p l' ⟨-, -, program, n, hprogram, hcode⟩
    exact ⟨source, program, n, rfl, hprogram, hcode⟩

/-- **Each module is evaluated once, and before it is needed.** Whatever a linker that has linked
nothing yet starts from, a program that it gives has steps. They are in order, the file that linking
started from is not among the modules, and the program is what its text spells with modules put in
between. -/
theorem link_inOrder (start : Start) (log : FileLog) (nextId : NodeId) {p : Program NodeId}
    {l : Linker} (hrun : (start.link fs library).run (start.linker log nextId) = .done p l) :
    ∃ steps source, stepsAll? fs library start.unit start.importer p.nodes = some steps ∧
      InOrder fs library start.unit steps ∧ (∀ path, start = .file path → path ∉ files steps) ∧
      start.source fs = .ok source ∧ Spells source p.nodes := by
  obtain ⟨requests, es, hlinked⟩ := (meets_link_linked start log nextId).of_done hrun
  obtain ⟨source, program, n, hsource, hprogram, hcarries⟩ :=
    (meets_link_carries start log nextId).of_done hrun
  obtain ⟨steps, hsteps, hfiles, hmodules⟩ :=
    hcarries.exists_steps (isModule_of_program? hprogram n)
  refine ⟨steps, source, hsteps, hlinked.inOrder hsteps hmodules, ?_, hsource,
    hcarries.spells hprogram⟩
  rintro path rfl hmem
  exact hfiles path hmem rfl

/-- A file that is reached along two ways, which spell it differently, and a library module that
imports its own namespace. -/
def diamond : FileSystem where
  workingDirectory := []
  entries :=
    [(["main.twl"], .file "import <x>\nimport \"e/c.twl\"\nimport \"./d.twl\"".toUTF8.toList),
      (["e", "c.twl"], .file "import * from \"../d.twl\"".toUTF8.toList),
      (["d.twl"], .file "public def f { }".toUTF8.toList),
      (["std", "x.twl"], .file "import <x>".toUTF8.toList)]

/-- The files that linking from nothing gives, in the order of their evaluation. -/
def linkedFiles? (fs : FileSystem) (library : String) (start : Start) : Option (List Path) :=
  match (start.link fs library).run (start.linker {} 0) with
  | .done p _ => (stepsAll? fs library start.unit start.importer p.nodes).map files
  | _ => none

theorem link_inOrder_diamond : ∃ p l steps,
    (linkEntry diamond "std" ["main.twl"]).run (Start.linker (.file ["main.twl"]) {} 0) = .done p l ∧
      stepsAll? diamond "std" (.ofFile ["main.twl"] .user) (some (["main.twl"], .user)) p.nodes =
        some steps ∧
      InOrder diamond "std" (.ofFile ["main.twl"] .user) steps ∧
      files steps = [["std", "x.twl"], ["d.twl"], ["e", "c.twl"]] := by
  have order : linkedFiles? diamond "std" (.file ["main.twl"]) =
      some [["std", "x.twl"], ["d.twl"], ["e", "c.twl"]] := by decide +kernel
  unfold linkedFiles? at order
  cases hrun : (Start.link diamond "std" (.file ["main.twl"])).run
      (Start.linker (.file ["main.twl"]) {} 0) with
  | done p l =>
    rw [hrun] at order
    dsimp only at order
    obtain ⟨steps, _, hsteps, hinOrder, -⟩ := link_inOrder (.file ["main.twl"]) {} 0 hrun
    rw [hsteps] at order
    exact ⟨p, l, steps, hrun, hsteps, hinOrder, Option.some.inj order⟩
  | stopped e l => rw [hrun] at order; cases order

end Linking

end Catena

import Catena.Proofs.Linking.Names
import Catena.Proofs.Scope.Likeness

/-!
# The nodes that linking creates

Linking creates nodes when it reads a text, and one more for each module that it puts in front of an
import. What it creates is listed beside it, in order and also where it stops half-way
(`Start.creations`). All numbers are drawn from one supply, so none is given twice; a linked program
consists of the nodes that were created; and its table gives each of them the name that the scopes of
its own text give it (`creating_link`).
-/

namespace Catena

/-! ## Creations -/

/-- What is created in one go: the nodes of a text, or a single node. -/
inductive Creation
  | text (p : Program NodeId)
  | node (id : NodeId)

namespace Creation

/-- The numbers of the nodes that are created. -/
def ids : Creation → List NodeId
  | text p => Node.tagsAll p.nodes
  | node id => [id]

/-- The numbers of all nodes that are created. -/
abbrev idsOf (cs : List Creation) : List NodeId :=
  cs.flatMap ids

/-- Among some creations there is a text, and it has a node with the given number. -/
structure Within (cs : List Creation) (p : Program NodeId) (id : NodeId) : Prop where
  text : .text p ∈ cs
  node : id ∈ Node.tagsAll p.nodes

variable {cs ds : List Creation} {p : Program NodeId} {id : NodeId}

theorem Within.mem_idsOf (h : Within cs p id) : id ∈ idsOf cs :=
  List.mem_flatMap.2 ⟨.text p, h.text, h.node⟩

theorem within_append : Within (cs ++ ds) p id ↔ Within cs p id ∨ Within ds p id := by
  constructor
  · rintro ⟨htext, hnode⟩
    exact (List.mem_append.1 htext).imp (⟨·, hnode⟩) (⟨·, hnode⟩)
  · rintro (h | h)
    · exact ⟨List.mem_append_left _ h.text, h.node⟩
    · exact ⟨List.mem_append_right _ h.text, h.node⟩

theorem idsOf_append (cs ds : List Creation) : idsOf (cs ++ ds) = idsOf cs ++ idsOf ds :=
  List.flatMap_append

theorem not_within_nil : ¬Within [] p id :=
  fun h => absurd h.text List.not_mem_nil

theorem idsOf_map_node (ids : List NodeId) : idsOf (ids.map .node) = ids := by
  rw [idsOf, List.flatMap_map]
  exact List.flatMap_singleton' ids

/-- The nodes with the numbers from `n` up to `next`. -/
def passed (n next : NodeId) : List Creation :=
  (List.range' n (next - n)).map .node

theorem drawn_passed {n next : NodeId} (h : n ≤ next) : Drawn n (idsOf (passed n next)) next := by
  unfold passed
  rw [idsOf_map_node]
  have hmem : ∀ k ∈ List.range' n (next - n), n ≤ k ∧ k < next := fun k hk => by
    rwa [List.mem_range'_1, Nat.add_sub_cancel' h] at hk
  exact ⟨List.nodup_range', fun k hk => (hmem k hk).1, fun k hk => (hmem k hk).2, h⟩

end Creation

open Creation (Within idsOf idsOf_append)

/-- The table of a program has names for the nodes of the program only. -/
theorem Scope.lookup_analyse_of_notMem {p : Program NodeId} {id : NodeId}
    (h : id ∉ Node.tagsAll p.nodes) : (analyse p).table.names.lookup id = none :=
  given_visitAll {} p.nodes h

/-- A table with the names of some texts added: a node of one of them has the name that the scopes of
this text give it, and any other node has what it had. -/
structure ScopeTable.Takes (t : ScopeTable) (cs : List Creation) (t' : ScopeTable) : Prop where
  own : ∀ p id, Within cs p id →
    t'.names.lookup id = (Scope.analyse p).table.names.lookup id
  other : ∀ id, (∀ p, ¬Within cs p id) → t'.names.lookup id = t.names.lookup id

namespace ScopeTable.Takes

variable {t t' t'' : ScopeTable} {cs ds : List Creation}

theorem nil (t : ScopeTable) : t.Takes [] t :=
  ⟨fun _ _ h => absurd h Creation.not_within_nil, fun _ _ => rfl⟩

theorem node (t : ScopeTable) (id : NodeId) : t.Takes [.node id] t := by
  refine ⟨fun p id' h => ?_, fun _ _ => rfl⟩
  cases List.mem_singleton.1 h.text

theorem text {p : Program NodeId} (hnew : ∀ id ∈ Node.tagsAll p.nodes, t.names.lookup id = none) :
    t.Takes [.text p] (t.extend (Scope.analyse p).table) where
  own q id h := by
    cases List.mem_singleton.1 h.text
    rw [lookup_extend, hnew id h.node, Option.or_none]
  other id h := by
    have hid : id ∉ Node.tagsAll p.nodes := fun hid => h p ⟨List.mem_singleton_self _, hid⟩
    rw [lookup_extend, Scope.lookup_analyse_of_notMem hid, Option.none_or]

/-- A node of an earlier text has no other name later, because no later text has its number. -/
theorem append (h : t.Takes cs t') (k : t'.Takes ds t'')
    (hapart : ∀ id ∈ idsOf cs, id ∉ idsOf ds) : t.Takes (cs ++ ds) t'' where
  own p id hp := by
    rcases Creation.within_append.1 hp with hp | hp
    · rw [k.other id fun q hq => hapart id hp.mem_idsOf hq.mem_idsOf, h.own p id hp]
    · exact k.own p id hp
  other id hid := by
    rw [k.other id fun p hp => hid p (Creation.within_append.2 (.inr hp)),
      h.other id fun p hp => hid p (Creation.within_append.2 (.inl hp))]

theorem lookup_of_notMem (h : t.Takes cs t') {id : NodeId} (hid : id ∉ idsOf cs) :
    t'.names.lookup id = t.names.lookup id :=
  h.other id fun _ hp => hid hp.mem_idsOf

end ScopeTable.Takes

/-- What is drawn earlier is not drawn later. -/
theorem Drawn.apart {n next last : NodeId} {tags later : List NodeId} (h : Drawn n tags next)
    (h' : Drawn next later last) : ∀ id ∈ tags, id ∉ later :=
  fun id hid hid' => absurd (h.lt_next id hid) (Nat.not_lt.2 (h'.from_le id hid'))

namespace Linking

/-! ## What the steps of linking create -/

/-- What there is after a step of linking that gives a result. -/
def thereafter {α β : Type} (m : Linking α) (l : Linker) (k : α → Linker → List β) : List β :=
  match m.run l with
  | .done a l' => k a l'
  | .stopped _ _ => []

theorem thereafter_of_done {α β : Type} {m : Linking α} {l l' : Linker} {a : α}
    (h : m.run l = .done a l') (k : α → Linker → List β) : thereafter m l k = k a l' := by
  unfold thereafter
  rw [h]

/-- Reads a text and checks its scopes. -/
def readText (unit : SourceUnit) (source : String) : Linking (Program NodeId) := do
  setFile unit.display
  let program ← parse unit source
  checkScopes program
  return program

/-- What a step that parses creates: the nodes of the text, or those that were made before it was
refused. -/
def parseCreations (m : Linking (Program NodeId)) (l : Linker) : List Creation :=
  match m.run l with
  | .done p _ => [.text p]
  | .stopped _ l' => Creation.passed l.nextId l'.nextId

/-- What reading a text creates, also if it is refused. -/
def readCreations (unit : SourceUnit) (source : String) (l : Linker) : List Creation :=
  parseCreations (do setFile unit.display; parse unit source) l

section Creations

variable (fs : FileSystem) (library : String) (load : Path → Origin → Linking (Program NodeId))
  (loading : Path → Origin → Linker → List Creation)

/-- What following an import creates, where `loading` is what is created by `load`. -/
def resolveCreations (unit : SourceUnit) (position : Position) (request : Import) (l : Linker) :
    List Creation :=
  match wanted? fs library unit request with
  | none => []
  | some ((written, base), origin) =>
    match fs.canonical base written with
    | .error _ => []
    | .ok path =>
      thereafter (connect unit position request path) l fun _ l' =>
        if l'.loaded.contains path then [] else loading path origin l'

/-- What putting programs in front of imports creates: those programs, and a node for each. -/
def spliceCreations (follow : Position → Import → Linking (Option (Program NodeId)))
    (following : Position → Import → Linker → List Creation) : Code → Linker → List Creation
  | [], _ => []
  | node :: rest, l =>
    match node.import? with
    | none => spliceCreations follow following rest l
    | some request =>
      following node.position request l ++
        thereafter (follow node.position request) l fun found l' =>
          match found with
          | none => spliceCreations follow following rest l'
          | some _ => thereafter freshId l' fun id l'' =>
              .node id :: spliceCreations follow following rest l''

/-- What linking a text creates: its own nodes first. -/
def textCreations (unit : SourceUnit) (source : String) (l : Linker) : List Creation :=
  readCreations unit source l ++
    thereafter (readText unit source) l fun p =>
      spliceCreations (resolve fs library load unit) (resolveCreations fs library loading unit)
        p.nodes

/-- What linking a file creates. -/
def fileCreations : Nat → Path → Origin → Linker → List Creation
  | 0, _, _, _ => []
  | fuel + 1, path, origin, l =>
    match fs.read path with
    | .error _ => []
    | .ok source =>
      textCreations fs library (linkFile fs library fuel) (fileCreations fuel) (.ofFile path origin)
        source l

/-- What linking creates. -/
def Start.creations : Start → Linker → List Creation
  | .file path => fileCreations fs library (fuelFor fs) path .user
  | .text unit source =>
    textCreations fs library (linkFile fs library (fuelFor fs))
      (fileCreations fs library (fuelFor fs)) unit source

end Creations

/-! ## Numbers and names -/

/-- From one linker to another, the given nodes are created and the table takes their names. -/
structure Creates (l : Linker) (cs : List Creation) (l' : Linker) : Prop where
  drawn : Drawn l.nextId (idsOf cs) l'.nextId
  takes : l.scopes.Takes cs l'.scopes

namespace Creates

variable {l l' l'' : Linker} {cs ds : List Creation}

theorem of_eq (hnext : l'.nextId = l.nextId) (hscopes : l'.scopes = l.scopes) :
    Creates l [] l' := by
  constructor
  · rw [hnext]
    exact .nil _
  · rw [hscopes]
    exact .nil _

theorem append (h : Creates l cs l') (k : Creates l' ds l'') : Creates l (cs ++ ds) l'' where
  drawn := by
    rw [idsOf_append]
    exact h.drawn.append k.drawn
  takes := h.takes.append k.takes (h.drawn.apart k.drawn)

theorem ahead (h : Creates l cs l') (hl : Ahead l) : Ahead l' := by
  intro id hid
  rw [h.takes.lookup_of_notMem fun hmem => Nat.not_lt.2 hid (h.drawn.lt_next id hmem)]
  exact hl id (Nat.le_trans h.drawn.le hid)

end Creates

/-- From `l`, the step creates the given nodes, up to where it stops. If it gives a result, that is as
`Q` says, and the table has taken the names of the nodes. -/
def Creating {α : Type} (m : Linking α) (l : Linker) (cs : List Creation) (Q : α → Linker → Prop) :
    Prop :=
  Meets m l (fun a l' => Creates l cs l' ∧ Q a l')
    fun _ l' => Drawn l.nextId (idsOf cs) l'.nextId

namespace Creating

variable {α β : Type} {m : Linking α} {f : α → Linking β} {l : Linker} {cs : List Creation}
  {Q : α → Linker → Prop} {R : β → Linker → Prop}

theorem fail {d : Diagnostic} : Creating (Linking.fail d : Linking α) l [] Q :=
  Drawn.nil l.nextId

theorem pure {a : α} (h : Q a l) : Creating (Pure.pure a) l [] Q :=
  ⟨.of_eq rfl rfl, h⟩

theorem change {g : Linker → Linker} (hnext : (g l).nextId = l.nextId)
    (hscopes : (g l).scopes = l.scopes) :
    Creating (Action.change g) l [] fun _ l' => l' = g l :=
  ⟨.of_eq hnext hscopes, rfl⟩

theorem freshId : Creating Linking.freshId l [.node l.nextId] fun id _ => id = l.nextId :=
  ⟨⟨.single _, .node _ _⟩, rfl⟩

theorem mono {Q' : α → Linker → Prop} (h : Creating m l cs Q) (hQ : ∀ a l', Q a l' → Q' a l') :
    Creating m l cs Q' :=
  Meets.mono h (fun a l' ha => ⟨ha.1, hQ a l' ha.2⟩) fun _ _ he => he

/-- One step after the other. -/
theorem bind {k : α → Linker → List Creation} (hm : Creating m l cs Q)
    (hf : ∀ a l', m.run l = .done a l' → Creates l cs l' → Q a l' →
      Creating (f a) l' (k a l') R) :
    Creating (m >>= f) l (cs ++ thereafter m l k) R := by
  unfold Creating Meets at hm ⊢
  rw [Action.run_bind]
  cases hrun : m.run l with
  | stopped e l' =>
    rw [hrun] at hm
    unfold thereafter
    rw [hrun, List.append_nil]
    exact hm
  | done a l' =>
    rw [hrun] at hm
    obtain ⟨hcreates, ha⟩ := hm
    have hnext := hf a l' hrun hcreates ha
    unfold Creating Meets at hnext
    rw [thereafter_of_done hrun]
    dsimp only
    cases hnextRun : (f a).run l' with
    | done b l'' =>
      rw [hnextRun] at hnext
      exact ⟨hcreates.append hnext.1, hnext.2⟩
    | stopped e l'' =>
      rw [hnextRun] at hnext
      dsimp only
      rw [idsOf_append]
      exact hcreates.drawn.append hnext

/-- What a step creates after one that creates nothing. -/
theorem bind_first {k : α → Linker → List Creation} (hm : Creating m l [] Q)
    (hf : ∀ a l', m.run l = .done a l' → Creates l [] l' → Q a l' →
      Creating (f a) l' (k a l') R) :
    Creating (m >>= f) l (thereafter m l k) R :=
  hm.bind hf

/-- What a step creates before one that creates nothing. -/
theorem bind_last (hm : Creating m l cs Q)
    (hf : ∀ a l', Q a l' → Creating (f a) l' [] R) : Creating (m >>= f) l cs R := by
  have h := hm.bind (k := fun _ _ => []) fun a l' _ _ ha => hf a l' ha
  have hnone : thereafter m l (fun _ _ => ([] : List Creation)) = [] := by
    unfold thereafter
    split <;> rfl
  rwa [hnone, List.append_nil] at h

end Creating

/-! ## The steps of linking -/

section Steps

variable {l : Linker} {unit : SourceUnit} {source : String}

theorem linkText_eq (fs : FileSystem) (library : String)
    (load : Path → Origin → Linking (Program NodeId)) (unit : SourceUnit) (source : String) :
    linkText fs library load unit source =
      (readText unit source >>= fun program =>
        splice (resolve fs library load unit) program.nodes >>= fun nodes => do
          setFile unit.display
          return { program with nodes }) := by
  simp only [linkText, readText, bind_assoc, pure_bind]

/-- Reading a text numbers its nodes, or passes over some numbers. -/
theorem meets_parse_drawn : Meets (parse unit source) l
    (fun p l' => Drawn l.nextId (Node.tagsAll p.nodes) l'.nextId ∧ l'.scopes = l.scopes)
    fun _ l' => l.nextId ≤ l'.nextId :=
  meets_parse (fun p _ => ⟨Node.drawn_numberAll l.nextId p.nodes, rfl⟩)
    (fun _ _ _ => Nat.le_refl l.nextId) fun _ _ made _ => Nat.le_add_right l.nextId made

/-- What parsing creates has the numbers that it draws. -/
theorem drawn_parseCreations {m : Linking (Program NodeId)} {Q : Program NodeId → Linker → Prop}
    (hm : Meets m l (fun p l' => Drawn l.nextId (Node.tagsAll p.nodes) l'.nextId ∧ Q p l')
      fun _ l' => l.nextId ≤ l'.nextId) :
    Drawn l.nextId (idsOf (parseCreations m l)) (m.run l).state.nextId := by
  unfold parseCreations
  cases hrun : m.run l with
  | done p l' =>
    have hids : idsOf [.text p] = Node.tagsAll p.nodes := by simp [Creation.ids]
    dsimp only [Outcome.state]
    rw [hids]
    exact (hm.of_done hrun).1
  | stopped e l' => exact Creation.drawn_passed (hm.of_stopped hrun)

theorem meets_checkScopes_takes {p : Program NodeId} : Meets (checkScopes p) l
    (fun _ l' => l'.nextId = l.nextId ∧ l'.scopes = l.scopes.extend (Scope.analyse p).table)
    fun _ l' => l'.nextId = l.nextId := by
  refine Meets.bind (Meets.change ?_)
  split
  · exact rfl
  · exact ⟨rfl, rfl⟩

/-- The numbers of a text are new, so that the table takes its names without loss. -/
theorem creating_readText (hl : Ahead l) :
    Creating (readText unit source) l (readCreations unit source l)
      fun p _ => readCreations unit source l = [.text p] := by
  have hparse : Meets (do setFile unit.display; parse unit source) l
      (fun p l' => Drawn l.nextId (Node.tagsAll p.nodes) l'.nextId ∧ l'.scopes = l.scopes)
      fun _ l' => l.nextId ≤ l'.nextId := Meets.bind (Meets.change meets_parse_drawn)
  have hcreated := drawn_parseCreations hparse
  have hassoc : readText unit source = ((do setFile unit.display; parse unit source) >>= fun p => do
      checkScopes p
      return p) := by
    simp only [readText, bind_assoc]
  unfold readCreations Creating Meets
  rw [hassoc, Action.run_bind]
  cases hrun : (do setFile unit.display; parse unit source : Linking _).run l with
  | stopped e l' =>
    rw [hrun] at hcreated
    exact hcreated
  | done p l' =>
    obtain ⟨hdrawn, hscopes⟩ := hparse.of_done hrun
    have hcheck := meets_checkScopes_takes (l := l') (p := p)
    have htext : parseCreations (do setFile unit.display; parse unit source) l = [.text p] := by
      unfold parseCreations
      rw [hrun]
    rw [hrun, htext] at hcreated
    rw [htext]
    dsimp only
    rw [Action.run_bind]
    cases hcheckRun : (checkScopes p).run l' with
    | stopped e l'' =>
      have hnext : l''.nextId = l'.nextId := hcheck.of_stopped hcheckRun
      dsimp only
      rw [hnext]
      exact hcreated
    | done _ l'' =>
      obtain ⟨hnext, hscopes'⟩ := hcheck.of_done hcheckRun
      refine ⟨⟨?_, ?_⟩, rfl⟩
      · rw [hnext]
        exact hcreated
      · rw [hscopes', hscopes]
        exact .text fun id hid => hl id (hdrawn.from_le id hid)

end Steps

section Files

variable {fs : FileSystem} {library : String} {load : Path → Origin → Linking (Program NodeId)}
  {loading : Path → Origin → Linker → List Creation}

/-- The nodes of the code are the ones that were created, each once. -/
def Consists (cs : List Creation) (code : Code) : Prop :=
  (Node.tagsAll code).Perm (idsOf cs)

theorem creating_connect {unit : SourceUnit} {position : Position} {request : Import} {path : Path}
    {l : Linker} : Creating (connect unit position request path) l [] fun _ _ => True := by
  refine Creating.bind_last (Creating.change rfl rfl) fun _ l' _ => ?_
  refine Meets.bind (show Meets (if l'.graph.isCircular then _ else _) _ _ _ from ?_)
  split
  · exact Creating.fail
  · exact Creating.pure trivial

/-- A module stands with its node in front of the import that asks for it. -/
theorem perm_module {id tag : NodeId} {own created code later rest : List NodeId}
    (hown : own.Perm created) (hcode : code.Perm (later ++ rest)) :
    (id :: (own ++ tag :: code)).Perm (created ++ id :: later ++ tag :: rest) :=
  calc id :: (own ++ tag :: code)
    _ |>.Perm (own ++ id :: tag :: code) := List.perm_middle.symm
    _ |>.Perm (created ++ id :: tag :: (later ++ rest)) := hown.append ((hcode.cons tag).cons id)
    _ |>.Perm (created ++ id :: (later ++ tag :: rest)) :=
      (List.perm_middle.symm.cons id).append_left created
    _ = created ++ id :: later ++ tag :: rest := by rw [List.append_assoc, List.cons_append]

variable (hload : ∀ path origin l, Ahead l →
    Creating (load path origin) l (loading path origin l) fun p _ =>
      Consists (loading path origin l) p.nodes)

include hload

theorem creating_resolve {unit : SourceUnit} {position : Position} {request : Import} {l : Linker}
    (hl : Ahead l) :
    Creating (resolve fs library load unit position request) l
      (resolveCreations fs library loading unit position request l) fun found _ =>
        Consists (resolveCreations fs library loading unit position request l)
          ((found.map Program.nodes).getD []) := by
  unfold resolve resolveCreations
  cases wanted? fs library unit request with
  | none => exact Creating.pure .nil
  | some place =>
    obtain ⟨⟨written, base⟩, origin⟩ := place
    dsimp only
    cases fs.canonical base written with
    | error fault => exact Creating.fail
    | ok path =>
      dsimp only
      refine Creating.bind_first creating_connect fun _ l' hrun hcreates _ => ?_
      rw [thereafter_of_done hrun]
      refine Meets.bind (show Meets (if l'.loaded.contains path then _ else _) _ _ _ from ?_)
      split
      · exact Creating.pure .nil
      · exact Creating.bind_last (hload path origin l' (hcreates.ahead hl)) fun p l'' hp =>
          Creating.bind_last (Creating.change rfl rfl) fun _ _ _ => Creating.pure hp

/-- The programs that are put in front of imports are added to the nodes that were there. -/
theorem creating_splice {unit : SourceUnit} (nodes : Code) {l : Linker} (hl : Ahead l) :
    Creating (splice (resolve fs library load unit) nodes) l
      (spliceCreations (resolve fs library load unit) (resolveCreations fs library loading unit)
        nodes l) fun code _ =>
      (Node.tagsAll code).Perm (idsOf (spliceCreations (resolve fs library load unit)
        (resolveCreations fs library loading unit) nodes l) ++ Node.tagsAll nodes) := by
  induction nodes generalizing l with
  | nil => exact Creating.pure .nil
  | cons node rest ih =>
    unfold spliceCreations
    cases himport : node.import? with
    | none =>
      dsimp only
      refine meets_splice_node himport ((ih hl).mono fun code _ hcode => ?_)
      exact (hcode.append_left node.tags).trans (List.perm_append_comm_assoc ..)
    | some request =>
      obtain ⟨m, rfl⟩ := Node.import?_eq_some_iff.1 himport
      dsimp only [Node.position, Node.mark]
      unfold splice
      refine Creating.bind (creating_resolve hload hl) fun found l₁ hrun hcreates hfound => ?_
      have hl₁ := hcreates.ahead hl
      rw [thereafter_of_done hrun]
      cases found with
      | none =>
        refine Creating.bind_last (ih hl₁) fun code _ hcode => Creating.pure ?_
        have hnothing : idsOf (resolveCreations fs library loading unit m.token.position request l) =
            [] := List.perm_nil.1 hfound.symm
        rw [idsOf_append, hnothing, List.nil_append]
        exact (hcode.append_left [m.tag]).trans (List.perm_append_comm_assoc ..)
      | some p =>
        have hfresh : Creating freshId l₁ [.node l₁.nextId] fun id _ => id = l₁.nextId := .freshId
        refine hfresh.bind (k := fun _ => spliceCreations (resolve fs library load unit)
          (resolveCreations fs library loading unit) rest) fun id l₂ hid hnode hnext => ?_
        refine Creating.bind_last (ih (hnode.ahead hl₁)) fun code _ hcode => Creating.pure ?_
        cases hid
        have htags : Node.tagsAll (moduleNode l₁.nextId m.token p :: .importing m request :: code) =
            l₁.nextId :: (Node.tagsAll p.nodes ++ m.tag :: Node.tagsAll code) := by
          simp [Node.tagsAll, Node.tags, moduleNode, Node.mark]
        rw [htags, idsOf_append]
        exact perm_module hfound hcode

theorem creating_linkText {unit : SourceUnit} {source : String} {l : Linker} (hl : Ahead l) :
    Creating (linkText fs library load unit source) l
      (textCreations fs library load loading unit source l) fun p _ =>
        Consists (textCreations fs library load loading unit source l) p.nodes := by
  rw [linkText_eq]
  unfold textCreations
  refine Creating.bind (creating_readText hl) fun p l₁ hrun hcreates hread => ?_
  rw [thereafter_of_done hrun]
  refine Creating.bind_last (creating_splice hload p.nodes (hcreates.ahead hl)) fun code _ hcode => ?_
  refine Creating.bind_last (Creating.change rfl rfl) fun _ _ _ => Creating.pure ?_
  unfold Consists
  rw [hread, idsOf_append]
  refine hcode.trans (List.perm_append_comm.trans ?_)
  simp [idsOf, Creation.ids]

omit hload in
theorem creating_linkFile (fuel : Nat) (path : Path) (origin : Origin) {l : Linker}
    (hl : Ahead l) :
    Creating (linkFile fs library fuel path origin) l
      (fileCreations fs library fuel path origin l) fun p _ =>
        Consists (fileCreations fs library fuel path origin l) p.nodes := by
  induction fuel generalizing path origin l with
  | zero => exact Drawn.nil l.nextId
  | succ fuel ih =>
    unfold linkFile fileCreations
    cases fs.read path with
    | error fault => exact Creating.fail
    | ok source => exact creating_linkText (fun path origin l hl => ih path origin hl) hl

end Files

/-- **Linking creates each node once.** Whatever it starts from, and whatever was linked before, the
numbers of the nodes that it creates are new and different from each other, also if it stops. If it
comes to its end, the program consists of the nodes that were created, and each of them has the name
that the scopes of its own text give it. -/
theorem creating_link (fs : FileSystem) (library : String) (start : Start) {l : Linker}
    (hl : Ahead l) :
    Creating (start.link fs library) l (start.creations fs library l) fun p _ =>
      Consists (start.creations fs library l) p.nodes := by
  cases start with
  | file path =>
    exact Creating.bind_last (creating_linkFile (fuelFor fs) path .user hl) fun p l' hp =>
      Creating.bind_last (Creating.change rfl rfl) fun _ _ _ => Creating.pure hp
  | text unit source =>
    exact creating_linkText (fun path origin l hl => creating_linkFile (fuelFor fs) path origin hl) hl

end Linking

end Catena

import Catena.Proofs.Linking.Plan
import Catena.Proofs.Tree.Naming
import Catena.Proofs.Tree.Recognition

/-!
# Texts without imports

A text that imports nothing is linked by itself: no file is asked for, and what linking gives is the
tree of the text, numbered from the next free number on, and the names that its scopes give to the
numbers (`run_linkText_plain`).
-/

namespace Catena

namespace Linking

variable {unit : SourceUnit} {source : String} {l : Linker}

/-- A text that passes and has no imports at the top has none at all. -/
theorem plain_of_program? {p : Program Unit} (h : program? source = some p)
    (himports : p.imports = []) (k : NodeId) :
    Node.AllIn Node.Plain (Node.numberAll k p.nodes).1 := by
  have hfirst := importsFirst_of_program? h k
  have hnone : (Node.numberAll k p.nodes).1.filterMap Node.import? = [] :=
    (Node.filterMap_import?_numberAll k p.nodes).trans himports
  generalize (Node.numberAll k p.nodes).1 = code at hfirst hnone ⊢
  cases hfirst with
  | plain hplain => exact hplain
  | importing => cases hnone

/-- A text that can be read is numbered from the next free number on. -/
theorem run_parse {p : Program Unit} (hp : Tree.ofSource "" source = .ok p) :
    (parse unit source).run l =
      .done { info := unit.info, nodes := (Node.numberAll l.nextId p.nodes).1 }
        { l with nextId := (Node.numberAll l.nextId p.nodes).2 } := by
  refine Meets.run_eq (meets_parse (fun q hq => ?_) (fun errors _ hq => ?_) fun error position _ hq => ?_)
  · cases hp.symm.trans hq
    exact ⟨rfl, rfl⟩
  · cases hp.symm.trans hq
  · cases hp.symm.trans hq

/-- A program that passes leaves the names that its scopes give. -/
theorem run_checkScopes {p : Program NodeId} (hpass : (Scope.analyse p).failed = false) :
    ∃ log, (checkScopes p).run l =
      .done () { l with log, scopes := l.scopes.extend (Scope.analyse p).table } := by
  refine ⟨(Scope.analyse p).notices.foldl
    (fun log d => Reporter.notice log d.message d.position) l.log, ?_⟩
  unfold checkScopes notice
  rw [Action.run_bind, Action.run_change, hpass]
  rfl

/-- Linking a text that can be read and passes is splicing its nodes. -/
theorem run_linkText (fs : FileSystem) (library : String)
    (load : Path → Origin → Linking (Program NodeId)) (unit : SourceUnit) {p : Program Unit}
    (hp : Tree.ofSource "" source = .ok p)
    (hpass : (Scope.analyse (p.number l.nextId).1).failed = false) :
    ∃ log, (linkText fs library load unit source).run l =
      (do
        let nodes ← splice (resolve fs library load unit) (Node.numberAll l.nextId p.nodes).1
        setFile unit.display
        return { info := unit.info, nodes } : Linking (Program NodeId)).run
        { l with
          log
          nextId := (Node.numberAll l.nextId p.nodes).2
          scopes := l.scopes.extend (Scope.analyse (p.number l.nextId).1).table } := by
  have hpass' : (Scope.analyse
    { info := unit.info, nodes := (Node.numberAll l.nextId p.nodes).1 }).failed = false := hpass
  obtain ⟨log, hcheck⟩ := run_checkScopes hpass'
    (l := { l with
      log := Reporter.setFile l.log unit.display, nextId := (Node.numberAll l.nextId p.nodes).2 })
  refine ⟨log, ?_⟩
  unfold linkText
  rw [Action.run_bind]
  dsimp only [setFile]
  rw [Action.run_change]
  dsimp only
  rw [Action.run_bind, run_parse hp]
  dsimp only
  rw [Action.run_bind, hcheck]
  rfl

/-- A text that can be read and does not pass is refused when its nodes have been numbered. -/
theorem run_linkText_of_failed (fs : FileSystem) (library : String)
    (load : Path → Origin → Linking (Program NodeId)) (unit : SourceUnit) {p : Program Unit}
    (hp : Tree.ofSource "" source = .ok p)
    (hfailed : (Scope.analyse (p.number l.nextId).1).failed) :
    ∃ e log, (linkText fs library load unit source).run l =
      .stopped e { l with log, nextId := (Node.numberAll l.nextId p.nodes).2 } := by
  have hfailed' : (Scope.analyse
    { info := unit.info, nodes := (Node.numberAll l.nextId p.nodes).1 }).failed = true := hfailed
  unfold linkText
  rw [Action.run_bind]
  dsimp only [setFile]
  rw [Action.run_change]
  dsimp only
  rw [Action.run_bind, run_parse hp]
  dsimp only
  unfold checkScopes notice
  rw [Action.run_bind, Action.run_bind, Action.run_change, hfailed']
  exact ⟨_, _, rfl⟩

/-- A text that spells no program in order is refused, and nothing is named. -/
theorem run_linkText_refused (fs : FileSystem) (library : String)
    (load : Path → Origin → Linking (Program NodeId)) (unit : SourceUnit) (l : Linker)
    (h : program? source = none) : ∃ e log next, l.nextId ≤ next ∧
      (linkText fs library load unit source).run l = .stopped e { l with log, nextId := next } := by
  cases hp : Tree.ofSource "" source with
  | ok p =>
    have hfailed : (Scope.analyse (p.number l.nextId).1).failed = true := by
      have hnumber := Scope.failed_number p 0 l.nextId
      unfold program? at h
      rw [hp] at h
      dsimp only at h
      split at h
      · next hfailed => exact hnumber ▸ hfailed
      · cases h
    obtain ⟨e, log, hrun⟩ := run_linkText_of_failed fs library load unit hp hfailed
    exact ⟨e, log, _, (Node.drawn_numberAll l.nextId p.nodes).le, hrun⟩
  | error errors =>
    unfold linkText
    rw [Action.run_bind]
    dsimp only [setFile]
    rw [Action.run_change]
    dsimp only
    rw [Action.run_bind]
    have hparse : Meets (parse unit source) { l with log := Reporter.setFile l.log unit.display }
        (fun _ _ => False)
        fun _ l' => ∃ log next, l.nextId ≤ next ∧ l' = { l with log, nextId := next } := by
      refine meets_parse (fun p hread => ?_) (fun _ _ _ => ⟨_, _, Nat.le_refl _, rfl⟩)
        fun _ _ made _ => ⟨_, _, Nat.le_add_right _ made, rfl⟩
      cases hp.symm.trans hread
    cases hrun : (parse unit source).run { l with log := Reporter.setFile l.log unit.display } with
    | done p l' => exact (hparse.of_done hrun).elim
    | stopped e l' =>
      obtain ⟨log, next, hnext, rfl⟩ := hparse.of_stopped hrun
      exact ⟨e, log, next, hnext, rfl⟩

theorem splice_node (follow : Position → Import → Linking (Option (Program NodeId)))
    {node : Node NodeId} (hnode : node.import? = none) (rest : Code) :
    splice follow (node :: rest) =
      splice follow rest >>= fun others => pure (node :: others) := by
  cases node with
  | importing m request => cases hnode
  | _ => rfl

theorem run_splice_plain {follow : Position → Import → Linking (Option (Program NodeId))}
    {nodes : Code} (hplain : Node.AllIn Node.Plain nodes) :
    (splice follow nodes).run l = .done nodes l :=
  Meets.run_eq (meets_splice_plain hplain)

/-- **A text without imports is linked to its own tree.** -/
theorem run_linkText_plain (fs : FileSystem) (library : String)
    (load : Path → Origin → Linking (Program NodeId)) (unit : SourceUnit) {p : Program Unit}
    (hp : Tree.ofSource "" source = .ok p)
    (hpass : (Scope.analyse (p.number l.nextId).1).failed = false)
    (hplain : Node.AllIn Node.Plain (Node.numberAll l.nextId p.nodes).1) :
    ∃ log, (linkText fs library load unit source).run l =
      .done { info := unit.info, nodes := (Node.numberAll l.nextId p.nodes).1 }
        { l with
          log
          nextId := (Node.numberAll l.nextId p.nodes).2
          scopes := l.scopes.extend (Scope.analyse (p.number l.nextId).1).table } := by
  obtain ⟨log, hlink⟩ := run_linkText fs library load unit hp hpass
  refine ⟨Reporter.setFile log unit.display, ?_⟩
  rw [hlink, Action.run_bind, run_splice_plain hplain]
  rfl

end Linking

end Catena

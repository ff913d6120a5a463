import Catena.Proofs.Evaluation.Escape
import Catena.Proofs.Session.Together

/-!
# Sequences that a session keeps

A step of a session defines and calls a function that returns a sequence with its local. Whatever the
session has run before, the sequence finds the local as often as it is run, and a later step finds the
name outside of the function (`Arises.runSource_keeping`): numbers that are still to be drawn have no
names (`Arises.numbered`), as long as there are words for them.
-/

namespace Catena

open Evaluation Linking

/-- No code changes the limit. -/
theorem Evaluation.maxDepth_interpret (fuel : Nat) (scopes : ScopeTable) (p : Program NodeId)
    (s : Interpreter) : ((interpret fuel scopes p).run s).state.maxDepth = s.maxDepth := by
  have hframe := (exec_ends fuel p.nodes (begun scopes p s)).keeps.toFrame.maxDepth
  have hbegun : (begun scopes p s).maxDepth = s.maxDepth := maxDepth_opened _ _
  rw [hbegun] at hframe
  rw [run_interpret]
  cases hrun : (exec fuel p.nodes).run (begun scopes p s) with
  | stopped halt t =>
    rw [hrun] at hframe
    exact hframe
  | done a t =>
    rw [hrun] at hframe
    unfold closed
    dsimp only [Outcome.state]
    split <;> exact hframe

namespace Session

variable {config : Config} {s : Session} {fs : FileSystem}

theorem Arises.maxDepth_eq (h : Arises config s) : s.interpreter.maxDepth = defaultMaxDepth :=
  h.invariant (I := fun s => s.maxDepth = defaultMaxDepth) (fun _ _ => rfl) (fun _ _ hs => hs)
    (fun _ _ _ hs => hs) fun s _ _ _ p _ l _ hs => (maxDepth_interpret ampleFuel l.scopes p s).trans hs

theorem runProgram_of_done {scopes : ScopeTable} {p : Program NodeId} {value : Option Value}
    {t : Interpreter} (h : (interpret ampleFuel scopes p).run s.interpreter = .done value t)
    (log : FileLog) :
    s.runProgram scopes p log = ⟨.ok value, { s with interpreter := t }, log⟩ := by
  unfold runProgram
  rw [h]

/-- A step that uses a name pushes the value that it is bound to. -/
theorem runSource_name (hprint : s.config.printTree = false) {x source : String}
    (hsource : Source.Spaced [(.identifier, x)] source.toList)
    (hname : s.interpreter.scopes.nameOf s.interpreter.nextId x = x) {value : Value}
    {home : NamespaceId}
    (hvalue : (s.interpreter.spaces.get s.interpreter.current).function? x =
      some (.constant value home))
    (hdepth : 1 ≤ s.interpreter.maxDepth) (log : FileLog)
    (hwords : (s.runSource fs source log).session.WithinWords) :
    (s.runSource fs source log).result = .ok (some value) := by
  obtain ⟨t, log', hlink⟩ := link_name hsource fs s.config.library (unit fs) (s.linker (unit fs).key log)
  rw [runSource_of_link hprint hlink hwords]
  obtain ⟨p, k, u, hlink', hrun, -⟩ := pushes_name (s := (s.linked _).interpreter) hsource fs
    s.config.library (unit fs) (l := s.linker (unit fs).key log) rfl hname hvalue hdepth (ampleFuel - 1)
  cases hlink.symm.trans hlink'
  rw [show ampleFuel - 1 + 1 = ampleFuel from rfl] at hrun
  rw [runProgram_of_done hrun]

/-- **A sequence keeps the local of its function, whatever the session has run before.** After the step
`w let x def f { v let x { x } } f` the sequence on top, run any number of times, pushes `v` each time,
and a step `x` gives `w`. -/
theorem Arises.runSource_keeping (hs : Arises config s) (hprint : s.config.printTree = false)
    {f x : String} {v w : String × Literal} (hne : f ≠ x) {source : String}
    (hsource : Source.Spaced (keeping f x v w) source.toList)
    (hunbound : (s.interpreter.spaces.get s.interpreter.current).isDefined f = false) (log : FileLog)
    (hwords : (s.runSource fs source log).session.WithinWords) : ∃ q t,
      (s.runSource fs source log).result = .ok (some (.sequence q)) ∧
      (s.runSource fs source log).session = t ∧
      t.interpreter.stack.items = .sequence q :: s.interpreter.stack.items ∧
      (∀ fuel k, (execTimes (fuel + 1) q.body k).run t.interpreter = .done ()
        { t.interpreter with
          stack := ⟨List.replicate k (.literal v.2) ++ t.interpreter.stack.items⟩ }) ∧
      ∀ source' log', Source.Spaced [(.identifier, x)] source'.toList →
        (t.runSource fs source' log').session.WithinWords →
        (t.runSource fs source' log').result = .ok (some (.literal w.2)) := by
  obtain ⟨m, log₀, hlink⟩ := link_keeping hsource fs s.config.library (unit fs)
    (s.linker (unit fs).key log)
  let k : Linker :=
    { s.linker (unit fs).key log with
      log := log₀, nextId := s.interpreter.nextId + 8, scopes := keptTable s.interpreter.nextId f x }
  let p : Program NodeId := ⟨(unit fs).info, keepingCode s.interpreter.nextId m f x v.2 w.2⟩
  have hlink' : (linkSource fs s.config.library (unit fs) source).run (s.linker (unit fs).key log) =
      .done p k := hlink
  have hstart : s.WithinWords :=
    Nat.le_trans (s.nextId_le_finish fs _ (.text (unit fs) source) _ log) hwords
  have hlimit : 1 ≤ s.interpreter.maxDepth := by
    rw [hs.maxDepth_eq]
    decide
  obtain ⟨u, hrun, hstack, -, hdepth, hmaxDepth, hnext, hkept⟩ :=
    interpret_keeping hne m v.2 w.2 (s := (s.linked k).interpreter) (hs.numbered hstart).ahead
      hs.secluded.built.current hunbound hlimit (unit fs).info rfl (ampleFuel - 2)
  rw [show ampleFuel - 2 + 2 = ampleFuel from rfl] at hrun
  rw [runSource_of_link hprint hlink' hwords, runProgram_of_done hrun]
  have hroom : 1 ≤ u.maxDepth := Nat.le_trans hlimit (Nat.le_of_eq hmaxDepth.symm)
  refine ⟨_, _, rfl, rfl, hstack, ?_, ?_⟩
  · intro fuel k
    exact hkept.execTimes (hdepth ▸ hroom) m fuel k
  · intro source' log' hsource' hwords'
    obtain ⟨home, hvalue⟩ := hkept.value
      (Tree.mark_notMem_of_isWord (hsource'.inClass _ List.mem_cons_self).1)
    exact runSource_name (s := { s.linked k with interpreter := u }) hprint hsource'
      (hkept.nameOf_later (Nat.le_of_eq hnext.symm) x) hvalue hroom log' hwords'

end Session

end Catena

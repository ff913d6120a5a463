import Catena.Proofs.Evaluation.Translation
import Catena.Proofs.Linking.Likeness

/-!
# States that are the same

States are compared but for the numbers of nodes and for places in texts (`Interpreter.Same`):
sequences and functions have the same code, and what names stand for in it is the same by the scopes of
either state. Runs of the same code from such states end in such states (`Translation.pairs_run`,
`Interpreter.same_of_states`).
-/

namespace Catena

open Evaluation Linking

/-- The numbers that a state has drawn, and the names that they have. -/
def Interpreter.register (s : Interpreter) : Register :=
  ⟨0, s.nextId, s.scopes⟩

/-- Values with the same code, for which two registers have the names. -/
abbrev Register.SameValue (R R' : Register) : Value → Value → Prop :=
  Value.Alike (fun _ _ => True) (R.Same R')

/-- States that are the same but for numbers of nodes and places in texts: they have the same values,
namespaces, loaders and streams, with the same code in them. -/
structure Interpreter.Same (s s' : Interpreter) : Prop where
  stack : List.Forall₂ (s.register.SameValue s'.register) s.stack.items s'.stack.items
  current : s'.current = s.current
  spaces : s.spaces.Alike (.refl _) (fun _ _ => True) (s.register.Same s'.register) s'.spaces
  loaders : List.Forall₂ (Loader.Alike (fun _ _ => True) (s.register.Same s'.register))
    s.loaders.loaders s'.loaders.loaders
  file : s'.file = s.file
  depth : s'.depth = s.depth
  maxDepth : s'.maxDepth = s.maxDepth
  console : s'.console = s.console
  random : s'.random = s.random

/-- The same code under two registers, as a translation. -/
def Register.translation (R R' : Register) : Translation where
  marks := .spelling
  supply m m' := R.next ≤ m ∧ R'.next ≤ m'
  error := (· = ·)
  rename := .refl _
  table := R.table
  table' := R'.table
  drawn id id' := (R.first ≤ id ∧ id < R.next) ∧ R'.first ≤ id' ∧ id' < R'.next
  node _ := True
  stock _ := True
  position_synthetic := trivial
  word_refl _ := rfl
  tag_of_supply _ := trivial
  supply_succ h := ⟨Nat.le_succ_of_le h.1, Nat.le_succ_of_le h.2⟩
  error_refl _ := rfl
  error_shape e _ h := by rw [show _ = e.lexeme from h]
  error_unknown _ := rfl
  node_literal _ _ := trivial
  node_array _ _ := trivial
  node_sequence _ _ _ := trivial
  definition _ := rfl
  member _ := rfl
  importing _ _ _ :=
    ⟨fun _ _ => Equiv.refl_apply _, fun _ _ => Equiv.refl_apply _, fun _ => Equiv.refl_apply _⟩
  program _ := ⟨rfl, fun _ _ => trivial⟩

section Same

variable {R R' S S' : Register} {s s' t t' : Interpreter}

theorem Register.codes_iff {c c' : Code} : (R.translation R').Codes c c' ↔ R.Same R' c c' := by
  constructor
  · intro h
    refine Node.Like.monoAll (.refl _) (fun id id' x x' _ hname => ?_) h.alike
    obtain ⟨⟨hdrawn, hdrawn'⟩, hwritten, hname⟩ := hname
    obtain rfl : x' = x := hwritten
    exact ⟨hdrawn, hdrawn', rfl, hname⟩
  · intro h
    refine ⟨Node.Like.monoAll (.refl _) (fun id id' x x' _ hname => ?_) h,
      Node.allIn_of_forall (fun _ => trivial) c⟩
    obtain ⟨hdrawn, hdrawn', rfl, hname⟩ := hname
    exact ⟨⟨hdrawn, hdrawn'⟩, rfl, hname⟩

/-- States that are the same are so for every translation with more numbers. -/
theorem Interpreter.Same.states (h : s.Same s') (hS : s.register.Extends S)
    (hS' : s'.register.Extends S') {m m' : NodeId} (hm : S.next ≤ m) (hm' : S'.next ≤ m')
    (depth : Nat) (file : Option String) :
    (S.translation S').correspondence.States
      { s with scopes := S.table, nextId := m, depth, file }
      { s' with scopes := S'.table, nextId := m', depth, file } := by
  have hcode : ∀ c c', s.register.Same s'.register c c' → (S.translation S').Codes c c' :=
    fun c c' hc => Register.codes_iff.2 (hc.mono hS hS')
  have htag : ∀ i i' : NodeId, True → (S.translation S').marks.tag i i' := fun _ _ h => h
  refine ⟨h.stack.imp fun _ _ => .mono htag hcode, h.console, h.random, ⟨hm, hm'⟩, ?_⟩
  exact
    { current := h.current
      file := rfl
      spaces := h.spaces.mono htag hcode
      stock := trivial
      loaders := h.loaders.imp fun _ _ => .mono htag hcode
      scopes := rfl
      scopes' := rfl
      depth := rfl
      maxDepth := h.maxDepth }

/-- A run draws numbers and gives no names. -/
theorem Interpreter.extends_of_states (h : (S.translation S').correspondence.States t t') :
    S.Extends t.register ∧ S'.Extends t'.register := by
  have hplace : (S.translation S').Place t t' := h.place
  refine ⟨⟨Nat.zero_le _, h.nextId.1, fun id _ _ => ?_⟩, ⟨Nat.zero_le _, h.nextId.2, fun id _ _ => ?_⟩⟩
  · exact congrArg (fun table : ScopeTable => table.names.lookup id) hplace.scopes
  · exact congrArg (fun table : ScopeTable => table.names.lookup id) hplace.scopes'

theorem Interpreter.same_of_states (h : (S.translation S').correspondence.States t t') :
    t.Same t' := by
  have hplace : (S.translation S').Place t t' := h.place
  obtain ⟨hS, hS'⟩ := extends_of_states h
  have hcode : ∀ c c', (S.translation S').Codes c c' → t.register.Same t'.register c c' :=
    fun c c' hc => (Register.codes_iff.1 hc).mono hS hS'
  have htag : ∀ i i' : NodeId, (S.translation S').marks.tag i i' → True := fun _ _ _ => trivial
  exact
    { stack := h.stack.imp fun _ _ => .mono htag hcode
      current := hplace.current
      spaces := hplace.spaces.mono htag hcode
      loaders := hplace.loaders.imp fun _ _ => .mono htag hcode
      file := hplace.file
      depth := hplace.depth
      maxDepth := hplace.maxDepth
      console := h.console
      random := h.random }

theorem Interpreter.Same.moved (h : t.Same t') (current : NamespaceId) (file : Option String) :
    { t with current, file }.Same { t' with current, file } :=
  { h with current := rfl, file := rfl }

end Same

theorem Interpreter.placed_eq {t : Interpreter} {current : NamespaceId} {depth : Nat}
    {file : Option String} (hcurrent : t.current = current) (hdepth : t.depth = depth)
    (hfile : t.file = file) : { t with current, depth, file } = t := by
  rw [← hcurrent, ← hdepth, ← hfile]

end Catena

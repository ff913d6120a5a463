import Catena.Proofs.FileSystem
import Catena.Proofs.Tree.Naming

/-!
# What a text can spell

A tree that was read from a text has no imported programs in it, and its imports are such as can be
written (`Import.Proper`): a bare namespace is a word, so it has no slash in it, and an import of
every public name gives none of them another name (`Tree.allIn_read_of_ofSource`).
-/

namespace Catena

/-- An import as it can be written. -/
structure Import.Proper (request : Import) : Prop where
  bare : ¬request.isExternal → SlashFree request.source
  star : request.isStar → request.rename = none

/-- A node as it can be read: an import is one that can be written, and nothing has been put in
yet. -/
def Node.Read {ι : Type} : Node ι → Prop
  | .importing _ request => request.Proper
  | .program _ _ _ => False
  | _ => True

/-- A token whose text has no slash in it if it is a word. -/
def Token.Proper (t : Token) : Prop :=
  t.kind = .identifier → SlashFree t.lexeme

/-- Numbering does not change what can be read. -/
theorem Node.allIn_read_numberAll (k : NodeId) (nodes : List (Node Unit))
    (h : Node.AllIn Node.Read nodes) : Node.AllIn Node.Read (Node.numberAll k nodes).1 := by
  refine Node.allIn_numberAll (fun node n hread => ?_) k nodes h
  cases node <;> simp only [Node.number] <;> exact hread

namespace Tree

theorem proper_of_mem_scan {source : String} {scanned : Source.Scanned}
    (h : Source.scan source = .ok scanned) {t : Token} (ht : t ∈ scanned.tokens) : t.Proper := by
  intro hkind hslash
  have hclass := Source.inClass_of_mem_scan h ht
  rw [hkind] at hclass
  exact absurd (Source.isWordChar_of_mem hclass.1 hslash) (by decide)

/-- A place that is not a file is a word. -/
theorem Place.slashFree {place : Place} (h : ∀ t ∈ place.tokens, t.Proper)
    (hbare : ¬hasEnding sourceExtension place.source) : SlashFree place.source := by
  cases place with
  | bare less name greater => exact h name.token (by simp [Place.tokens]) name.spelled
  | file path => exact absurd path.value.2.1 hbare

theorem Request.proper {r : Request} (h : ∀ t ∈ r.tokens, t.Proper) : r.import.Proper where
  bare := by
    cases r with
    | whole place => exact Place.slashFree h
    | taking targets word place rename single =>
      exact Place.slashFree fun t ht => h t (by simp [Request.tokens, ht])
  star := r.rename_of_isStar

/-- **A text spells no imported programs and only imports that can be written.** -/
theorem allIn_read_of_ofSource {name source : String} {p : Program Unit}
    (h : ofSource name source = .ok p) : Node.AllIn Node.Read p.nodes := by
  refine allIn_of_tokens h (fun _ hscan _ => proper_of_mem_scan hscan) (fun p hp => ?_)
    fun head _ _ => by cases head <;> trivial
  cases p with
  | importing word request => exact Request.proper fun t ht => hp t (List.mem_cons_of_mem _ ht)
  | _ => trivial

end Tree

end Catena

import Catena.Proofs.Tree.Naming

/-!
# Where nodes stand

The tokens of a text stand on its lines, which are counted from one, and the tokens of a node that was
read are tokens of its text. So no node that was read stands at the place that stands in for none
(`Tree.allIn_sited_of_ofSource`); only the nodes that currying makes do.
-/

namespace Catena

/-- The places at which a node can be reported have the property `P`: that of its token, and for a use
of a name in a mounted namespace that of the namespace. -/
def Node.Sited {ι : Type} (P : Position → Prop) : Node ι → Prop
  | .identifier m qualifier _ => P m.token.position ∧ ∀ token ∈ qualifier, P token.position
  | node => P node.position

/-! ## Tokens -/

/-- A place on a line of a text. -/
def Position.OnLine (p : Position) : Prop :=
  1 ≤ p.line

namespace Position

theorem OnLine.ne_synthetic {p : Position} (h : p.OnLine) : p ≠ .synthetic := by
  rintro rfl
  exact Nat.not_succ_le_zero 0 h

theorem onLine_start : start.OnLine :=
  Nat.le_refl 1

theorem OnLine.after {p : Position} (h : p.OnLine) (cs : List Char) : (p.after cs).OnLine := by
  induction cs generalizing p with
  | nil => exact h
  | cons c cs ih =>
    refine ih ?_
    unfold next
    split
    · exact Nat.le_add_left 1 p.line
    · exact h

end Position

namespace Source

theorem onLine_of_mem_locate {ps : List Piece} {p : Position} (hp : p.OnLine) {t : Token}
    (ht : t ∈ (locate p ps).filterMap token?) : t.position.OnLine := by
  induction ps generalizing p with
  | nil => cases ht
  | cons piece ps ih =>
    have hrest := ih (hp.after piece.text)
    cases piece with
    | token kind text =>
      rcases List.mem_cons.1 ht with rfl | ht
      · exact hp
      · exact hrest ht
    | _ => exact hrest ht

theorem onLine_of_mem_scan {source : String} {scanned : Scanned} (h : scan source = .ok scanned)
    {t : Token} (ht : t ∈ scanned.tokens) : t.position.OnLine := by
  unfold scan at h
  dsimp only at h
  split at h
  · cases h
    exact onLine_of_mem_locate Position.onLine_start ht
  · cases h

end Source

/-! ## Nodes -/

namespace Tree

/-- **Nodes that were read stand on a line of their text.** -/
theorem allIn_sited_of_ofSource {name source : String} {p : Program Unit}
    (h : ofSource name source = .ok p) : Node.AllIn (Node.Sited Position.OnLine) p.nodes := by
  refine allIn_of_tokens (Q := fun t => t.position.OnLine) h
    (fun _ hscan _ => Source.onLine_of_mem_scan hscan) (fun p hp => ?_) fun head body hhead => ?_
  · cases p with
    | binding visibility word name => exact hp name.token (by simp [Phrase.tokens])
    | literal value => exact hp value.token (by simp [Phrase.tokens])
    | arithmetic op => exact hp op.token (by simp [Phrase.tokens])
    | condition form => exact hp form.token (by simp [Phrase.tokens])
    | comparison op => exact hp op.token (by simp [Phrase.tokens])
    | importing word request => exact hp word.token (by simp [Phrase.tokens])
    | array opening items closing => exact hp opening.token (by simp [Phrase.tokens])
    | name name =>
      exact ⟨hp name.token (by simp [Phrase.tokens]), fun t h => absurd h (Option.not_mem_none t)⟩
    | member qualifier dot name =>
      refine ⟨hp name.token (by simp [Phrase.tokens]), ?_⟩
      rintro token ⟨⟩
      exact hp qualifier.token (by simp [Phrase.tokens])
  · cases head with
    | sequence brace => exact hhead brace.token (by simp [Head.tokens])
    | function visibility word name conditions brace =>
      exact hhead name.token (by simp [Head.tokens])

end Tree

/-- Numbering does not move nodes. -/
theorem Node.sited_number {P : Position → Prop} (node : Node Unit) (n : NodeId)
    (h : node.Sited P) : (node.number n).1.Sited P := by
  cases node <;> simp only [Node.number] <;> exact h

end Catena

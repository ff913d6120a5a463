import Catena.Proofs.Source.Layout
import Catena.Proofs.Tree.Recognition

/-!
# Names and numbers of nodes

The names in a tree that was read are words (`Tree.allIn_named_of_ofSource`), because a derivation
takes them from its identifiers, and so are qualifiers and the names that imports give
(`Tree.allIn_spelled_of_ofSource`). Numbering leaves names as they are and gives no number twice
(`Node.drawn_numberAll`). It gives as many numbers as reading makes nodes
(`Tree.nodesMade_of_ofScanned`).
-/

namespace Catena

/-! ## Names -/

/-- What a node defines, binds or uses has a name with the property `P`. -/
def Node.Named {ι : Type} (P : String → Prop) : Node ι → Prop
  | .definition _ signature _ => P signature.name
  | .identifier _ _ name => P name
  | .binding _ name _ => P name
  | _ => True

/-- What a node says besides, where it looks for a name or which one it gives, has the property
`P`. -/
def Node.Spelled {ι : Type} (P : String → Prop) : Node ι → Prop
  | .identifier _ qualifier _ => ∀ token ∈ qualifier, P token.lexeme
  | .importing _ request => ∀ name ∈ request.rename, P name
  | _ => True

namespace Tree

/-- The names in a text have no mark of locals in them. -/
theorem mark_notMem_of_isWord {cs : List Char} (h : Source.isWord cs) : '$' ∉ cs :=
  fun hmark => absurd (Source.isWordChar_of_mem h hmark) (by decide)

/-- The identifiers in the tokens of a text are words. -/
theorem mark_notMem_of_mem_scan {source : String} {scanned : Source.Scanned}
    (h : Source.scan source = .ok scanned) {t : Token} (ht : t ∈ scanned.tokens)
    (hkind : t.kind = .identifier) : '$' ∉ t.lexeme.toList := by
  have hclass := Source.inClass_of_mem_scan h ht
  rw [hkind] at hclass
  exact mark_notMem_of_isWord hclass.1

/-- **The names in a tree that was read are words.** -/
theorem allIn_named_of_ofSource {name source : String} {p : Program Unit}
    (h : ofSource name source = .ok p) :
    Node.AllIn (Node.Named fun x => '$' ∉ x.toList) p.nodes := by
  refine allIn_of_tokens h (fun _ hscan _ => mark_notMem_of_mem_scan hscan) (fun p hp => ?_)
    fun head body hhead => ?_
  · cases p with
    | binding visibility word name => exact hp name.token (by simp [Phrase.tokens]) name.spelled
    | name name => exact hp name.token (by simp [Phrase.tokens]) name.spelled
    | member qualifier dot name => exact hp name.token (by simp [Phrase.tokens]) name.spelled
    | _ => trivial
  · cases head with
    | sequence brace => trivial
    | function visibility word name conditions brace =>
      exact hhead name.token (by simp [Head.tokens]) name.spelled

theorem allIn_spelled_of_ofSource {name source : String} {p : Program Unit}
    (h : ofSource name source = .ok p) :
    Node.AllIn (Node.Spelled fun x => '$' ∉ x.toList) p.nodes := by
  refine allIn_of_tokens h (fun _ hscan _ => mark_notMem_of_mem_scan hscan) (fun p hp => ?_)
    fun head _ _ => by cases head <;> trivial
  cases p with
  | name name => exact fun token htoken => absurd htoken (Option.not_mem_none token)
  | member qualifier dot name =>
    rintro token ⟨⟩
    exact hp qualifier.token (by simp [Phrase.tokens]) qualifier.spelled
  | importing word request =>
    intro name hname
    cases request with
    | whole place => cases hname
    | taking targets word' place rename single =>
      obtain ⟨r, rfl, rfl⟩ := Option.map_eq_some_iff.1 hname
      exact hp r.name.token (by simp [Phrase.tokens, Request.tokens, Renaming.tokens])
        r.name.spelled
  | _ => trivial

end Tree

/-! ## Numbers -/

theorem Node.named_number {P : String → Prop} (node : Node Unit) (n : NodeId) (h : node.Named P) :
    (node.number n).1.Named P := by
  cases node <;> simp only [Node.number] <;> exact h

theorem Node.spelled_number {P : String → Prop} (node : Node Unit) (n : NodeId)
    (h : node.Spelled P) : (node.number n).1.Spelled P := by
  cases node <;> simp only [Node.number] <;> exact h

mutual

/-- The numbers of a node and of what is inside it. -/
def Node.tags : Node NodeId → List NodeId
  | .sequence m _ body => m.tag :: Node.tagsAll body
  | .definition m _ body => m.tag :: Node.tagsAll body
  | .program m _ nodes => m.tag :: Node.tagsAll nodes
  | node => [node.mark.tag]

/-- The numbers of some code. -/
def Node.tagsAll : Code → List NodeId
  | [] => []
  | node :: rest => node.tags ++ Node.tagsAll rest

end

/-- The numbers are different and drawn from `n` up to `next`. -/
structure Drawn (n : NodeId) (tags : List NodeId) (next : NodeId) : Prop where
  nodup : tags.Nodup
  from_le : ∀ k ∈ tags, n ≤ k
  lt_next : ∀ k ∈ tags, k < next
  le : n ≤ next

theorem Drawn.nil (n : NodeId) : Drawn n [] n :=
  ⟨List.nodup_nil, by simp, by simp, Nat.le_refl n⟩

theorem Drawn.single (n : NodeId) : Drawn n [n] (n + 1) :=
  ⟨by simp, by simp, by simp, Nat.le_succ n⟩

theorem Drawn.append {n next last : NodeId} {tags later : List NodeId} (h : Drawn n tags next)
    (h' : Drawn next later last) : Drawn n (tags ++ later) last where
  nodup := by
    refine List.nodup_append.2 ⟨h.nodup, h'.nodup, ?_⟩
    rintro k hk _ hk' rfl
    exact absurd (h.lt_next k hk) (Nat.not_lt.2 (h'.from_le k hk'))
  from_le k hk := by
    rcases List.mem_append.1 hk with hk | hk
    · exact h.from_le k hk
    · exact Nat.le_trans h.le (h'.from_le k hk)
  lt_next k hk := by
    rcases List.mem_append.1 hk with hk | hk
    · exact Nat.lt_of_lt_of_le (h.lt_next k hk) h'.le
    · exact h'.lt_next k hk
  le := Nat.le_trans h.le h'.le

/-- A node is numbered after what is inside it. -/
theorem Drawn.cons {n next : NodeId} {tags : List NodeId} (h : Drawn n tags next) :
    Drawn n (next :: tags) (next + 1) where
  nodup := List.nodup_cons.2 ⟨fun hmem => Nat.lt_irrefl next (h.lt_next next hmem), h.nodup⟩
  from_le := List.forall_mem_cons.2 ⟨h.le, h.from_le⟩
  lt_next := List.forall_mem_cons.2 ⟨Nat.lt_succ_self next, fun k hk => Nat.lt_succ_of_lt (h.lt_next k hk)⟩
  le := Nat.le_succ_of_le h.le

theorem Drawn.skip {n next last : NodeId} {tags : List NodeId} (h : Drawn next tags last)
    (hn : n ≤ next) : Drawn n tags last :=
  ⟨h.nodup, fun k hk => Nat.le_trans hn (h.from_le k hk), h.lt_next, Nat.le_trans hn h.le⟩

mutual

theorem Node.drawn_number (n : NodeId) (node : Node Unit) :
    Drawn n (node.number n).1.tags (node.number n).2 := by
  cases node with
  | sequence m block body =>
    simp only [Node.number, Node.tags]
    exact (Node.drawn_numberAll n body).cons
  | definition m signature body =>
    simp only [Node.number, Node.tags]
    exact (Node.drawn_numberAll n body).cons
  | program m info nodes =>
    simp only [Node.number, Node.tags]
    exact (Node.drawn_numberAll n nodes).cons
  | literal m value | arithmetic m op | comparison m op | condition m form
  | identifier m qualifier name | importing m request | binding m name isPublic | array m items =>
    simp only [Node.number, Node.tags]
    exact Drawn.single n

/-- **No number is given twice.** -/
theorem Node.drawn_numberAll (n : NodeId) (nodes : List (Node Unit)) :
    Drawn n (Node.tagsAll (Node.numberAll n nodes).1) (Node.numberAll n nodes).2 := by
  cases nodes with
  | nil =>
    simp only [Node.numberAll, Node.tagsAll]
    exact Drawn.nil n
  | cons node rest =>
    simp only [Node.numberAll, Node.tagsAll]
    exact (Node.drawn_number n node).append (Node.drawn_numberAll _ rest)

end

mutual

theorem Node.next_number (n : NodeId) (node : Node Unit) :
    (node.number n).2 = n + (node.number 0).2 := by
  cases node with
  | sequence m block body =>
    simp only [Node.number]
    rw [Node.next_numberAll n body, Nat.add_assoc]
  | definition m signature body =>
    simp only [Node.number]
    rw [Node.next_numberAll n body, Nat.add_assoc]
  | program m info nodes =>
    simp only [Node.number]
    rw [Node.next_numberAll n nodes, Nat.add_assoc]
  | literal m value | arithmetic m op | comparison m op | condition m form
  | identifier m qualifier name | importing m request | binding m name isPublic | array m items =>
    simp only [Node.number, Nat.zero_add]

/-- How many numbers some code draws does not depend on the first. -/
theorem Node.next_numberAll (n : NodeId) (nodes : List (Node Unit)) :
    (Node.numberAll n nodes).2 = n + (Node.numberAll 0 nodes).2 := by
  cases nodes with
  | nil => rfl
  | cons node rest =>
    simp only [Node.numberAll]
    rw [Node.next_numberAll (node.number n).2 rest, Node.next_numberAll (node.number 0).2 rest,
      Node.next_number n node, Nat.add_assoc]

end

/-! ## How many nodes a text makes -/

namespace Tree

section Made

variable {finish : Position} {t : Token} {ts rest : List Token} {depth made : Nat}

theorem nodesMade_leaf {node : Node Unit} (h : item finish t ts = .ok (.leaf node, rest)) :
    nodesMade finish depth made (t :: ts) = nodesMade finish depth (made + 1) rest := by
  have hbrace := (stops_of_item h).2
  rw [nodesMade, h]
  intro _ _ hclose
  rw [hbrace] at hclose
  cases hclose

theorem nodesMade_opens {opening : Opening} (h : item finish t ts = .ok (.opens opening, rest)) :
    nodesMade finish depth made (t :: ts) = nodesMade finish (depth + 1) made rest := by
  have hbrace := (stops_of_item h).2
  rw [nodesMade, h]
  intro _ _ hclose
  rw [hbrace] at hclose
  cases hclose

theorem nodesMade_close (brace : Punct .rightBrace) :
    nodesMade finish (depth + 1) made (brace.token :: ts) = nodesMade finish depth (made + 1) ts := by
  have hbrace := (TokenKind.isSymbol_iff _).2 brace.spelled
  rw [nodesMade.eq_def]
  simp only [hbrace]

/-- Reading makes the nodes that are derived. -/
theorem nodesMade_derivation (d : Derivation) (depth made : Nat) (hrest : Ends rest) :
    nodesMade finish depth made (d.tokens ++ rest) =
      nodesMade finish depth (made + (Node.numberAll 0 d.nodes).2) rest := by
  induction d generalizing depth made rest with
  | nil => rfl
  | phrase p more ih =>
    have hcount : (Node.numberAll 0 (p.node :: more.nodes)).2 = 1 + (Node.numberAll 0 more.nodes).2 := by
      rw [Node.numberAll]
      cases p <;> exact Node.next_numberAll 1 more.nodes
    rw [Derivation.tokens, List.append_assoc]
    obtain ⟨t, ts, hts⟩ := exists_cons_phrase p (more.tokens ++ rest)
    rw [hts, nodesMade_leaf (item_phrase p (more.stops hrest) hts), ih _ _ hrest, Derivation.nodes,
      hcount, Nat.add_assoc]
  | block head body brace more ihbody ihmore =>
    have hcount : (Node.numberAll 0 (head.node body.nodes :: more.nodes)).2 =
        (Node.numberAll 0 body.nodes).2 + 1 + (Node.numberAll 0 more.nodes).2 := by
      rw [Node.numberAll]
      cases head <;> exact Node.next_numberAll _ more.nodes
    have hbrace : Ends (brace.token :: (more.tokens ++ rest)) := Or.inr ⟨brace, _, rfl⟩
    have htokens : (Derivation.block head body brace more).tokens ++ rest =
        head.tokens ++ (body.tokens ++ brace.token :: (more.tokens ++ rest)) := by
      simp [Derivation.tokens]
    obtain ⟨t, ts, hts⟩ :=
      exists_cons_head head (body.tokens ++ brace.token :: (more.tokens ++ rest))
    rw [htokens, hts, nodesMade_opens (item_head head hts), ihbody _ _ hbrace, nodesMade_close,
      ihmore _ _ hrest, Derivation.nodes, hcount]
    congr 1
    omega

/-- **A text that can be read makes the nodes of its tree and no others.** -/
theorem nodesMade_of_ofScanned {name : String} {scanned : Source.Scanned} {p : Program Unit}
    (h : ofScanned name scanned = .ok p) :
    nodesMade scanned.finish 0 0 scanned.tokens = (Node.numberAll 0 p.nodes).2 := by
  obtain ⟨d, htokens, rfl⟩ := derivation_of_ofScanned h
  have hmade : nodesMade scanned.finish 0 0 (d.nodes.tokens ++ []) = _ :=
    nodesMade_derivation d.nodes 0 0 (Or.inl rfl)
  rw [List.append_nil, (ProgramDerivation.tokens_nodes htokens).1, Nat.zero_add, nodesMade] at hmade
  exact hmade

end Made

end Tree

end Catena

import Catena.Proofs.Tree.Node
import Catena.Proofs.Tree.Phrases

/-!
# Reading recognises the grammar

An item is a phrase or the head of a block (`item_sound`, `item_phrase`, `item_head`). Blocks are the
only parts that nest: while they are read there is a stack of open blocks, and what is left has to
derive the rest of each of them and the brace that closes it (`Completes`).

Reading succeeds exactly on the tokens that have a derivation and gives the tree of the derivation,
and no tokens have two derivations (`ofScanned_derivation`). So every node of a tree that was read,
however deep, comes from a part of its text (`Derivation.allIn_of_parts`), and has what all tokens of
the text have (`allIn_of_tokens`).
-/

namespace Catena

theorem ArithmeticOp.ofSymbol?_eq_some_iff {s : Symbol} {op : ArithmeticOp} :
    ArithmeticOp.ofSymbol? s = some op ↔ s = op.symbol := by
  constructor
  · intro h
    unfold ofSymbol? at h
    split at h <;> cases h <;> rfl
  · rintro rfl
    cases op <;> rfl

theorem ComparisonOp.ofSymbol?_eq_some_iff {s : Symbol} {op : ComparisonOp} :
    ComparisonOp.ofSymbol? s = some op ↔ s = op.symbol := by
  constructor
  · intro h
    unfold ofSymbol? at h
    split at h <;> cases h <;> rfl
  · rintro rfl
    cases op <;> rfl

theorem Condition.ofSymbol?_eq_some_iff {s : Symbol} {form : Condition} :
    Condition.ofSymbol? s = some form ↔ s = form.symbol := by
  constructor
  · intro h
    unfold ofSymbol? at h
    split at h <;> cases h <;> rfl
  · rintro rfl
    cases form <;> rfl

namespace Tree

variable {finish : Position} {ts rest : List Token} {t : Token}

/-! ## Items -/

/-- What a head opens. -/
def Head.opening : Head → Opening
  | sequence brace => .sequence brace.token
  | function visibility _ name conditions _ =>
    .function name.token (signature name visibility.isSome conditions)

theorem Head.close_opening (head : Head) (body : List (Node Unit)) :
    head.opening.close body = head.node body := by
  cases head <;> rfl

/-- The item is a phrase or a head, and the tokens are those of it and what is left. -/
def Derives (ts : List Token) (i : Item) (rest : List Token) : Prop :=
  (∃ p : Phrase, ts = p.tokens ++ rest ∧ i = .leaf p.node) ∨
    ∃ head : Head, ts = head.tokens ++ rest ∧ i = .opens head.opening

theorem functionItem_sound (visibility : Option (Reserved .publicWord)) (word : Reserved .defWord)
    {i : Item} (h : functionItem finish visibility.isSome ts = .ok (i, rest)) :
    Derives (optional visibility ++ word.token :: ts) i rest := by
  obtain ⟨⟨⟨token, signature⟩, after⟩, hhead, h⟩ := bind_ok h
  cases h
  obtain ⟨name, conditions, brace, rfl, hsignature⟩ := functionHead_sound hhead
  obtain ⟨rfl, rfl⟩ := Prod.mk.inj hsignature
  refine Or.inr ⟨.function visibility word name conditions brace, ?_, rfl⟩
  simp [Head.tokens]

theorem letItem_sound (visibility : Option (Reserved .publicWord)) (word : Reserved .letWord)
    {i : Item} (h : leafItem (letBinding finish visibility.isSome ts) = .ok (i, rest)) :
    Derives (optional visibility ++ word.token :: ts) i rest := by
  obtain ⟨node, hnode, rfl⟩ := leafItem_ok h
  obtain ⟨⟨name, after⟩, hname, hnode⟩ := bind_ok hnode
  cases hnode
  obtain ⟨name, rfl, rfl⟩ := expect_sound TokenKind.isIdentifier_iff hname
  refine Or.inl ⟨.binding visibility word name, ?_, rfl⟩
  simp [Phrase.tokens]

theorem publicItem_sound (visibility : Reserved .publicWord) {i : Item}
    (h : publicItem finish visibility.token ts = .ok (i, rest)) :
    Derives (visibility.token :: ts) i rest := by
  unfold publicItem at h
  split at h
  · next hword =>
    obtain ⟨word, hword⟩ := nextIs_sound TokenKind.isKeyword_iff hword
    rw [hword]
    exact functionItem_sound (some visibility) word h
  split at h
  · next hword =>
    obtain ⟨word, hword⟩ := nextIs_sound TokenKind.isKeyword_iff hword
    rw [hword]
    exact letItem_sound (some visibility) word h
  · cases h

theorem symbolItem_sound {s : Symbol} (ht : t.kind = .symbol s) {i : Item}
    (h : symbolItem finish t s ts = .ok (i, rest)) : Derives (t :: ts) i rest := by
  unfold symbolItem at h
  split at h
  · next hs =>
    subst hs
    cases h
    exact Or.inr ⟨.sequence ⟨(), t, ht⟩, rfl, rfl⟩
  split at h
  · next hs =>
    subst hs
    obtain ⟨node, hnode, rfl⟩ := leafItem_ok h
    obtain ⟨⟨values, after⟩, hitems, hnode⟩ := bind_ok hnode
    cases hnode
    obtain ⟨items, closing, rfl, rfl⟩ := arrayItems_sound hitems
    refine Or.inl ⟨.array ⟨(), t, ht⟩ items closing, ?_, rfl⟩
    simp [Phrase.tokens]
  split at h
  · next op hop =>
    cases h
    rw [ArithmeticOp.ofSymbol?_eq_some_iff.1 hop] at ht
    exact Or.inl ⟨.arithmetic ⟨op, t, ht⟩, rfl, rfl⟩
  · next op _ hop =>
    cases h
    rw [ComparisonOp.ofSymbol?_eq_some_iff.1 hop] at ht
    exact Or.inl ⟨.comparison ⟨op, t, ht⟩, rfl, rfl⟩
  · next form _ _ hform =>
    cases h
    rw [Condition.ofSymbol?_eq_some_iff.1 hform] at ht
    exact Or.inl ⟨.condition ⟨form, t, ht⟩, rfl, rfl⟩
  · cases h

/-- **What is read as an item is a phrase or a head.** -/
theorem item_sound {i : Item} (h : item finish t ts = .ok (i, rest)) : Derives (t :: ts) i rest := by
  unfold item at h
  split at h
  · next ht => exact functionItem_sound none ⟨(), t, ht⟩ h
  · next ht => exact letItem_sound none ⟨(), t, ht⟩ h
  · next ht => exact publicItem_sound ⟨(), t, ht⟩ h
  · next ht =>
    obtain ⟨node, hnode, rfl⟩ := leafItem_ok h
    obtain ⟨request, rfl, rfl⟩ := importRequest_sound hnode
    exact Or.inl ⟨.importing ⟨(), t, ht⟩ request, rfl, rfl⟩
  · next value ht =>
    cases h
    exact Or.inl ⟨.literal ⟨value, t, ht⟩, rfl, rfl⟩
  · next ht =>
    obtain ⟨node, hnode, rfl⟩ := leafItem_ok h
    unfold name at hnode
    split at hnode
    · next hdot =>
      obtain ⟨dot, hdot⟩ := nextIs_sound TokenKind.isSymbol_iff hdot
      obtain ⟨⟨member, after⟩, hmember, hnode⟩ := bind_ok hnode
      cases hnode
      obtain ⟨member, htail, rfl⟩ := expect_sound TokenKind.isIdentifier_iff hmember
      refine Or.inl ⟨.member ⟨(), t, ht⟩ dot member, ?_, rfl⟩
      rw [hdot, htail]
      rfl
    · cases hnode
      exact Or.inl ⟨.name ⟨(), t, ht⟩, rfl, rfl⟩
  · next s ht => exact symbolItem_sound ht h
  · cases h

/-- Nothing follows that continues a phrase. -/
def Stops (ts : List Token) : Prop :=
  nextIs (·.isSymbol .dot) ts = false ∧ nextIs (·.isKeyword .asWord) ts = false

/-- **A phrase is read as it stands.** -/
theorem item_phrase (p : Phrase) (hrest : Stops rest) (hts : p.tokens ++ rest = t :: ts) :
    item finish t ts = .ok (.leaf p.node, rest) := by
  cases p with
  | binding visibility word ident =>
    have hlet : ∀ isPublic, leafItem (letBinding finish isPublic (ident.token :: rest)) =
        .ok (.leaf (.binding ⟨(), ident.token⟩ ident.token.lexeme isPublic), rest) := by
      intro isPublic
      unfold letBinding
      rw [bind_of_ok (expect_complete TokenKind.isIdentifier_iff ident)]
      rfl
    cases visibility with
    | none =>
      obtain ⟨rfl, rfl⟩ := List.cons.inj hts
      unfold item
      rw [word.spelled]
      exact hlet false
    | some visibility =>
      obtain ⟨rfl, rfl⟩ := List.cons.inj hts
      unfold item
      rw [visibility.spelled]
      show publicItem finish visibility.token (word.token :: ident.token :: rest) = _
      unfold publicItem
      rw [if_neg (by simp [TokenKind.isKeyword]),
        if_pos (nextIs_complete TokenKind.isKeyword_iff word)]
      exact hlet true
  | literal value =>
    obtain ⟨rfl, rfl⟩ := List.cons.inj hts
    unfold item
    rw [value.spelled]
    rfl
  | arithmetic op =>
    obtain ⟨rfl, rfl⟩ := List.cons.inj hts
    obtain ⟨op, token, hkind⟩ := op
    unfold item
    rw [hkind]
    cases op <;> rfl
  | condition form =>
    obtain ⟨rfl, rfl⟩ := List.cons.inj hts
    obtain ⟨form, token, hkind⟩ := form
    unfold item
    rw [hkind]
    cases form <;> rfl
  | comparison op =>
    obtain ⟨rfl, rfl⟩ := List.cons.inj hts
    obtain ⟨op, token, hkind⟩ := op
    unfold item
    rw [hkind]
    cases op <;> rfl
  | name ident =>
    obtain ⟨rfl, rfl⟩ := List.cons.inj hts
    unfold item
    rw [ident.spelled]
    show leafItem (name finish ident.token rest) = _
    unfold name
    rw [hrest.1]
    rfl
  | member qualifier dot ident =>
    obtain ⟨rfl, rfl⟩ := List.cons.inj hts
    unfold item
    rw [qualifier.spelled]
    show leafItem (name finish qualifier.token (dot.token :: ident.token :: rest)) = _
    unfold name
    rw [if_pos (nextIs_complete TokenKind.isSymbol_iff dot), List.tail_cons,
      bind_of_ok (expect_complete TokenKind.isIdentifier_iff ident)]
    rfl
  | importing word request =>
    obtain ⟨rfl, rfl⟩ := List.cons.inj hts
    unfold item
    rw [word.spelled]
    show leafItem (importRequest finish word.token (request.tokens ++ rest)) = _
    rw [importRequest_complete word.token request hrest.2]
    rfl
  | array opening items closing =>
    obtain ⟨rfl, rfl⟩ := List.cons.inj hts
    unfold item
    rw [opening.spelled]
    have htokens : ((items.map (·.tokens)).getD [] ++ [closing.token]) ++ rest =
        (items.map (·.tokens)).getD [] ++ closing.token :: rest := by
      rw [List.append_assoc]
      rfl
    show leafItem (array finish opening.token
      (((items.map (·.tokens)).getD [] ++ [closing.token]) ++ rest)) = _
    rw [htokens]
    unfold array
    rw [bind_of_ok (arrayItems_complete items closing)]
    rfl

/-- **A head is read as it stands.** -/
theorem item_head (head : Head) (hts : head.tokens ++ rest = t :: ts) :
    item finish t ts = .ok (.opens head.opening, rest) := by
  cases head with
  | sequence brace =>
    obtain ⟨rfl, rfl⟩ := List.cons.inj hts
    unfold item
    rw [brace.spelled]
    rfl
  | function visibility word name conditions brace =>
    have hfunction : ∀ isPublic, functionItem finish isPublic
        (name.token :: (conditions.map (·.tokens)).getD [] ++ brace.token :: rest) =
        .ok (.opens (.function name.token (signature name isPublic conditions)), rest) := by
      intro isPublic
      unfold functionItem
      rw [bind_of_ok (functionHead_complete isPublic name conditions brace)]
      rfl
    have htokens : (Head.function visibility word name conditions brace).tokens ++ rest =
        optional visibility ++ word.token ::
          (name.token :: (conditions.map (·.tokens)).getD [] ++ brace.token :: rest) := by
      simp [Head.tokens]
    rw [htokens] at hts
    cases visibility with
    | none =>
      obtain ⟨rfl, rfl⟩ := List.cons.inj hts
      unfold item
      rw [word.spelled]
      exact hfunction false
    | some visibility =>
      obtain ⟨rfl, rfl⟩ := List.cons.inj hts
      unfold item
      rw [visibility.spelled]
      show publicItem finish visibility.token (word.token :: _) = _
      unfold publicItem
      rw [if_pos (nextIs_complete TokenKind.isKeyword_iff word)]
      exact hfunction true

/-- No item starts with a closing brace or with what continues a phrase. -/
theorem stops_of_item {r : Item × List Token} (h : item finish t ts = .ok r) :
    Stops (t :: ts) ∧ t.kind.isSymbol .rightBrace = false := by
  have hsymbol : ∀ s : Symbol, s = .dot ∨ s = .rightBrace → t.kind.isSymbol s = false := by
    intro s hs
    rw [Bool.eq_false_iff]
    intro hkind
    unfold item at h
    rw [(TokenKind.isSymbol_iff _).1 hkind] at h
    rcases hs with rfl | rfl <;> cases h
  refine ⟨⟨hsymbol .dot (Or.inl rfl), ?_⟩, hsymbol .rightBrace (Or.inr rfl)⟩
  rw [nextIs_cons, Bool.eq_false_iff]
  intro hkind
  unfold item at h
  rw [(TokenKind.isKeyword_iff _).1 hkind] at h
  cases h

/-! ## Blocks -/

section Steps

variable {frames : List Frame} {done : List (Node Unit)}

theorem readNodes_leaf {node : Node Unit} (h : item finish t ts = .ok (.leaf node, rest)) :
    readNodes finish frames done (t :: ts) = readNodes finish frames (node :: done) rest := by
  have hbrace := (stops_of_item h).2
  rw [readNodes, h]
  intro _ _ _ hclose
  rw [hbrace] at hclose
  cases hclose

theorem readNodes_opens {opening : Opening} (h : item finish t ts = .ok (.opens opening, rest)) :
    readNodes finish frames done (t :: ts) = readNodes finish (⟨opening, done⟩ :: frames) [] rest := by
  have hbrace := (stops_of_item h).2
  rw [readNodes, h]
  intro _ _ _ hclose
  rw [hbrace] at hclose
  cases hclose

theorem readNodes_close (frame : Frame) (brace : Punct .rightBrace) :
    readNodes finish (frame :: frames) done (brace.token :: ts) =
      readNodes finish frames (frame.opening.close done.reverse :: frame.before) ts := by
  have hbrace := (TokenKind.isSymbol_iff _).2 brace.spelled
  rw [readNodes.eq_def]
  simp only [hbrace]

end Steps

/-- The tokens end here, or with a block. -/
def Ends (ts : List Token) : Prop :=
  ts = [] ∨ ∃ (brace : Punct .rightBrace) (rest : List Token), ts = brace.token :: rest

theorem Ends.stops (h : Ends ts) : Stops ts := by
  rcases h with rfl | ⟨brace, rest, rfl⟩
  · exact ⟨rfl, rfl⟩
  · constructor <;> simp [TokenKind.isSymbol, TokenKind.isKeyword]

theorem Ends.not_item {r : Item × List Token} (h : Ends (t :: ts)) : item finish t ts ≠ .ok r := by
  intro hitem
  rcases h with h | ⟨brace, rest, h⟩
  · cases h
  · have hnot := (stops_of_item hitem).2
    rw [(List.cons.inj h).1, (TokenKind.isSymbol_iff _).2 brace.spelled] at hnot
    cases hnot

theorem exists_cons_phrase (p : Phrase) (rest : List Token) :
    ∃ t ts, p.tokens ++ rest = t :: ts := by
  cases p with
  | binding visibility word ident => cases visibility <;> exact ⟨_, _, rfl⟩
  | _ => exact ⟨_, _, rfl⟩

theorem exists_cons_head (head : Head) (rest : List Token) :
    ∃ t ts, head.tokens ++ rest = t :: ts := by
  cases head with
  | sequence brace => exact ⟨_, _, rfl⟩
  | function visibility word name conditions brace => cases visibility <;> exact ⟨_, _, rfl⟩

/-- No node starts with what continues a phrase. -/
theorem Derivation.stops (d : Derivation) (hrest : Ends rest) : Stops (d.tokens ++ rest) := by
  induction d with
  | nil => exact hrest.stops
  | phrase p more ih =>
    rw [tokens, List.append_assoc]
    obtain ⟨t, ts, hts⟩ := exists_cons_phrase p (more.tokens ++ rest)
    have hitem : item .start t ts = .ok _ := item_phrase p ih hts
    rw [hts]
    exact (stops_of_item hitem).1
  | block head body brace more ihbody ihmore =>
    rw [tokens, List.append_assoc, List.append_assoc]
    obtain ⟨t, ts, hts⟩ := exists_cons_head head (body.tokens ++ (brace.token :: more.tokens ++ rest))
    have hitem : item .start t ts = .ok _ := item_head head hts
    rw [hts]
    exact (stops_of_item hitem).1

/-- **What is derived is read**, and its tree is added to what was read before. -/
theorem readNodes_complete (d : Derivation) (frames : List Frame) (done : List (Node Unit))
    (hrest : Ends rest) :
    readNodes finish frames done (d.tokens ++ rest) =
      readNodes finish frames (d.nodes.reverse ++ done) rest := by
  induction d generalizing frames done rest with
  | nil => rfl
  | phrase p more ih =>
    rw [Derivation.tokens, List.append_assoc]
    obtain ⟨t, ts, hts⟩ := exists_cons_phrase p (more.tokens ++ rest)
    rw [hts, readNodes_leaf (item_phrase p (more.stops hrest) hts), ih _ _ hrest]
    simp [Derivation.nodes]
  | block head body brace more ihbody ihmore =>
    have hbrace : Ends (brace.token :: (more.tokens ++ rest)) := Or.inr ⟨brace, _, rfl⟩
    have htokens : (Derivation.block head body brace more).tokens ++ rest =
        head.tokens ++ (body.tokens ++ brace.token :: (more.tokens ++ rest)) := by
      simp [Derivation.tokens]
    obtain ⟨t, ts, hts⟩ :=
      exists_cons_head head (body.tokens ++ brace.token :: (more.tokens ++ rest))
    rw [htokens, hts, readNodes_opens (item_head head hts), ihbody _ _ hbrace, readNodes_close,
      ihmore _ _ hrest, head.close_opening]
    simp [Derivation.nodes]

/-- What is left derives the rest of every open block and of the program. `done` are the nodes of the
innermost block that have been read, last first. -/
def Completes : List Frame → List (Node Unit) → List Token → List (Node Unit) → Prop
  | [], done, ts, nodes => ∃ d : Derivation, ts = d.tokens ∧ nodes = done.reverse ++ d.nodes
  | frame :: frames, done, ts, nodes =>
    ∃ (d : Derivation) (brace : Punct .rightBrace) (rest : List Token),
      ts = d.tokens ++ brace.token :: rest ∧
        Completes frames (frame.opening.close (done.reverse ++ d.nodes) :: frame.before) rest nodes

/-- Another node in front of what is left. -/
theorem Completes.extend (extend : Derivation → Derivation) {front : List Token} {node : Node Unit}
    {frames : List Frame} {done nodes : List (Node Unit)}
    (htokens : ∀ d, (extend d).tokens = front ++ d.tokens)
    (hnodes : ∀ d, (extend d).nodes = node :: d.nodes)
    (h : Completes frames (node :: done) ts nodes) : Completes frames done (front ++ ts) nodes := by
  cases frames with
  | nil =>
    obtain ⟨d, rfl, rfl⟩ := h
    exact ⟨extend d, (htokens d).symm, by simp [hnodes]⟩
  | cons frame frames =>
    obtain ⟨d, brace, rest, rfl, h⟩ := h
    refine ⟨extend d, brace, rest, by simp [htokens], ?_⟩
    simpa [hnodes] using h

/-- **What is read is derived.** -/
theorem readNodes_sound {frames : List Frame} {done nodes : List (Node Unit)}
    (h : readNodes finish frames done ts = .ok nodes) : Completes frames done ts nodes := by
  fun_induction readNodes finish frames done ts with
  | case1 done =>
    cases h
    exact ⟨.nil, rfl, (List.append_nil _).symm⟩
  | case2 => cases h
  | case3 done t rest frame outer hbrace ih =>
    -- the recursion carries its list with a proof of membership at each node
    have plain : done.attach.reverse.unattach = done.reverse := by simp
    rw [plain] at ih
    refine ⟨.nil, ⟨(), t, (TokenKind.isSymbol_iff _).1 hbrace⟩, rest, rfl, ?_⟩
    simpa [Derivation.nodes] using ih h
  | case4 => cases h
  | case5 done t rest frames node after hread _ ih =>
    rcases item_sound hread with ⟨p, hp, hleaf⟩ | ⟨head, -, hleaf⟩
    · cases hleaf
      rw [hp]
      exact (ih h).extend (.phrase p) (fun _ => rfl) fun _ => rfl
    · cases hleaf
  | case6 done t rest frames opening after hread _ ih =>
    rcases item_sound hread with ⟨p, -, hopens⟩ | ⟨head, hhead, hopens⟩
    · cases hopens
    · cases hopens
      obtain ⟨d, brace, later, rfl, hcompletes⟩ := ih h
      rw [head.close_opening] at hcompletes
      have htokens : ∀ more, (Derivation.block head d brace more).tokens =
          (head.tokens ++ (d.tokens ++ [brace.token])) ++ more.tokens := by
        simp [Derivation.tokens]
      rw [hhead]
      simpa using hcompletes.extend (.block head d brace) htokens fun _ => rfl

/-! ## One derivation -/

theorem Phrase.eq_of_tokens {p p' : Phrase} (hnode : p.node = p'.node)
    (htokens : p.tokens = p'.tokens) : p = p' := by
  cases p with
  | binding visibility word ident =>
    cases p' with
    | binding visibility' word' ident' =>
      have apart : ∀ w : Reserved .letWord, w.token.kind ≠ .keyword .publicWord := by simp
      obtain ⟨rfl, hwords⟩ := optional_unique (apart word) (apart word') htokens
      obtain ⟨hword, hname⟩ := List.cons.inj hwords
      obtain rfl := Spelled.eq_of_terminal hword
      obtain rfl := Spelled.eq_of_terminal (List.cons.inj hname).1
      rfl
    | _ => cases hnode
  | literal value =>
    cases p' with
    | literal value' => rw [Spelled.eq_of_token literal_injective (List.cons.inj htokens).1]
    | _ => cases hnode
  | arithmetic op =>
    cases p' with
    | arithmetic op' =>
      rw [Spelled.eq_of_token arithmetic_symbol_injective (List.cons.inj htokens).1]
    | _ => cases hnode
  | condition form =>
    cases p' with
    | condition form' =>
      rw [Spelled.eq_of_token condition_symbol_injective (List.cons.inj htokens).1]
    | _ => cases hnode
  | comparison op =>
    cases p' with
    | comparison op' =>
      rw [Spelled.eq_of_token comparison_symbol_injective (List.cons.inj htokens).1]
    | _ => cases hnode
  | name ident =>
    cases p' with
    | name ident' => rw [Spelled.eq_of_terminal (List.cons.inj htokens).1]
    | member => exact absurd (Node.identifier.inj hnode).2.1 (by simp)
    | _ => cases hnode
  | member qualifier dot ident =>
    cases p' with
    | member qualifier' dot' ident' =>
      obtain ⟨hqualifier, hdots⟩ := List.cons.inj htokens
      obtain ⟨hdot, hidents⟩ := List.cons.inj hdots
      obtain rfl := Spelled.eq_of_terminal hqualifier
      obtain rfl := Spelled.eq_of_terminal hdot
      obtain rfl := Spelled.eq_of_terminal (List.cons.inj hidents).1
      rfl
    | name => exact absurd (Node.identifier.inj hnode).2.1 (by simp)
    | _ => cases hnode
  | importing word request =>
    cases p' with
    | importing word' request' =>
      obtain ⟨hword, hrequest⟩ := List.cons.inj htokens
      obtain rfl := Spelled.eq_of_terminal hword
      obtain rfl := Request.eq_of_tokens hrequest
      rfl
    | _ => cases hnode
  | array opening items closing =>
    cases p' with
    | array opening' items' closing' =>
      obtain ⟨hopening, hitems⟩ := List.cons.inj htokens
      obtain ⟨rfl, hclosing⟩ := items_unique hitems
      obtain rfl := Spelled.eq_of_terminal hopening
      obtain rfl := Spelled.eq_of_terminal hclosing
      rfl
    | _ => cases hnode

theorem Head.eq_of_tokens {head head' : Head} (hopening : head.opening = head'.opening)
    (htokens : head.tokens = head'.tokens) : head = head' := by
  cases head with
  | sequence brace =>
    cases head' with
    | sequence brace' => rw [Spelled.eq_of_terminal (List.cons.inj htokens).1]
    | function => cases hopening
  | function visibility word name conditions brace =>
    cases head' with
    | sequence => cases hopening
    | function visibility' word' name' conditions' brace' =>
      have apart : ∀ w : Reserved .defWord, w.token.kind ≠ .keyword .publicWord := by simp
      simp only [Head.tokens, List.cons_append, List.append_assoc] at htokens
      obtain ⟨rfl, hwords⟩ := optional_unique (apart word) (apart word') htokens
      obtain ⟨hword, hnames⟩ := List.cons.inj hwords
      obtain ⟨hname, hconditions⟩ := List.cons.inj hnames
      obtain ⟨rfl, hbrace⟩ := conditions_unique hconditions
      obtain rfl := Spelled.eq_of_terminal hword
      obtain rfl := Spelled.eq_of_terminal hname
      obtain rfl := Spelled.eq_of_terminal hbrace
      rfl

/-- Where something ends, nothing but the empty derivation stands. -/
theorem Derivation.eq_nil_of_ends {d : Derivation} (hrest : Ends rest) (hts : Ends ts)
    (heq : ts = d.tokens ++ rest) : d = nil := by
  subst heq
  cases d with
  | nil => rfl
  | phrase p more =>
    rw [tokens, List.append_assoc] at hts
    obtain ⟨t, ts, hcons⟩ := exists_cons_phrase p (more.tokens ++ rest)
    have hitem : item .start t ts = .ok _ := item_phrase p (more.stops hrest) hcons
    rw [hcons] at hts
    exact absurd hitem hts.not_item
  | block head body brace more =>
    rw [tokens, List.append_assoc, List.append_assoc] at hts
    obtain ⟨t, ts, hcons⟩ :=
      exists_cons_head head (body.tokens ++ (brace.token :: more.tokens ++ rest))
    have hitem : item .start t ts = .ok _ := item_head head hcons
    rw [hcons] at hts
    exact absurd hitem hts.not_item

/-- **Tokens have one derivation.** Two derivations of the same tokens start with the same item, as
reading has one outcome only. -/
theorem Derivation.unique {d d' : Derivation} {rest rest' : List Token} (hrest : Ends rest)
    (hrest' : Ends rest') (heq : d.tokens ++ rest = d'.tokens ++ rest') : d = d' ∧ rest = rest' := by
  induction d generalizing d' rest rest' with
  | nil =>
    obtain rfl := eq_nil_of_ends hrest' hrest heq
    exact ⟨rfl, heq⟩
  | phrase p more ih =>
    have hwhole := heq
    rw [tokens, List.append_assoc] at heq
    obtain ⟨t, ts, hts⟩ := exists_cons_phrase p (more.tokens ++ rest)
    have hitem : item .start t ts = .ok _ := item_phrase p (more.stops hrest) hts
    rw [hts] at heq
    cases d' with
    | nil => cases eq_nil_of_ends hrest hrest' hwhole.symm
    | phrase p' more' =>
      rw [tokens, List.append_assoc] at heq
      rw [item_phrase p' (more'.stops hrest') heq.symm] at hitem
      obtain ⟨hleaf, htail⟩ := Prod.mk.inj (Except.ok.inj hitem)
      have htokens : p'.tokens = p.tokens := by
        rw [← hts, htail] at heq
        exact (List.append_cancel_right heq).symm
      obtain rfl := Phrase.eq_of_tokens (Item.leaf.inj hleaf) htokens
      obtain ⟨rfl, hrests⟩ := ih hrest hrest' htail.symm
      exact ⟨rfl, hrests⟩
    | block head' body' brace' more' =>
      rw [tokens, List.append_assoc, List.append_assoc] at heq
      rw [item_head head' heq.symm] at hitem
      cases hitem
  | block head body brace more ihbody ihmore =>
    have hwhole := heq
    rw [tokens, List.append_assoc, List.append_assoc] at heq
    obtain ⟨t, ts, hts⟩ := exists_cons_head head (body.tokens ++ (brace.token :: more.tokens ++ rest))
    have hitem : item .start t ts = .ok _ := item_head head hts
    rw [hts] at heq
    cases d' with
    | nil => cases eq_nil_of_ends hrest hrest' hwhole.symm
    | phrase p' more' =>
      rw [tokens, List.append_assoc] at heq
      rw [item_phrase p' (more'.stops hrest') heq.symm] at hitem
      cases hitem
    | block head' body' brace' more' =>
      rw [tokens, List.append_assoc, List.append_assoc] at heq
      rw [item_head head' heq.symm] at hitem
      obtain ⟨hopens, htail⟩ := Prod.mk.inj (Except.ok.inj hitem)
      have htokens : head'.tokens = head.tokens := by
        rw [← hts, htail] at heq
        exact (List.append_cancel_right heq).symm
      obtain rfl := Head.eq_of_tokens (Item.opens.inj hopens) htokens
      obtain ⟨rfl, hbraces⟩ :=
        ihbody (Or.inr ⟨brace, _, rfl⟩) (Or.inr ⟨brace', _, rfl⟩) htail.symm
      obtain ⟨hbrace, hmore⟩ := List.cons.inj hbraces
      obtain rfl := Spelled.eq_of_terminal hbrace
      obtain ⟨rfl, hrests⟩ := ihmore hrest hrest' hmore
      exact ⟨rfl, hrests⟩

/-! ## Programs -/

/-- The nodes of a program are derived from the tokens before the one that ends it. -/
theorem ProgramDerivation.tokens_nodes {d : ProgramDerivation} {scanned : Source.Scanned}
    (h : d.tokens = scanned.all) :
    d.nodes.tokens = scanned.tokens ∧ d.finish.token = scanned.endToken := by
  obtain ⟨hnodes, hfinish⟩ := List.append_inj' h rfl
  exact ⟨hnodes, (List.cons.inj hfinish).1⟩

theorem derivation_of_ofScanned {name : String} {scanned : Source.Scanned} {p : Program Unit}
    (h : ofScanned name scanned = .ok p) :
    ∃ d : ProgramDerivation, d.tokens = scanned.all ∧ p = ⟨{ name }, d.nodes.nodes⟩ := by
  unfold ofScanned at h
  split at h
  · next nodes hnodes =>
    cases h
    obtain ⟨d, htokens, rfl⟩ := readNodes_sound hnodes
    refine ⟨⟨d, (), scanned.endToken, rfl⟩, ?_, rfl⟩
    rw [ProgramDerivation.tokens, ← htokens]
    rfl
  · cases h

theorem ofScanned_of_tokens (name : String) {scanned : Source.Scanned} {d : ProgramDerivation}
    (htokens : d.tokens = scanned.all) :
    ofScanned name scanned = .ok ⟨{ name }, d.nodes.nodes⟩ := by
  have hread : readNodes scanned.finish [] [] (d.nodes.tokens ++ []) = .ok d.nodes.nodes := by
    rw [readNodes_complete d.nodes [] [] (Or.inl rfl), readNodes.eq_def]
    simp
  unfold ofScanned
  rw [← (ProgramDerivation.tokens_nodes htokens).1, ← List.append_nil d.nodes.tokens, hread]

/-- **Reading accepts exactly the grammar and builds the tree of the derivation**, which is the only
one. -/
theorem ofScanned_derivation (name : String) (scanned : Source.Scanned) :
    (∀ p, ofScanned name scanned = .ok p ↔
      ∃ d : ProgramDerivation, d.tokens = scanned.all ∧ p = ⟨{ name }, d.nodes.nodes⟩) ∧
    ∀ d d' : ProgramDerivation, d.tokens = scanned.all → d'.tokens = scanned.all → d = d' := by
  refine ⟨fun p => ⟨derivation_of_ofScanned, ?_⟩, fun d d' hd hd' => ?_⟩
  · rintro ⟨d, htokens, rfl⟩
    exact ofScanned_of_tokens name htokens
  · obtain ⟨hnodes, hfinish⟩ := ProgramDerivation.tokens_nodes hd
    obtain ⟨hnodes', hfinish'⟩ := ProgramDerivation.tokens_nodes hd'
    obtain ⟨nodes, finish⟩ := d
    obtain ⟨nodes', finish'⟩ := d'
    obtain rfl := Spelled.eq_of_terminal (hfinish.trans hfinish'.symm)
    obtain ⟨rfl, -⟩ := Derivation.unique (Or.inl rfl) (Or.inl rfl)
      (congrArg (· ++ []) (hnodes.trans hnodes'.symm))
    rfl

/-! ## Texts -/

/-- A text with a derivation is read as the tree of the derivation. -/
theorem ofSource_of_derivation {name source : String} {scanned : Source.Scanned}
    (hscan : Source.scan source = .ok scanned) {d : Derivation}
    (htokens : d.tokens = scanned.tokens) : ofSource name source = .ok ⟨{ name }, d.nodes⟩ := by
  have hread : ofScanned name scanned = .ok ⟨{ name }, d.nodes⟩ := by
    refine ofScanned_of_tokens name (d := ⟨d, (), scanned.endToken, rfl⟩) ?_
    rw [ProgramDerivation.tokens, htokens]
    rfl
  unfold ofSource
  rw [hscan]
  dsimp only
  rw [hread]

/-- A tree that was read is that of a derivation of the tokens of its text. -/
theorem derivation_of_ofSource {name source : String} {p : Program Unit}
    (h : ofSource name source = .ok p) : ∃ scanned, ∃ d : Derivation,
      Source.scan source = .ok scanned ∧ d.tokens = scanned.tokens ∧ p = ⟨{ name }, d.nodes⟩ := by
  unfold ofSource at h
  cases hscan : Source.scan source with
  | error errors => rw [hscan] at h; cases h
  | ok scanned =>
    rw [hscan] at h
    dsimp only at h
    cases hread : ofScanned name scanned with
    | error e => rw [hread] at h; cases h
    | ok q =>
      rw [hread] at h
      cases h
      obtain ⟨⟨d, finish⟩, htokens, hp⟩ := derivation_of_ofScanned hread
      exact ⟨scanned, d, rfl, (List.append_inj' htokens rfl).1, hp⟩

/-- What holds of the phrases and of the blocks whose tokens stand in a text holds of all nodes that are
derived from it. -/
theorem Derivation.allIn_of_parts {P : Node Unit → Prop} {tokens : List Token}
    (phrase : ∀ p : Phrase, p.tokens <:+: tokens → P p.node)
    (block : ∀ (head : Head) (body : List (Node Unit)), head.tokens <:+: tokens → P (head.node body))
    (d : Derivation) (h : d.tokens <:+: tokens) : Node.AllIn P d.nodes := by
  induction d with
  | nil => trivial
  | phrase p rest ih =>
    have hphrase : p.tokens <:+: tokens := (List.prefix_append _ _).isInfix.trans h
    have hrest : rest.tokens <:+: tokens := (List.suffix_append _ _).isInfix.trans h
    refine ⟨?_, ih hrest⟩
    have hnode := phrase p hphrase
    cases p <;> exact hnode
  | block head body brace rest ihbody ihrest =>
    have hhead : head.tokens <:+: tokens := by
      refine List.IsInfix.trans ?_ h
      rw [Derivation.tokens, List.append_assoc]
      exact (List.prefix_append _ _).isInfix
    have hbody : body.tokens <:+: tokens := List.IsInfix.trans ⟨head.tokens, _, rfl⟩ h
    have hrest : rest.tokens <:+: tokens := by
      refine List.IsInfix.trans ?_ h
      rw [Derivation.tokens, List.append_cons]
      exact (List.suffix_append _ _).isInfix
    refine ⟨?_, ihrest hrest⟩
    have hnode := block head body.nodes hhead
    cases head <;> exact ⟨hnode, ihbody hbody⟩

/-- The same for a tree that was read. -/
theorem allIn_of_ofSource {name source : String} {p : Program Unit}
    (h : ofSource name source = .ok p) {P : List Token → Node Unit → Prop}
    (phrase : ∀ (tokens : List Token) (p : Phrase), p.tokens <:+: tokens → P tokens p.node)
    (block : ∀ (tokens : List Token) (head : Head) (body : List (Node Unit)),
      head.tokens <:+: tokens → P tokens (head.node body)) :
    ∃ scanned, Source.scan source = .ok scanned ∧ Node.AllIn (P scanned.tokens) p.nodes := by
  obtain ⟨scanned, d, hscan, htokens, rfl⟩ := derivation_of_ofSource h
  refine ⟨scanned, hscan, ?_⟩
  exact d.allIn_of_parts (phrase _) (block _) (htokens ▸ List.infix_refl _)

/-- What all tokens of a text have in common passes to the nodes that are read from it. -/
theorem allIn_of_tokens {name source : String} {p : Program Unit}
    (h : ofSource name source = .ok p) {Q : Token → Prop} {P : Node Unit → Prop}
    (tokens : ∀ scanned, Source.scan source = .ok scanned → ∀ t ∈ scanned.tokens, Q t)
    (phrase : ∀ p : Phrase, (∀ t ∈ p.tokens, Q t) → P p.node)
    (block : ∀ (head : Head) (body : List (Node Unit)), (∀ t ∈ head.tokens, Q t) →
      P (head.node body)) : Node.AllIn P p.nodes := by
  obtain ⟨scanned, hscan, hall⟩ := allIn_of_ofSource h
    (P := fun tokens node => (∀ t ∈ tokens, Q t) → P node)
    (fun tokens p hp htokens => phrase p fun t ht => htokens t (hp.subset ht))
    (fun tokens head body hhead htokens => block head body fun t ht => htokens t (hhead.subset ht))
  exact hall.mono fun n hn => hn (tokens scanned hscan)

end Tree

end Catena

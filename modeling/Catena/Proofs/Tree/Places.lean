import Catena.Proofs.Tree.Recognition

/-!
# Trees at other places

Reading looks at what a token is and spells, and only hands on where it stands. So reading tokens at
other places gives the same at other places: each reader commutes with moving its tokens
(`expect_moved` to `item_moved`), hence so does reading whole blocks (`readNodes_moved`), with the
refusal of a text moved as its tree would be.

Moving everything to one place forgets the places (`Program.unplaced`): what is read depends on the
kinds and the lexemes of the tokens only (`ofScanned_congr`).
-/

namespace Catena

section Moving

variable {ι : Type} (f : Position → Position)

/-- The token at another place. -/
def Token.moved (t : Token) : Token :=
  { t with position := f t.position }

@[simp] theorem Token.moved_kind (t : Token) : (t.moved f).kind = t.kind := rfl

@[simp] theorem Token.moved_lexeme (t : Token) : (t.moved f).lexeme = t.lexeme := rfl

/-- The mark with its token at another place. -/
def Mark.moved (m : Mark ι) : Mark ι :=
  { m with token := m.token.moved f }

mutual

/-- The node with all its tokens at other places. -/
def Node.moved : Node ι → Node ι
  | .literal m value => .literal (m.moved f) value
  | .arithmetic m op => .arithmetic (m.moved f) op
  | .comparison m op => .comparison (m.moved f) op
  | .condition m form => .condition (m.moved f) form
  | .sequence m block body => .sequence (m.moved f) block (Node.movedAll body)
  | .definition m signature body => .definition (m.moved f) signature (Node.movedAll body)
  | .identifier m qualifier name => .identifier (m.moved f) (qualifier.map (Token.moved f)) name
  | .importing m request => .importing (m.moved f) request
  | .binding m name isPublic => .binding (m.moved f) name isPublic
  | .array m items => .array (m.moved f) items
  | .program m info nodes => .program (m.moved f) info (Node.movedAll nodes)

/-- The nodes with all their tokens at other places. -/
def Node.movedAll : List (Node ι) → List (Node ι)
  | [] => []
  | n :: rest => n.moved :: Node.movedAll rest

end

/-- The program with all its tokens at other places. -/
def Program.moved (p : Program ι) : Program ι :=
  { p with nodes := Node.movedAll f p.nodes }

theorem Node.movedAll_eq_map (nodes : List (Node ι)) :
    Node.movedAll f nodes = nodes.map (Node.moved f) := by
  induction nodes with
  | nil => rfl
  | cons n rest ih => exact congrArg (List.cons _) ih

end Moving

/-- A program without its places. Two programs that are equal so differ in nothing but where their
tokens stand. -/
def Program.unplaced {ι : Type} (p : Program ι) : Program ι :=
  p.moved fun _ => .start

namespace Tree

variable {α β : Type} (f : Position → Position) (finish : Position) (t : Token) (ts : List Token)

def Refusal.moved (r : Refusal) : Refusal :=
  { r with position := f r.position }

/-- What a reader gives, with the tokens left and the place of a refusal moved, and what was read
moved by `g`. -/
def movedReading (g : α → β) : Except Refusal (α × List Token) → Except Refusal (β × List Token)
  | .ok (a, rest) => .ok (g a, rest.map (Token.moved f))
  | .error refusal => .error (refusal.moved f)

theorem movedReading_bind {α' β' : Type} {g : α → α'} {k : β → β'}
    {reading : Except Refusal (α × List Token)}
    {next : α × List Token → Except Refusal (β × List Token)}
    {next' : α' × List Token → Except Refusal (β' × List Token)}
    (h : ∀ a rest, next' (g a, rest.map (Token.moved f)) = movedReading f k (next (a, rest))) :
    (movedReading f g reading >>= next') = movedReading f k (reading >>= next) := by
  cases reading with
  | error refusal => rfl
  | ok r => exact h r.1 r.2

/-! ## Phrases -/

theorem peek_moved : peek (f finish) (ts.map (Token.moved f)) = (peek finish ts).moved f := by
  cases ts <;> rfl

@[simp] theorem movedReading_refuse (error : ParseError) (g : α → β) :
    movedReading f g (refuse finish ts error) =
      refuse (f finish) (ts.map (Token.moved f)) error := by
  unfold refuse
  rw [peek_moved]
  rfl

@[simp] theorem movedReading_unexpected (g : α → β) :
    movedReading f g (unexpected t) = unexpected (t.moved f) :=
  rfl

theorem nextIs_moved (isExpected : TokenKind → Bool) :
    nextIs isExpected (ts.map (Token.moved f)) = nextIs isExpected ts := by
  cases ts <;> rfl

theorem expect_moved (error : ParseError) (isExpected : TokenKind → Bool) :
    expect (f finish) error isExpected (ts.map (Token.moved f)) =
      movedReading f (Token.moved f) (expect finish error isExpected ts) := by
  cases ts with
  | nil => rfl
  | cons t rest =>
    simp only [List.map_cons, expect]
    rw [apply_ite (movedReading f (Token.moved f)), movedReading_refuse]
    rfl

/-- Words of a signature and literals are read by their kinds only, so that the branches of the
recursion are the same at other places. -/
theorem typeWords_moved (side : SignatureSide) :
    typeWords (f finish) side (ts.map (Token.moved f)) =
      movedReading f id (typeWords finish side ts) := by
  fun_induction typeWords finish side ts with
  | case1 => rfl
  | case2 t rest hword =>
    rw [movedReading_refuse, List.map_cons, typeWords]
    simp only [Token.moved_kind, hword]
  | case3 t word hword => simp [typeWords, movedReading, hword]
  | case4 t word hword c after hcomma words rest hafter ih =>
    rw [hafter] at ih
    simp [typeWords, movedReading, hword, hcomma, ih]
  | case5 t word hword c after hcomma refusal hafter ih =>
    rw [hafter] at ih
    simp [typeWords, movedReading, hword, hcomma, ih]
  | case6 t word hword c after hcomma => simp [typeWords, movedReading, hword, hcomma]

theorem conditions_moved (side : SignatureSide) :
    conditions (f finish) side (ts.map (Token.moved f)) =
      movedReading f id (conditions finish side ts) := by
  unfold conditions
  rw [typeWords_moved]
  cases typeWords finish side ts with
  | error refusal => rfl
  | ok r =>
    obtain ⟨words, rest⟩ := r
    show (if _ then _ else _) = movedReading f id (if _ then _ else _)
    rw [apply_ite (movedReading f id), movedReading_refuse]
    rfl

theorem signatureTypes_moved :
    signatureTypes (f finish) (ts.map (Token.moved f)) =
      movedReading f id (signatureTypes finish ts) := by
  unfold signatureTypes
  rw [nextIs_moved, ← List.map_tail]
  split
  · rw [conditions_moved]
    refine movedReading_bind f fun pre rest => ?_
    dsimp only
    rw [expect_moved]
    refine movedReading_bind f fun arrow rest => ?_
    dsimp only
    rw [conditions_moved]
    refine movedReading_bind f fun post rest => ?_
    dsimp only
    rw [expect_moved]
    exact movedReading_bind f fun closing rest => rfl
  · rfl

theorem functionHead_moved (isPublic : Bool) :
    functionHead (f finish) isPublic (ts.map (Token.moved f)) =
      movedReading f (Prod.map (Token.moved f) id) (functionHead finish isPublic ts) := by
  unfold functionHead
  rw [expect_moved]
  refine movedReading_bind f fun name rest => ?_
  dsimp only
  rw [signatureTypes_moved]
  refine movedReading_bind f fun types rest => ?_
  dsimp only
  rw [expect_moved]
  exact movedReading_bind f fun brace rest => rfl

theorem letBinding_moved (isPublic : Bool) :
    letBinding (f finish) isPublic (ts.map (Token.moved f)) =
      movedReading f (Node.moved f) (letBinding finish isPublic ts) := by
  unfold letBinding
  rw [expect_moved]
  exact movedReading_bind f fun name rest => rfl

theorem name_moved :
    name (f finish) (t.moved f) (ts.map (Token.moved f)) =
      movedReading f (Node.moved f) (name finish t ts) := by
  unfold name
  rw [nextIs_moved, ← List.map_tail, expect_moved]
  split
  · exact movedReading_bind f fun member rest => rfl
  · rfl

theorem arrayItems_moved :
    arrayItems (f finish) (ts.map (Token.moved f)) =
      movedReading f id (arrayItems finish ts) := by
  fun_induction arrayItems finish ts with
  | case1 => rfl
  | case2 t rest hliteral hclosing => simp [arrayItems, movedReading, hliteral, hclosing]
  | case3 t rest hliteral hclosing =>
    simp [arrayItems, hliteral, hclosing]
  | case4 t item hliteral => simp [arrayItems, movedReading, hliteral]; rfl
  | case5 t item hliteral c after hcomma items rest hafter ih =>
    rw [hafter] at ih
    simp [arrayItems, movedReading, hliteral, hcomma, ih]
  | case6 t item hliteral c after hcomma refusal hafter ih =>
    rw [hafter] at ih
    simp [arrayItems, movedReading, hliteral, hcomma, ih]
  | case7 t item hliteral c after hcomma hclosing =>
    simp [arrayItems, movedReading, hliteral, hcomma, hclosing]
  | case8 t item hliteral c after hcomma hclosing =>
    simp [arrayItems, hliteral, hcomma, hclosing]

theorem array_moved :
    array (f finish) (t.moved f) (ts.map (Token.moved f)) =
      movedReading f (Node.moved f) (array finish t ts) := by
  unfold array
  rw [arrayItems_moved]
  exact movedReading_bind f fun items rest => rfl

theorem startsPlace_moved : startsPlace (ts.map (Token.moved f)) = startsPlace ts := by
  unfold startsPlace
  rw [nextIs_moved, nextIs_moved]

theorem importPath_moved (file : String) :
    importPath (t.moved f) file = (importPath t file).mapError (Refusal.moved f) := by
  unfold importPath
  split
  · rfl
  · split <;> rfl

theorem place_moved :
    place (f finish) (ts.map (Token.moved f)) = movedReading f id (place finish ts) := by
  unfold place
  rw [nextIs_moved, ← List.map_tail, peek_moved]
  split
  · rw [expect_moved]
    refine movedReading_bind f fun name rest => ?_
    dsimp only
    rw [expect_moved]
    exact movedReading_bind f fun closing rest => rfl
  · dsimp only [Token.moved_kind]
    split
    · rw [importPath_moved]
      cases importPath (peek finish ts) _ <;> rfl
    · rfl

theorem targetNames_moved :
    targetNames (f finish) (ts.map (Token.moved f)) =
      movedReading f id (targetNames finish ts) := by
  fun_induction targetNames finish ts with
  | case1 => rfl
  | case2 t rest hstar =>
    rw [movedReading_refuse, List.map_cons, targetNames.eq_def]
    simp [hstar]
  | case3 t rest hstar hword =>
    rw [List.map_cons, targetNames.eq_def]
    simp [movedReading, hstar, hword]
  | case4 t hstar hword => simp [targetNames, movedReading, hstar, hword]
  | case5 t hstar hword c after hcomma names rest hafter ih =>
    rw [hafter] at ih
    simp [targetNames, movedReading, hstar, hword, hcomma, ih]
  | case6 t hstar hword c after hcomma refusal hafter ih =>
    rw [hafter] at ih
    simp [targetNames, movedReading, hstar, hword, hcomma, ih]
  | case7 t hstar hword c after hcomma =>
    simp [targetNames, movedReading, hstar, hword, hcomma]

theorem targets_moved :
    targets (f finish) (ts.map (Token.moved f)) = movedReading f id (targets finish ts) := by
  unfold targets
  rw [nextIs_moved, nextIs_moved, targetNames_moved]
  split
  · rw [← List.map_tail]
    rfl
  · split
    · rfl
    · rw [movedReading_refuse]

theorem importAlias_moved (names : List String) :
    importAlias (f finish) names (ts.map (Token.moved f)) =
      movedReading f id (importAlias finish names ts) := by
  unfold importAlias
  rw [nextIs_moved, ← List.map_tail, expect_moved]
  split
  · split
    · rw [movedReading_refuse]
    split
    · rw [movedReading_refuse]
    · exact movedReading_bind f fun name rest => rfl
  · rfl

theorem importRequest_moved :
    importRequest (f finish) (t.moved f) (ts.map (Token.moved f)) =
      movedReading f (Node.moved f) (importRequest finish t ts) := by
  unfold importRequest
  rw [startsPlace_moved]
  split
  · rw [place_moved]
    exact movedReading_bind f fun source rest => rfl
  · rw [targets_moved]
    refine movedReading_bind f fun names rest => ?_
    dsimp only
    rw [expect_moved]
    refine movedReading_bind f fun word rest => ?_
    dsimp only
    rw [startsPlace_moved, place_moved]
    split
    · rw [movedReading_refuse]
    refine movedReading_bind f fun source rest => ?_
    dsimp only
    rw [importAlias_moved]
    exact movedReading_bind f fun rename rest => rfl

/-! ## Items -/

def Opening.moved : Opening → Opening
  | sequence token => .sequence (token.moved f)
  | function token signature => .function (token.moved f) signature

def Item.moved : Item → Item
  | leaf node => .leaf (node.moved f)
  | opens opening => .opens (opening.moved f)

theorem functionItem_moved (isPublic : Bool) :
    functionItem (f finish) isPublic (ts.map (Token.moved f)) =
      movedReading f (Item.moved f) (functionItem finish isPublic ts) := by
  unfold functionItem
  rw [functionHead_moved]
  exact movedReading_bind f fun head rest => rfl

theorem leafItem_moved (reading : Except Refusal (Node Unit × List Token)) :
    leafItem (movedReading f (Node.moved f) reading) =
      movedReading f (Item.moved f) (leafItem reading) :=
  movedReading_bind f fun _ _ => rfl

theorem publicItem_moved :
    publicItem (f finish) (t.moved f) (ts.map (Token.moved f)) =
      movedReading f (Item.moved f) (publicItem finish t ts) := by
  unfold publicItem
  rw [nextIs_moved, nextIs_moved, ← List.map_tail, functionItem_moved, letBinding_moved,
    leafItem_moved]
  split
  · rfl
  · split <;> rfl

theorem symbolItem_moved (s : Symbol) :
    symbolItem (f finish) (t.moved f) s (ts.map (Token.moved f)) =
      movedReading f (Item.moved f) (symbolItem finish t s ts) := by
  unfold symbolItem
  rw [array_moved, leafItem_moved]
  split
  · rfl
  split
  · rfl
  split <;> rfl

/-- **What starts with a token is read by what it is and spells, wherever it stands.** -/
theorem item_moved :
    item (f finish) (t.moved f) (ts.map (Token.moved f)) =
      movedReading f (Item.moved f) (item finish t ts) := by
  unfold item
  rw [functionItem_moved, letBinding_moved, leafItem_moved, publicItem_moved, importRequest_moved,
    leafItem_moved, name_moved, leafItem_moved, Token.moved_kind]
  split
  · rfl
  · rfl
  · rfl
  · rfl
  · rfl
  · rfl
  · exact symbolItem_moved f finish t ts _
  · rfl

/-! ## Blocks -/

/-- The open block with its nodes at other places. -/
def Frame.moved (frame : Frame) : Frame :=
  ⟨frame.opening.moved f, frame.before.map (Node.moved f)⟩

/-- What reading gives, with the nodes moved, or the place of the refusal. -/
def movedNodes : Except Refusal (List (Node Unit)) → Except Refusal (List (Node Unit))
  | .ok nodes => .ok (nodes.map (Node.moved f))
  | .error refusal => .error (refusal.moved f)

theorem Opening.unterminated_moved (opening : Opening) :
    (opening.moved f).unterminated = opening.unterminated := by
  cases opening <;> rfl

theorem Opening.close_moved (opening : Opening) (body : List (Node Unit)) :
    (opening.moved f).close (body.map (Node.moved f)) = (opening.close body).moved f := by
  rw [← Node.movedAll_eq_map]
  cases opening <;> rfl

/-- **Blocks are read by what their tokens are and spell, wherever these stand.** -/
theorem readNodes_moved (frames : List Frame) (done : List (Node Unit)) :
    readNodes (f finish) (frames.map (Frame.moved f)) (done.map (Node.moved f))
        (ts.map (Token.moved f)) =
      movedNodes f (readNodes finish frames done ts) := by
  fun_induction readNodes finish frames done ts with
  | case1 done =>
    rw [readNodes.eq_def]
    simp [movedNodes]
  | case2 done frame outer =>
    rw [readNodes.eq_def]
    simp [movedNodes, Frame.moved, Opening.unterminated_moved, Refusal.moved]
  | case3 done t rest frame outer hbrace ih =>
    -- the recursion carries its list with a proof of membership at each node
    have plain : done.attach.reverse.unattach = done.reverse := by simp
    rw [plain] at ih
    let brace : Punct .rightBrace := ⟨(), t.moved f, (TokenKind.isSymbol_iff _).1 hbrace⟩
    rw [List.map_cons, List.map_cons, ← ih, List.map_cons, ← Opening.close_moved, List.map_reverse]
    exact readNodes_close (frame.moved f) brace
  | case4 done t rest frames refusal hread hclose =>
    have hitem := item_moved f finish t rest
    rw [hread] at hitem
    rw [List.map_cons, readNodes, hitem]
    · rfl
    · intro frame outer hframes hbrace
      obtain ⟨frame, outer, rfl, -⟩ := List.map_eq_cons_iff.1 hframes
      exact hclose frame outer rfl hbrace
  | case5 done t rest frames node after hread hclose ih =>
    have hitem := item_moved f finish t rest
    rw [hread] at hitem
    rw [List.map_cons, readNodes_leaf hitem]
    exact ih
  | case6 done t rest frames opening after hread hclose ih =>
    have hitem := item_moved f finish t rest
    rw [hread] at hitem
    rw [List.map_cons, readNodes_opens hitem]
    exact ih

end Tree

end Catena

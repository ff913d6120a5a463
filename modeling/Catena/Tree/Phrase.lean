import Catena.Diagnostic
import Catena.Tree.Node

/-!
# Phrases of the grammar

The parts of a program that do not nest: signatures, imports, arrays, names. Each reader takes the
tokens that are left and gives what it read with the tokens after it, or refuses at a place of the
text. No reader gives back more tokens than it was given.
-/

namespace Catena.Tree

/-- Why and where a text is refused. -/
structure Refusal where
  error : ParseError
  position : Position

/-- The next token; at the end of the input, the token that ends it. -/
def peek (finish : Position) (ts : List Token) : Token :=
  ts.headD (Token.endOfInput finish)

/-- Refuses at the next token. -/
def refuse {α : Type} (finish : Position) (ts : List Token) (error : ParseError) :
    Except Refusal α :=
  .error ⟨error, (peek finish ts).position⟩

/-- Refuses a token that starts no phrase. -/
def unexpected {α : Type} (t : Token) : Except Refusal α :=
  .error ⟨.unexpectedToken t.lexeme t.kind.name, t.position⟩

/-- Takes the next token if its kind is the expected one. -/
def expect (finish : Position) (error : ParseError) (isExpected : TokenKind → Bool) :
    List Token → Except Refusal (Token × List Token)
  | [] => refuse finish [] error
  | t :: rest => if isExpected t.kind then .ok (t, rest) else refuse finish (t :: rest) error

/-- Whether the next token has the expected kind. -/
def nextIs (isExpected : TokenKind → Bool) (ts : List Token) : Bool :=
  ts.head?.any (isExpected ·.kind)

/-- A word of a signature: a type, or the absence of any. -/
inductive TypeWord
  | type (t : ValueType)
  | void
  deriving DecidableEq

/-- The word of a signature that a token is. -/
def typeWord? : TokenKind → Option TypeWord
  | .keyword .numWord => some (.type .number)
  | .keyword .boolWord => some (.type .boolean)
  | .keyword .strWord => some (.type .string)
  | .keyword .seqWord => some (.type .sequence)
  | .keyword .arrayWord => some (.type .array)
  | .keyword .anyWord => some (.type .any)
  | .keyword .voidWord => some .void
  | _ => none

/-- Reads words of a signature as long as commas follow. A token that is no such word is refused at
the token after it. -/
def typeWords (finish : Position) (side : SignatureSide) : List Token →
    Except Refusal (List TypeWord × List Token)
  | [] => refuse finish [] (.expectedType side)
  | t :: rest =>
    match typeWord? t.kind with
    | none => refuse finish rest (.expectedType side)
    | some word =>
      match rest with
      | [] => .ok ([word], [])
      | c :: after =>
        if c.kind.isSymbol .comma then
          match typeWords finish side after with
          | .ok (words, rest) => .ok (word :: words, rest)
          | .error refusal => .error refusal
        else .ok ([word], c :: after)

/-- The type that a word names. -/
def TypeWord.type? : TypeWord → Option ValueType
  | type t => some t
  | void => none

/-- Reads one side of a signature. The last type written is that of the top of the stack and comes
first; the absence of types cannot be combined with anything. -/
def conditions (finish : Position) (side : SignatureSide) (ts : List Token) :
    Except Refusal (List ValueType × List Token) :=
  match typeWords finish side ts with
  | .error refusal => .error refusal
  | .ok (words, rest) =>
    if words.contains .void && words.length > 1 then refuse finish rest .voidAmongTypes
    else .ok ((words.filterMap TypeWord.type?).reverse, rest)

/-- Reads the parenthesised conditions of a signature; without a parenthesis there are none. -/
def signatureTypes (finish : Position) (ts : List Token) :
    Except Refusal ((List ValueType × List ValueType) × List Token) :=
  if nextIs (·.isSymbol .leftParen) ts then do
    let (pre, rest) ← conditions finish .before ts.tail
    let (_, rest) ← expect finish .expectedArrow (·.isSymbol .arrow) rest
    let (post, rest) ← conditions finish .after rest
    let (_, rest) ← expect finish .expectedSignatureEnd (·.isSymbol .rightParen) rest
    return ((pre, post), rest)
  else .ok (([], []), ts)

/-- Reads the head of a function up to and including the brace that opens its body. -/
def functionHead (finish : Position) (isPublic : Bool) (ts : List Token) :
    Except Refusal ((Token × Signature) × List Token) := do
  let (name, rest) ← expect finish .expectedFunctionName (·.isIdentifier) ts
  let ((pre, post), rest) ← signatureTypes finish rest
  let (_, rest) ← expect finish .expectedBody (·.isSymbol .leftBrace) rest
  return ((name, { name := name.lexeme, isPublic, pre, post }), rest)

/-- Reads the name that a value is bound to. -/
def letBinding (finish : Position) (isPublic : Bool) (ts : List Token) :
    Except Refusal (Node Unit × List Token) := do
  let (name, rest) ← expect finish .expectedLetName (·.isIdentifier) ts
  return (.binding ⟨(), name⟩ name.lexeme isPublic, rest)

/-- Reads the rest of a name after its first identifier: a member of a namespace after a dot. -/
def name (finish : Position) (t : Token) (ts : List Token) :
    Except Refusal (Node Unit × List Token) :=
  if nextIs (·.isSymbol .dot) ts then do
    let (member, rest) ← expect finish .expectedMember (·.isIdentifier) ts.tail
    return (.identifier ⟨(), member⟩ (some t) member.lexeme, rest)
  else .ok (.identifier ⟨(), t⟩ none t.lexeme, ts)

/-- Reads literals, each followed by a comma or by the closing bracket. -/
def arrayItems (finish : Position) : List Token → Except Refusal (List Literal × List Token)
  | [] => refuse finish [] .expectedArrayEnd
  | t :: rest =>
    match t.kind.literal? with
    | none =>
      if t.kind.isSymbol .rightBracket then .ok ([], rest)
      else refuse finish (t :: rest) .expectedArrayEnd
    | some item =>
      match rest with
      | [] => refuse finish [] .expectedArrayEnd
      | c :: after =>
        if c.kind.isSymbol .comma then
          match arrayItems finish after with
          | .ok (items, rest) => .ok (item :: items, rest)
          | .error refusal => .error refusal
        else if c.kind.isSymbol .rightBracket then .ok ([item], after)
        else refuse finish (c :: after) .expectedArrayEnd

/-- Reads an array after its opening bracket. -/
def array (finish : Position) (t : Token) (ts : List Token) :
    Except Refusal (Node Unit × List Token) := do
  let (items, rest) ← arrayItems finish ts
  return (.array ⟨(), t⟩ items, rest)

/-- Whether the next token can start the place that an import takes from. -/
def startsPlace (ts : List Token) : Bool :=
  nextIs (·.isSymbol .less) ts || nextIs (·.isString) ts

/-- Whether `c` may stand in the path of an imported file. -/
def isImportChar (c : Char) : Bool :=
  ('a' ≤ c && c ≤ 'z') || ('0' ≤ c && c ≤ '9') || c == '-' || c == '_' || c == '.' || c == '/'

/-- The path of an imported file, checked for its ending and then for its characters. -/
def importPath (t : Token) (file : String) : Except Refusal String :=
  if !hasEnding sourceExtension file then .error ⟨.importWithoutExtension, t.position⟩
  else match file.toList.find? (!isImportChar ·) with
    | some c => .error ⟨.forbiddenImportCharacter file c, t.position⟩
    | none => .ok file

/-- Reads the place that an import takes from: a namespace in angle brackets or the path of a
file. -/
def place (finish : Position) (ts : List Token) : Except Refusal (String × List Token) :=
  if nextIs (·.isSymbol .less) ts then do
    let (name, rest) ← expect finish .expectedNamespaceName (·.isIdentifier) ts.tail
    let (_, rest) ← expect finish .expectedNamespaceEnd (·.isSymbol .greater) rest
    return (name.lexeme, rest)
  else
    let t := peek finish ts
    match t.kind with
    | .literal (.string file) => do
      let path ← importPath t file
      return (path, ts.tail)
    | _ => unexpected t

/-- Reads the names that an import takes, with an optional comma after the last. -/
def targetNames (finish : Position) : List Token → Except Refusal (List String × List Token)
  | [] => .ok ([], [])
  | t :: rest =>
    if t.kind.isSymbol .star then refuse finish (t :: rest) .starAmongTargets
    else if !t.kind.isIdentifier then .ok ([], t :: rest)
    else
      match rest with
      | [] => .ok ([t.lexeme], [])
      | c :: after =>
        if c.kind.isSymbol .comma then
          match targetNames finish after with
          | .ok (names, rest) => .ok (t.lexeme :: names, rest)
          | .error refusal => .error refusal
        else .ok ([t.lexeme], c :: after)

/-- Reads what an import takes: everything, or some names. -/
def targets (finish : Position) (ts : List Token) : Except Refusal (List String × List Token) :=
  if nextIs (·.isSymbol .star) ts then .ok ([starTarget], ts.tail)
  else if nextIs (·.isIdentifier) ts then targetNames finish ts
  else refuse finish ts .expectedTarget

/-- Reads the name under which the only target of an import is bound, if one is given. -/
def importAlias (finish : Position) (targets : List String) (ts : List Token) :
    Except Refusal (Option String × List Token) :=
  if nextIs (·.isKeyword .asWord) ts then
    if targets.contains starTarget then refuse finish ts .aliasOfStar
    else if targets.length > 1 then refuse finish ts .aliasOfMany
    else do
      let (name, rest) ← expect finish .expectedAlias (·.isIdentifier) ts.tail
      return (some name.lexeme, rest)
  else .ok (none, ts)

/-- Reads an import after its keyword. -/
def importRequest (finish : Position) (t : Token) (ts : List Token) :
    Except Refusal (Node Unit × List Token) :=
  if startsPlace ts then do
    let (source, rest) ← place finish ts
    return (.importing ⟨(), t⟩ { source, targets := [], rename := none }, rest)
  else do
    let (targets, rest) ← targets finish ts
    let (_, rest) ← expect finish .expectedFrom (·.isKeyword .fromWord) rest
    if !startsPlace rest then refuse finish rest .expectedNamespace
    else do
      let (source, rest) ← place finish rest
      let (rename, rest) ← importAlias finish targets rest
      return (.importing ⟨(), t⟩ { source, targets, rename }, rest)

/-! ## No reader gives back more tokens than it was given -/

/-- The two steps of a reading that succeeded. -/
theorem bind_ok {α β : Type} {x : Except Refusal α} {f : α → Except Refusal β} {b : β}
    (h : (x >>= f) = .ok b) : ∃ a, x = .ok a ∧ f a = .ok b := by
  cases x with
  | error e => simp [bind, Except.bind] at h
  | ok a => exact ⟨a, rfl, h⟩

theorem expect_length {finish : Position} {error : ParseError} {isExpected : TokenKind → Bool}
    {ts : List Token} {r : Token × List Token}
    (h : expect finish error isExpected ts = .ok r) : r.2.length ≤ ts.length := by
  unfold expect at h
  split at h
  · simp [refuse] at h
  · split at h
    · cases h; simp
    · simp [refuse] at h

theorem typeWords_length {finish : Position} {side : SignatureSide} {ts : List Token}
    {r : List TypeWord × List Token} (h : typeWords finish side ts = .ok r) :
    r.2.length ≤ ts.length := by
  fun_induction typeWords finish side ts generalizing r <;> simp_all [refuse]
  all_goals (subst h; simp_all; try omega)

theorem conditions_length {finish : Position} {side : SignatureSide} {ts : List Token}
    {r : List ValueType × List Token} (h : conditions finish side ts = .ok r) :
    r.2.length ≤ ts.length := by
  unfold conditions at h
  split at h
  · simp at h
  · next words rest heq =>
    split at h
    · simp [refuse] at h
    · cases h; exact typeWords_length heq

theorem signatureTypes_length {finish : Position} {ts : List Token}
    {r : (List ValueType × List ValueType) × List Token}
    (h : signatureTypes finish ts = .ok r) : r.2.length ≤ ts.length := by
  unfold signatureTypes at h
  split at h
  · obtain ⟨⟨pre, afterPre⟩, hpre, h⟩ := bind_ok h
    obtain ⟨⟨arrow, afterArrow⟩, harrow, h⟩ := bind_ok h
    obtain ⟨⟨post, afterPost⟩, hpost, h⟩ := bind_ok h
    obtain ⟨⟨close, afterClose⟩, hclose, h⟩ := bind_ok h
    cases h
    have h1 := conditions_length hpre
    have h2 := expect_length harrow
    have h3 := conditions_length hpost
    have h4 := expect_length hclose
    simp only [List.length_tail] at *
    omega
  · cases h; exact Nat.le_refl _

theorem functionHead_length {finish : Position} {isPublic : Bool} {ts : List Token}
    {r : (Token × Signature) × List Token} (h : functionHead finish isPublic ts = .ok r) :
    r.2.length ≤ ts.length := by
  obtain ⟨⟨name, afterName⟩, hname, h⟩ := bind_ok h
  obtain ⟨⟨⟨pre, post⟩, afterTypes⟩, htypes, h⟩ := bind_ok h
  obtain ⟨⟨brace, afterBrace⟩, hbrace, h⟩ := bind_ok h
  cases h
  exact Nat.le_trans (expect_length hbrace)
    (Nat.le_trans (signatureTypes_length htypes) (expect_length hname))

theorem letBinding_length {finish : Position} {isPublic : Bool} {ts : List Token}
    {r : Node Unit × List Token} (h : letBinding finish isPublic ts = .ok r) :
    r.2.length ≤ ts.length := by
  obtain ⟨⟨name, afterName⟩, hname, h⟩ := bind_ok h
  cases h
  exact expect_length hname

theorem name_length {finish : Position} {t : Token} {ts : List Token}
    {r : Node Unit × List Token} (h : name finish t ts = .ok r) : r.2.length ≤ ts.length := by
  unfold name at h
  split at h
  · obtain ⟨⟨member, afterMember⟩, hmember, h⟩ := bind_ok h
    cases h
    have := expect_length hmember
    simp only [List.length_tail] at this ⊢
    omega
  · cases h; exact Nat.le_refl _

theorem arrayItems_length {finish : Position} {ts : List Token} {r : List Literal × List Token}
    (h : arrayItems finish ts = .ok r) : r.2.length ≤ ts.length := by
  fun_induction arrayItems finish ts generalizing r <;> simp_all [refuse]
  all_goals (subst h; simp_all; try omega)

theorem array_length {finish : Position} {t : Token} {ts : List Token}
    {r : Node Unit × List Token} (h : array finish t ts = .ok r) : r.2.length ≤ ts.length := by
  obtain ⟨⟨items, afterItems⟩, hitems, h⟩ := bind_ok h
  cases h
  exact arrayItems_length hitems

theorem place_length {finish : Position} {ts : List Token} {r : String × List Token}
    (h : place finish ts = .ok r) : r.2.length ≤ ts.length := by
  unfold place at h
  split at h
  · obtain ⟨⟨name, afterName⟩, hname, h⟩ := bind_ok h
    obtain ⟨⟨close, afterClose⟩, hclose, h⟩ := bind_ok h
    cases h
    have h1 := expect_length hname
    have h2 := expect_length hclose
    simp only [List.length_tail] at *
    omega
  · dsimp only at h
    split at h
    · obtain ⟨path, _, h⟩ := bind_ok h
      cases h
      simp
    · simp [unexpected] at h

theorem targetNames_length {finish : Position} {ts : List Token} {r : List String × List Token}
    (h : targetNames finish ts = .ok r) : r.2.length ≤ ts.length := by
  fun_induction targetNames finish ts generalizing r <;> simp_all [refuse]
  all_goals (subst h; simp_all; try omega)

theorem targets_length {finish : Position} {ts : List Token} {r : List String × List Token}
    (h : targets finish ts = .ok r) : r.2.length ≤ ts.length := by
  unfold targets at h
  split at h
  · cases h; simp
  · split at h
    · exact targetNames_length h
    · simp [refuse] at h

theorem importAlias_length {finish : Position} {targets : List String} {ts : List Token}
    {r : Option String × List Token} (h : importAlias finish targets ts = .ok r) :
    r.2.length ≤ ts.length := by
  unfold importAlias at h
  split at h
  · split at h
    · simp [refuse] at h
    split at h
    · simp [refuse] at h
    · obtain ⟨⟨name, afterName⟩, hname, h⟩ := bind_ok h
      cases h
      have := expect_length hname
      simp only [List.length_tail] at this ⊢
      omega
  · cases h; exact Nat.le_refl _

theorem importRequest_length {finish : Position} {t : Token} {ts : List Token}
    {r : Node Unit × List Token} (h : importRequest finish t ts = .ok r) :
    r.2.length ≤ ts.length := by
  unfold importRequest at h
  split at h
  · obtain ⟨⟨source, afterSource⟩, hsource, h⟩ := bind_ok h
    cases h
    exact place_length hsource
  · obtain ⟨⟨names, afterNames⟩, hnames, h⟩ := bind_ok h
    obtain ⟨⟨word, afterWord⟩, hword, h⟩ := bind_ok h
    dsimp only at h
    split at h
    · simp [refuse] at h
    · obtain ⟨⟨source, afterSource⟩, hsource, h⟩ := bind_ok h
      obtain ⟨⟨rename, afterAlias⟩, halias, h⟩ := bind_ok h
      cases h
      exact Nat.le_trans (importAlias_length halias) (Nat.le_trans (place_length hsource)
        (Nat.le_trans (expect_length hword) (targets_length hnames)))

end Catena.Tree

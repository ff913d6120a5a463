import Catena.Proofs.Tree.Derivation

/-!
# Reading phrases

Each reader is compared with the part of the grammar that it reads. What it takes off the front of
the tokens is derived by that part (`…_sound`). Where such a part stands in front, and what follows
does not continue it, the reader takes exactly that part and gives its value (`…_complete`).
-/

namespace Catena

namespace TokenKind

theorem isSymbol_iff {s : Symbol} (k : TokenKind) : k.isSymbol s = true ↔ k = .symbol s := by
  cases k with
  | symbol t => simp only [isSymbol, beq_iff_eq, symbol.injEq, eq_comm (a := s)]
  | _ => simp [isSymbol]

theorem isKeyword_iff {w : Keyword} (k : TokenKind) : k.isKeyword w = true ↔ k = .keyword w := by
  cases k with
  | keyword l => simp only [isKeyword, beq_iff_eq, keyword.injEq, eq_comm (a := w)]
  | _ => simp [isKeyword]

theorem isIdentifier_iff (k : TokenKind) : k.isIdentifier = true ↔ k = .identifier := by
  cases k with
  | identifier => exact ⟨fun _ => rfl, fun _ => rfl⟩
  | _ => simp [isIdentifier]

end TokenKind

namespace Tree

attribute [simp] Spelled.spelled

@[simp] theorem nextIs_cons (isExpected : TokenKind → Bool) (t : Token) (ts : List Token) :
    nextIs isExpected (t :: ts) = isExpected t.kind := rfl

theorem bind_of_ok {α β : Type} {x : Except Refusal α} {a : α} {f : α → Except Refusal β}
    (h : x = .ok a) : (x >>= f) = f a := by
  rw [h]
  rfl

variable {finish : Position} {ts rest : List Token}

section Terminals

variable {kind : TokenKind} {isExpected : TokenKind → Bool} {error : ParseError}
  (hexpected : ∀ k, isExpected k = true ↔ k = kind)

include hexpected

theorem expect_sound {r : Token × List Token} (h : expect finish error isExpected ts = .ok r) :
    ∃ t : Terminal kind, ts = t.token :: r.2 ∧ r.1 = t.token := by
  unfold expect at h
  split at h
  · cases h
  · next t rest =>
    split at h
    · next hkind =>
      cases h
      exact ⟨⟨(), t, (hexpected _).1 hkind⟩, rfl, rfl⟩
    · cases h

theorem expect_complete (t : Terminal kind) :
    expect finish error isExpected (t.token :: rest) = .ok (t.token, rest) :=
  if_pos ((hexpected _).2 t.spelled)

theorem nextIs_sound (h : nextIs isExpected ts = true) :
    ∃ t : Terminal kind, ts = t.token :: ts.tail := by
  cases ts with
  | nil => cases h
  | cons t rest => exact ⟨⟨(), t, (hexpected _).1 h⟩, rfl⟩

theorem nextIs_complete (t : Terminal kind) : nextIs isExpected (t.token :: rest) = true :=
  (hexpected _).2 t.spelled

theorem isExpected_eq_false {k : TokenKind} (h : k ≠ kind) : isExpected k = false :=
  Bool.eq_false_iff.2 fun hk => h ((hexpected k).1 hk)

end Terminals

/-! ## Signatures -/

/-- The kind of the word for a type, or for the absence of any. -/
def TypeWord.kind : TypeWord → TokenKind
  | type t => .keyword t.keyword
  | void => .keyword .voidWord

theorem typeWord?_eq_some_iff {k : TokenKind} {word : TypeWord} :
    typeWord? k = some word ↔ k = word.kind := by
  constructor
  · intro h
    unfold typeWord? at h
    split at h <;> cases h <;> rfl
  · rintro rfl
    cases word with
    | type t => cases t <;> rfl
    | void => rfl

/-- The values that are listed. -/
def Separated.values {α : Type} {kind : α → TokenKind} (s : Separated kind) : List α :=
  s.items.map (·.value)

-- a comma is always followed by another word here, unlike in arrays and among targets
theorem typeWords_sound {side : SignatureSide} {r : List TypeWord × List Token}
    (h : typeWords finish side ts = .ok r) :
    ∃ words : Separated TypeWord.kind, ts = words.tokens ++ r.2 ∧ r.1 = words.values := by
  fun_induction typeWords finish side ts generalizing r with
  | case1 => cases h
  | case2 => cases h
  | case3 t word hword =>
    cases h
    exact ⟨⟨⟨word, t, typeWord?_eq_some_iff.1 hword⟩, []⟩, rfl, rfl⟩
  | case4 t word hword c after hcomma words rest hrest ih =>
    cases h
    obtain ⟨⟨first, more⟩, rfl, rfl⟩ := ih hrest
    refine ⟨⟨⟨word, t, typeWord?_eq_some_iff.1 hword⟩,
      (⟨(), c, (TokenKind.isSymbol_iff _).1 hcomma⟩, first) :: more⟩, rfl, rfl⟩
  | case5 => cases h
  | case6 t word hword c after =>
    cases h
    exact ⟨⟨⟨word, t, typeWord?_eq_some_iff.1 hword⟩, []⟩, rfl, rfl⟩

theorem typeWords_complete {side : SignatureSide}
    (types : Separated fun type : ValueType => .keyword type.keyword) {t : Token}
    (ht : t.kind ≠ .symbol .comma) :
    typeWords finish side (types.tokens ++ t :: rest) =
      .ok (types.values.map .type, t :: rest) := by
  obtain ⟨first, more⟩ := types
  have hword : typeWord? first.token.kind = some (.type first.value) :=
    typeWord?_eq_some_iff.2 first.spelled
  induction more generalizing first with
  | nil =>
    have hcomma := isExpected_eq_false (TokenKind.isSymbol_iff (s := .comma)) ht
    show typeWords finish side (first.token :: t :: rest) = _
    rw [typeWords, hword]
    simp only [hcomma, Bool.false_eq_true, if_false]
    rfl
  | cons next more ih =>
    have hrest := ih next.2 (typeWord?_eq_some_iff.2 next.2.spelled)
    have hcomma := (TokenKind.isSymbol_iff _).2 next.1.spelled
    show typeWords finish side (first.token :: next.1.token ::
      (Separated.tokens ⟨next.2, more⟩ ++ t :: rest)) = _
    rw [typeWords, hword]
    simp only [hcomma, if_true, hrest]
    rfl

/-- Words among which there is no `void` are types. -/
theorem exists_types_of_void_notMem (words : Separated TypeWord.kind)
    (h : .void ∉ words.values) :
    ∃ types : Separated fun type : ValueType => .keyword type.keyword,
      words.tokens = types.tokens ∧ words.values = types.values.map .type := by
  have single : ∀ word : Spelled TypeWord.kind, .void ≠ word.value →
      ∃ type : Spelled fun type : ValueType => .keyword type.keyword,
        word.token = type.token ∧ word.value = .type type.value := by
    rintro ⟨value, token, spelled⟩ hvoid
    cases value with
    | void => exact absurd rfl hvoid
    | type type => exact ⟨⟨type, token, spelled⟩, rfl, rfl⟩
  obtain ⟨first, more⟩ := words
  induction more generalizing first with
  | nil =>
    have hfirst : .void ≠ first.value := by simpa [Separated.values, Separated.items] using h
    obtain ⟨type, htoken, hvalue⟩ := single first hfirst
    refine ⟨⟨type, []⟩, ?_, ?_⟩
    · simp [Separated.tokens, htoken]
    · simp [Separated.values, Separated.items, hvalue]
  | cons next more ih =>
    have hwords : .void ≠ first.value ∧
        .void ∉ (⟨next.2, more⟩ : Separated TypeWord.kind).values := by
      simpa [Separated.values, Separated.items] using h
    obtain ⟨type, htoken, hvalue⟩ := single first hwords.1
    obtain ⟨⟨first', more'⟩, htokens, hvalues⟩ := ih next.2 hwords.2
    refine ⟨⟨type, (next.1, first') :: more'⟩, ?_, ?_⟩
    · show first.token :: next.1.token :: (⟨next.2, more⟩ : Separated TypeWord.kind).tokens = _
      rw [htokens, htoken]
      rfl
    · show first.value :: (⟨next.2, more⟩ : Separated TypeWord.kind).values = _
      rw [hvalues, hvalue]
      rfl

/-- Words are types if `void` is not among others. -/
theorem exists_types (words : Separated TypeWord.kind)
    (h : ¬(words.values.contains .void ∧ 1 < words.values.length)) :
    ∃ types : Types, words.tokens = types.tokens ∧
      (words.values.filterMap TypeWord.type?).reverse = types.conditions := by
  by_cases hvoid : .void ∈ words.values
  · have hlength : ¬1 < words.values.length := fun hlt => h ⟨List.contains_iff_mem.2 hvoid, hlt⟩
    obtain ⟨⟨value, token, spelled⟩, more⟩ := words
    cases more with
    | nil =>
      obtain rfl : .void = value := by simpa [Separated.values, Separated.items] using hvoid
      exact ⟨.void ⟨(), token, spelled⟩, rfl, rfl⟩
    | cons next more => simp [Separated.values, Separated.items] at hlength
  · obtain ⟨types, htokens, hvalues⟩ := exists_types_of_void_notMem words hvoid
    refine ⟨.list types, htokens, ?_⟩
    rw [hvalues, List.filterMap_map]
    exact congrArg List.reverse List.filterMap_some

theorem conditions_sound {side : SignatureSide} {r : List ValueType × List Token}
    (h : conditions finish side ts = .ok r) :
    ∃ types : Types, ts = types.tokens ++ r.2 ∧ r.1 = types.conditions := by
  unfold conditions at h
  split at h
  · cases h
  · next words after hwords =>
    obtain ⟨words, rfl, rfl⟩ := typeWords_sound hwords
    split at h
    · cases h
    · next hmixed =>
      cases h
      obtain ⟨types, htokens, hvalues⟩ := exists_types words (by simpa using hmixed)
      exact ⟨types, by rw [htokens], hvalues⟩

theorem conditions_complete {side : SignatureSide} (types : Types) {t : Token}
    (ht : t.kind ≠ .symbol .comma) :
    conditions finish side (types.tokens ++ t :: rest) = .ok (types.conditions, t :: rest) := by
  unfold conditions
  cases types with
  | void word =>
    have hcomma := isExpected_eq_false (TokenKind.isSymbol_iff (s := .comma)) ht
    have hword : typeWord? word.token.kind = some .void := typeWord?_eq_some_iff.2 word.spelled
    have hwords : typeWords finish side (word.token :: t :: rest) = .ok ([.void], t :: rest) := by
      rw [typeWords, hword]
      simp only [hcomma, Bool.false_eq_true, if_false]
    have htokens : (Types.void word).tokens ++ t :: rest = word.token :: t :: rest := rfl
    rw [htokens, hwords]
    rfl
  | list types =>
    have hvoid : (types.values.map TypeWord.type).contains .void = false := by simp
    have hvalues : (types.values.map TypeWord.type).filterMap TypeWord.type? = types.values := by
      rw [List.filterMap_map]
      exact List.filterMap_some
    rw [Types.tokens, typeWords_complete types ht]
    dsimp only
    rw [hvoid, Bool.false_and, if_neg Bool.false_ne_true, hvalues]
    rfl

theorem signatureTypes_sound {r : (List ValueType × List ValueType) × List Token}
    (h : signatureTypes finish ts = .ok r) :
    ∃ conditions : Option Conditions, ts = (conditions.map (·.tokens)).getD [] ++ r.2 ∧
      r.1 = ((conditions.map (·.pre.conditions)).getD [],
        (conditions.map (·.post.conditions)).getD []) := by
  unfold signatureTypes at h
  split at h
  · next hopening =>
    obtain ⟨opening, hopening⟩ := nextIs_sound TokenKind.isSymbol_iff hopening
    obtain ⟨⟨pre, afterPre⟩, hpre, h⟩ := bind_ok h
    obtain ⟨⟨arrow, afterArrow⟩, harrow, h⟩ := bind_ok h
    obtain ⟨⟨post, afterPost⟩, hpost, h⟩ := bind_ok h
    obtain ⟨⟨close, afterClose⟩, hclose, h⟩ := bind_ok h
    cases h
    obtain ⟨pre, hpre, rfl⟩ := conditions_sound hpre
    obtain ⟨arrow, rfl, -⟩ := expect_sound TokenKind.isSymbol_iff harrow
    obtain ⟨post, rfl, rfl⟩ := conditions_sound hpost
    obtain ⟨closing, rfl, -⟩ := expect_sound TokenKind.isSymbol_iff hclose
    refine ⟨some ⟨opening, pre, arrow, post, closing⟩, ?_, rfl⟩
    rw [hopening, hpre]
    simp [Conditions.tokens]
  · cases h
    exact ⟨none, rfl, rfl⟩

theorem signatureTypes_complete (conditions : Option Conditions) (brace : Punct .leftBrace) :
    signatureTypes finish ((conditions.map (·.tokens)).getD [] ++ brace.token :: rest) =
      .ok (((conditions.map (·.pre.conditions)).getD [],
        (conditions.map (·.post.conditions)).getD []), brace.token :: rest) := by
  unfold signatureTypes
  cases conditions with
  | none => simp [TokenKind.isSymbol]
  | some c =>
    have hopening : nextIs (·.isSymbol .leftParen)
        (c.tokens ++ brace.token :: rest) = true :=
      nextIs_complete TokenKind.isSymbol_iff c.opening
    have htail : (c.tokens ++ brace.token :: rest).tail = c.pre.tokens ++ c.arrow.token ::
        (c.post.tokens ++ c.closing.token :: brace.token :: rest) := by
      simp [Conditions.tokens]
    have harrow : c.arrow.token.kind ≠ .symbol .comma := by simp
    have hclosing : c.closing.token.kind ≠ .symbol .comma := by simp
    simp only [Option.map_some, Option.getD_some]
    rw [if_pos hopening, htail, bind_of_ok (conditions_complete c.pre harrow)]
    dsimp only
    rw [bind_of_ok (expect_complete TokenKind.isSymbol_iff c.arrow)]
    dsimp only
    rw [bind_of_ok (conditions_complete c.post hclosing)]
    dsimp only
    rw [bind_of_ok (expect_complete TokenKind.isSymbol_iff c.closing)]
    rfl

theorem functionHead_sound {isPublic : Bool} {r : (Token × Signature) × List Token}
    (h : functionHead finish isPublic ts = .ok r) :
    ∃ (name : Ident) (conditions : Option Conditions) (brace : Punct .leftBrace),
      ts = name.token :: (conditions.map (·.tokens)).getD [] ++ brace.token :: r.2 ∧
        r.1 = (name.token, signature name isPublic conditions) := by
  obtain ⟨⟨name, afterName⟩, hname, h⟩ := bind_ok h
  obtain ⟨⟨⟨pre, post⟩, afterTypes⟩, htypes, h⟩ := bind_ok h
  obtain ⟨⟨brace, afterBrace⟩, hbrace, h⟩ := bind_ok h
  cases h
  obtain ⟨name, rfl, rfl⟩ := expect_sound TokenKind.isIdentifier_iff hname
  obtain ⟨conditions, rfl, hconditions⟩ := signatureTypes_sound htypes
  obtain ⟨brace, rfl, -⟩ := expect_sound TokenKind.isSymbol_iff hbrace
  obtain ⟨rfl, rfl⟩ := Prod.mk.inj hconditions
  exact ⟨name, conditions, brace, rfl, rfl⟩

theorem functionHead_complete (isPublic : Bool) (name : Ident) (conditions : Option Conditions)
    (brace : Punct .leftBrace) :
    functionHead finish isPublic
        (name.token :: (conditions.map (·.tokens)).getD [] ++ brace.token :: rest) =
      .ok ((name.token, signature name isPublic conditions), rest) := by
  unfold functionHead
  rw [List.cons_append, bind_of_ok (expect_complete TokenKind.isIdentifier_iff name)]
  dsimp only
  rw [bind_of_ok (signatureTypes_complete conditions brace)]
  dsimp only
  rw [bind_of_ok (expect_complete TokenKind.isSymbol_iff brace)]
  rfl

/-! ## Arrays -/

/-- The values of the items of an array. -/
def itemValues (items : Option (Listed TokenKind.literal)) : List Literal :=
  (items.map (·.list.values)).getD []

theorem arrayItems_sound {r : List Literal × List Token} (h : arrayItems finish ts = .ok r) :
    ∃ (items : Option (Listed TokenKind.literal)) (closing : Punct .rightBracket),
      ts = (items.map (·.tokens)).getD [] ++ closing.token :: r.2 ∧ r.1 = itemValues items := by
  have literal : ∀ {t : Token} {value : Literal}, t.kind.literal? = some value →
      t.kind = .literal value := by
    intro t value hvalue
    cases hkind : t.kind <;> rw [hkind] at hvalue <;> cases hvalue
    rfl
  -- after a comma the items that remain may be none, and then the comma dangles
  fun_induction arrayItems finish ts generalizing r with
  | case1 => cases h
  | case2 t after _ hclosing =>
    cases h
    exact ⟨none, ⟨(), t, (TokenKind.isSymbol_iff _).1 hclosing⟩, rfl, rfl⟩
  | case3 => cases h
  | case4 => cases h
  | case5 t item hitem c after hcomma items rest hrest ih =>
    cases h
    obtain ⟨others, closing, rfl, rfl⟩ := ih hrest
    have hcomma := (TokenKind.isSymbol_iff _).1 hcomma
    cases others with
    | none => exact ⟨some ⟨⟨⟨item, t, literal hitem⟩, []⟩, some ⟨(), c, hcomma⟩⟩, closing, rfl, rfl⟩
    | some others =>
      obtain ⟨⟨first, more⟩, dangling⟩ := others
      exact ⟨some ⟨⟨⟨item, t, literal hitem⟩, (⟨(), c, hcomma⟩, first) :: more⟩, dangling⟩, closing,
        rfl, rfl⟩
  | case6 => cases h
  | case7 t item hitem c after _ hclosing =>
    cases h
    exact ⟨some ⟨⟨⟨item, t, literal hitem⟩, []⟩, none⟩,
      ⟨(), c, (TokenKind.isSymbol_iff _).1 hclosing⟩, rfl, rfl⟩
  | case8 => cases h

theorem arrayItems_complete (items : Option (Listed TokenKind.literal))
    (closing : Punct .rightBracket) :
    arrayItems finish ((items.map (·.tokens)).getD [] ++ closing.token :: rest) =
      .ok (itemValues items, rest) := by
  have hclosing : arrayItems finish (closing.token :: rest) = .ok ([], rest) := by
    simp [arrayItems, TokenKind.literal?, TokenKind.isSymbol]
  cases items with
  | none => exact hclosing
  | some items =>
    obtain ⟨⟨first, more⟩, dangling⟩ := items
    induction more generalizing first with
    | nil =>
      cases dangling with
      | none =>
        show arrayItems finish (first.token :: closing.token :: rest) = _
        rw [arrayItems]
        simp [TokenKind.literal?, TokenKind.isSymbol]
        rfl
      | some comma =>
        show arrayItems finish (first.token :: comma.token :: closing.token :: rest) = _
        rw [arrayItems]
        simp [TokenKind.literal?, TokenKind.isSymbol, hclosing]
        rfl
    | cons next more ih =>
      have hrest := ih next.2
      show arrayItems finish (first.token :: next.1.token ::
        (Listed.tokens ⟨⟨next.2, more⟩, dangling⟩ ++ closing.token :: rest)) = _
      rw [arrayItems]
      simp only [Option.map_some, Option.getD_some] at hrest
      simp [TokenKind.literal?, TokenKind.isSymbol, hrest]
      rfl

/-! ## Imports -/

theorem place_sound {r : String × List Token} (h : place finish ts = .ok r) :
    ∃ place : Place, ts = place.tokens ++ r.2 ∧ r.1 = place.source := by
  unfold place at h
  split at h
  · next hless =>
    obtain ⟨less, hless⟩ := nextIs_sound TokenKind.isSymbol_iff hless
    obtain ⟨⟨name, afterName⟩, hname, h⟩ := bind_ok h
    obtain ⟨⟨close, afterClose⟩, hclose, h⟩ := bind_ok h
    cases h
    obtain ⟨name, htail, rfl⟩ := expect_sound TokenKind.isIdentifier_iff hname
    obtain ⟨greater, rfl, -⟩ := expect_sound TokenKind.isSymbol_iff hclose
    refine ⟨.bare less name greater, ?_, rfl⟩
    rw [hless, htail]
    rfl
  · dsimp only at h
    split at h
    · next file hfile =>
      obtain ⟨path, hpath, h⟩ := bind_ok h
      cases h
      cases ts with
      | nil => cases hfile
      | cons t after =>
        unfold importPath at hpath
        split at hpath
        · cases hpath
        · next hending =>
          split at hpath
          · cases hpath
          · next hchars =>
            cases hpath
            have hproper : hasEnding sourceExtension file ∧ ∀ c ∈ file.toList, isImportChar c := by
              refine ⟨by simpa using hending, fun c hc => ?_⟩
              simpa using List.find?_eq_none.1 hchars c hc
            exact ⟨.file ⟨⟨file, hproper⟩, t, hfile⟩, rfl, rfl⟩
    · cases h

theorem place_complete (p : Place) : place finish (p.tokens ++ rest) = .ok (p.source, rest) := by
  unfold place
  cases p with
  | bare less name greater =>
    have htokens : (Place.bare less name greater).tokens ++ rest =
        less.token :: name.token :: greater.token :: rest := rfl
    rw [htokens, if_pos (nextIs_complete TokenKind.isSymbol_iff less), List.tail_cons,
      bind_of_ok (expect_complete TokenKind.isIdentifier_iff name)]
    dsimp only
    rw [bind_of_ok (expect_complete TokenKind.isSymbol_iff greater)]
    rfl
  | file path =>
    obtain ⟨⟨file, hending, hchars⟩, token, hkind⟩ := path
    have hnone : file.toList.find? (!isImportChar ·) = none := by
      rw [List.find?_eq_none]
      intro c hc
      simp [hchars c hc]
    have hpath : importPath token file = .ok file := by
      simp [importPath, hending, hnone]
    have htokens : (Place.file ⟨⟨file, hending, hchars⟩, token, hkind⟩).tokens ++ rest =
        token :: rest := rfl
    rw [htokens, if_neg (by simp [hkind, TokenKind.isSymbol])]
    simp only [peek, List.headD_cons, hkind]
    rw [bind_of_ok hpath]
    rfl

theorem startsPlace_tokens (p : Place) : startsPlace (p.tokens ++ rest) = true := by
  cases p <;> simp [startsPlace, Place.tokens, TokenKind.isSymbol, TokenKind.isString]

theorem startsPlace_targets (targets : Targets) :
    startsPlace (targets.tokens ++ rest) = false := by
  cases targets <;> simp [startsPlace, Targets.tokens, Listed.tokens, Separated.tokens,
    TokenKind.isSymbol, TokenKind.isString]

theorem targetNames_sound {r : List String × List Token} (h : targetNames finish ts = .ok r) :
    (nextIs (·.isIdentifier) ts = false ∧ r = ([], ts)) ∨
      ∃ names : Listed fun _ : Unit => .identifier,
        ts = names.tokens ++ r.2 ∧ r.1 = names.list.items.map (·.token.lexeme) := by
  have ident : ∀ {t : Token}, ¬(!t.kind.isIdentifier) = true → t.kind = .identifier := by
    intro t ht
    exact (TokenKind.isIdentifier_iff _).1 (by simpa using ht)
  fun_induction targetNames finish ts generalizing r with
  | case1 => cases h; exact Or.inl ⟨rfl, rfl⟩
  | case2 => cases h
  | case3 t after _ hident =>
    cases h
    exact Or.inl ⟨by simpa using hident, rfl⟩
  | case4 t _ hident =>
    cases h
    exact Or.inr ⟨⟨⟨⟨(), t, ident hident⟩, []⟩, none⟩, rfl, rfl⟩
  | case5 t _ hident c after hcomma names rest hrest ih =>
    cases h
    have hcomma := (TokenKind.isSymbol_iff _).1 hcomma
    rcases ih hrest with ⟨-, hnone⟩ | ⟨others, rfl, rfl⟩
    · obtain ⟨rfl, rfl⟩ := Prod.mk.inj hnone
      exact Or.inr ⟨⟨⟨⟨(), t, ident hident⟩, []⟩, some ⟨(), c, hcomma⟩⟩, rfl, rfl⟩
    · obtain ⟨⟨first, more⟩, dangling⟩ := others
      exact Or.inr ⟨⟨⟨⟨(), t, ident hident⟩, (⟨(), c, hcomma⟩, first) :: more⟩, dangling⟩, rfl, rfl⟩
  | case6 => cases h
  | case7 t _ hident c after =>
    cases h
    exact Or.inr ⟨⟨⟨⟨(), t, ident hident⟩, []⟩, none⟩, rfl, rfl⟩

theorem targetNames_complete (names : Listed fun _ : Unit => .identifier)
    (word : Reserved .fromWord) :
    targetNames finish (names.tokens ++ word.token :: rest) =
      .ok (names.list.items.map (·.token.lexeme), word.token :: rest) := by
  have hword : targetNames finish (word.token :: rest) = .ok ([], word.token :: rest) := by
    unfold targetNames
    simp [TokenKind.isSymbol, TokenKind.isIdentifier]
  obtain ⟨⟨first, more⟩, dangling⟩ := names
  induction more generalizing first with
  | nil =>
    cases dangling with
    | none =>
      show targetNames finish (first.token :: word.token :: rest) = _
      rw [targetNames]
      simp [TokenKind.isIdentifier, TokenKind.isSymbol]
      rfl
    | some comma =>
      show targetNames finish (first.token :: comma.token :: word.token :: rest) = _
      rw [targetNames]
      simp [TokenKind.isIdentifier, TokenKind.isSymbol, hword]
      rfl
  | cons next more ih =>
    have hrest := ih next.2
    show targetNames finish (first.token :: next.1.token ::
      (Listed.tokens ⟨⟨next.2, more⟩, dangling⟩ ++ word.token :: rest)) = _
    rw [targetNames]
    simp [TokenKind.isIdentifier, TokenKind.isSymbol, hrest]
    rfl

theorem targets_sound {r : List String × List Token} (h : targets finish ts = .ok r) :
    ∃ targets : Targets, ts = targets.tokens ++ r.2 ∧ r.1 = targets.texts := by
  unfold targets at h
  split at h
  · next hstar =>
    cases h
    obtain ⟨star, hstar⟩ := nextIs_sound TokenKind.isSymbol_iff hstar
    exact ⟨.star star, hstar, rfl⟩
  split at h
  · next hident =>
    rcases targetNames_sound h with ⟨hnot, -⟩ | ⟨names, hnames⟩
    · rw [hident] at hnot
      cases hnot
    · exact ⟨.names names, hnames⟩
  · cases h

theorem targets_complete (t : Targets) (word : Reserved .fromWord) :
    targets finish (t.tokens ++ word.token :: rest) = .ok (t.texts, word.token :: rest) := by
  unfold targets
  cases t with
  | star token =>
    show (if nextIs (·.isSymbol .star) (token.token :: word.token :: rest) then _ else _) = _
    rw [if_pos (nextIs_complete TokenKind.isSymbol_iff token)]
    rfl
  | names names =>
    have hkind := names.list.first.spelled
    have hstar : nextIs (·.isSymbol .star)
        ((Targets.names names).tokens ++ word.token :: rest) = false := by
      show names.list.first.token.kind.isSymbol .star = false
      rw [hkind]
      rfl
    have hident : nextIs (·.isIdentifier)
        ((Targets.names names).tokens ++ word.token :: rest) = true := by
      show names.list.first.token.kind.isIdentifier = true
      rw [hkind]
      rfl
    rw [hstar, hident]
    exact targetNames_complete names word

theorem Targets.texts_ne_nil (targets : Targets) : targets.texts ≠ [] := by
  cases targets <;> exact List.cons_ne_nil _ _

/-- The targets that can be given another name. -/
theorem Targets.isSingle_iff (targets : Targets) :
    targets.IsSingle ↔ ¬targets.texts.contains starTarget ∧ ¬targets.texts.length > 1 := by
  unfold IsSingle
  have hne := targets.texts_ne_nil
  generalize targets.texts = texts at hne
  cases texts with
  | nil => exact absurd rfl hne
  | cons name more =>
    cases more with
    | nil => simp [eq_comm]
    | cons next more => simp

theorem importAlias_sound {t : Targets} {r : Option String × List Token}
    (h : importAlias finish t.texts ts = .ok r) :
    ∃ rename : Option Renaming, (rename.isSome → t.IsSingle) ∧
      ts = (rename.map (·.tokens)).getD [] ++ r.2 ∧ r.1 = rename.map (·.name.token.lexeme) := by
  unfold importAlias at h
  split at h
  · next hword =>
    obtain ⟨word, hword⟩ := nextIs_sound TokenKind.isKeyword_iff hword
    split at h
    · cases h
    next hstar =>
    split at h
    · cases h
    next hmany =>
    obtain ⟨⟨name, afterName⟩, hname, h⟩ := bind_ok h
    cases h
    obtain ⟨name, htail, rfl⟩ := expect_sound TokenKind.isIdentifier_iff hname
    refine ⟨some ⟨word, name⟩, fun _ => t.isSingle_iff.2 ⟨hstar, hmany⟩, ?_, rfl⟩
    rw [hword, htail]
    rfl
  · cases h
    exact ⟨none, by simp, rfl, rfl⟩

theorem importAlias_complete {t : Targets} (rename : Option Renaming)
    (hsingle : rename.isSome → t.IsSingle) (hrest : nextIs (·.isKeyword .asWord) rest = false) :
    importAlias finish t.texts ((rename.map (·.tokens)).getD [] ++ rest) =
      .ok (rename.map (·.name.token.lexeme), rest) := by
  unfold importAlias
  cases rename with
  | none => simp [hrest]
  | some r =>
    obtain ⟨hstar, hmany⟩ := t.isSingle_iff.1 (hsingle rfl)
    have htokens : ((some r).map (·.tokens)).getD [] ++ rest =
        r.word.token :: r.name.token :: rest := rfl
    rw [htokens, if_pos (nextIs_complete TokenKind.isKeyword_iff r.word), if_neg hstar, if_neg hmany,
      List.tail_cons, bind_of_ok (expect_complete TokenKind.isIdentifier_iff r.name)]
    rfl

theorem importRequest_sound {t : Token} {r : Node Unit × List Token}
    (h : importRequest finish t ts = .ok r) :
    ∃ request : Request, ts = request.tokens ++ r.2 ∧ r.1 = .importing ⟨(), t⟩ request.import := by
  unfold importRequest at h
  split at h
  · obtain ⟨⟨source, afterSource⟩, hsource, h⟩ := bind_ok h
    cases h
    obtain ⟨place, rfl, rfl⟩ := place_sound hsource
    exact ⟨.whole place, rfl, rfl⟩
  · obtain ⟨⟨names, afterNames⟩, hnames, h⟩ := bind_ok h
    obtain ⟨⟨word, afterWord⟩, hword, h⟩ := bind_ok h
    dsimp only at h
    split at h
    · cases h
    · obtain ⟨⟨source, afterSource⟩, hsource, h⟩ := bind_ok h
      obtain ⟨⟨rename, afterAlias⟩, halias, h⟩ := bind_ok h
      cases h
      obtain ⟨targets, rfl, rfl⟩ := targets_sound hnames
      obtain ⟨word, rfl, -⟩ := expect_sound TokenKind.isKeyword_iff hword
      obtain ⟨place, rfl, rfl⟩ := place_sound hsource
      obtain ⟨rename, hsingle, rfl, rfl⟩ := importAlias_sound halias
      refine ⟨.taking targets word place rename hsingle, ?_, rfl⟩
      simp [Request.tokens]

theorem importRequest_complete (t : Token) (request : Request)
    (hrest : nextIs (·.isKeyword .asWord) rest = false) :
    importRequest finish t (request.tokens ++ rest) =
      .ok (.importing ⟨(), t⟩ request.import, rest) := by
  unfold importRequest
  cases request with
  | whole place =>
    rw [Request.tokens, if_pos (startsPlace_tokens place), bind_of_ok (place_complete place)]
    rfl
  | taking targets word place rename hsingle =>
    have htokens : (Request.taking targets word place rename hsingle).tokens ++ rest =
        targets.tokens ++ word.token :: (place.tokens ++ ((rename.map (·.tokens)).getD [] ++ rest)) := by
      simp [Request.tokens]
    rw [htokens, if_neg (Bool.eq_false_iff.1 (startsPlace_targets targets)),
      bind_of_ok (targets_complete targets word)]
    dsimp only
    rw [bind_of_ok (expect_complete TokenKind.isKeyword_iff word)]
    dsimp only
    rw [startsPlace_tokens, if_neg (by simp), bind_of_ok (place_complete place)]
    dsimp only
    rw [bind_of_ok (importAlias_complete rename hsingle hrest)]
    rfl

end Tree

end Catena

import Catena.Source.Piece
import Mathlib.Data.List.TakeWhile

/-!
# Lexemes

What the lexeme of each kind of token looks like (`InClass`): a symbol or a keyword as it is spelled,
an identifier as a word that is not reserved, a numeral as digits with at most one point after the
first of them and at most one minus sign in front, a string between its quotes. The classes are
disjoint (`InClass.unique`), and which of them a text can start with shows in its first character.

No longer lexeme of any kind could have been taken where a word, a numeral, a string or a symbol is
taken (`longest_word`, `longest_numeral`, `longest_string`, `longest_symbol`). Every numeral spells
a number (`isSome_ofText?`).
-/

namespace Catena.Source

open Catena.Text

/-! ## Classes -/

/-- Whether `cs` is a word: a letter, and then letters, digits, dashes and underscores. -/
def isWord : List Char → Bool
  | [] => false
  | c :: rest => isLetter c && rest.all isWordChar

/-- Digits, with at most one point among or after them. -/
def IsMantissa (cs : List Char) : Prop :=
  ∃ whole fraction, cs = whole ++ fraction ∧ (∀ c ∈ whole, isDigit c) ∧
    (fraction = [] ∨ ∃ digits, fraction = '.' :: digits ∧ ∀ c ∈ digits, isDigit c)

/-- A numeral: a digit and then a mantissa, with or without a minus sign in front. -/
def IsNumeral (cs : List Char) : Prop :=
  ∃ c rest, isDigit c ∧ IsMantissa rest ∧ (cs = c :: rest ∨ cs = '-' :: c :: rest)

/-- The texts that a token of the given kind can be read from. -/
def InClass : TokenKind → List Char → Prop
  | .symbol s, cs => cs = s.text.toList
  | .keyword k, cs => cs = k.text.toList
  | .literal (.boolean b), cs => cs = (booleanText b).toList
  | .literal (.number n), cs => IsNumeral cs ∧ Number.ofText? (String.ofList cs) = some n
  | .literal (.string s), cs =>
    ∃ content, cs = '"' :: content ++ ['"'] ∧ '"' ∉ content ∧ s = String.ofList (unescape content)
  | .identifier, cs => isWord cs ∧ (∀ k : Keyword, cs ≠ k.text.toList) ∧
    ∀ b, cs ≠ (booleanText b).toList
  | .endOfInput, _ => False

/-- No lexeme of any kind that `cs ++ rest` starts with is longer than `cs`. -/
def Longest (cs rest : List Char) : Prop :=
  ∀ kind longer, InClass kind longer → longer <+: cs ++ rest → longer.length ≤ cs.length

/-- A comment starts here. -/
def StartsComment (cs : List Char) : Prop :=
  ['/', '/'] <+: cs ∨ ['/', '*'] <+: cs

/-! ## First characters -/

theorem isLetter_iff {c : Char} :
    isLetter c ↔ (97 ≤ c.toNat ∧ c.toNat ≤ 122) ∨ (65 ≤ c.toNat ∧ c.toNat ≤ 90) := by
  simp only [isLetter, Bool.or_eq_true, Bool.and_eq_true, decide_eq_true_eq, Char.le_def,
    UInt32.le_iff_toNat_le]
  rfl

theorem isDigit_iff {c : Char} : isDigit c ↔ 48 ≤ c.toNat ∧ c.toNat ≤ 57 := by
  simp only [isDigit, Bool.and_eq_true, decide_eq_true_eq, Char.le_def, UInt32.le_iff_toNat_le]
  rfl

theorem not_isDigit_of_isLetter {c : Char} (h : isLetter c) : ¬isDigit c := by
  rw [isLetter_iff] at h
  rw [isDigit_iff]
  omega

/-- A blank is no letter and no digit. -/
theorem not_isBlank_of_isLetter_or_isDigit {c : Char} (h : isLetter c ∨ isDigit c) :
    isBlank c = false := by
  rw [isLetter_iff, isDigit_iff] at h
  simp only [isBlank, inRanges, blankRanges, List.any_cons, List.any_nil, Bool.or_false,
    Bool.or_eq_false_iff, Bool.and_eq_false_iff, decide_eq_false_iff_not]
  omega

theorem isWord_keyword (k : Keyword) : isWord k.text.toList = true := by
  cases k <;> decide

theorem isWord_booleanText (b : Bool) : isWord (booleanText b).toList = true := by
  cases b <;> decide

/-- No symbol has a letter, a digit, a quote or a blank in it. -/
theorem symbol_text_chars (s : Symbol) :
    s.text.toList.all fun c => !isLetter c && !isDigit c && c != '"' && !isBlank c := by
  cases s <;> decide

theorem symbol_head {s : Symbol} {c : Char} {rest : List Char} (h : s.text.toList = c :: rest) :
    isLetter c = false ∧ isDigit c = false ∧ c ≠ '"' ∧ isBlank c = false := by
  have hall := symbol_text_chars s
  rw [h] at hall
  rw [List.all_cons, Bool.and_eq_true] at hall
  simpa [and_assoc] using hall.1

/-- What a lexeme is shows in its first character. -/
theorem InClass.head {kind : TokenKind} {c : Char} {rest : List Char} (h : InClass kind (c :: rest)) :
    isWord (c :: rest) ∨ (IsNumeral (c :: rest) ∧ ∃ n, kind = .literal (.number n)) ∨
      (c = '"' ∧ ∃ s, kind = .literal (.string s)) ∨
      ∃ s, kind = .symbol s ∧ s.text.toList = c :: rest := by
  cases kind with
  | symbol s => exact Or.inr (Or.inr (Or.inr ⟨s, rfl, h.symm⟩))
  | keyword k => exact Or.inl (h ▸ isWord_keyword k)
  | identifier => exact Or.inl h.1
  | endOfInput => exact h.elim
  | literal value =>
    cases value with
    | boolean b => exact Or.inl (h ▸ isWord_booleanText b)
    | number n => exact Or.inr (Or.inl ⟨h.1, n, rfl⟩)
    | string s =>
      obtain ⟨content, hcs, -⟩ := h
      exact Or.inr (Or.inr (Or.inl ⟨(List.cons.inj hcs).1, s, rfl⟩))

theorem isLetter_of_isWord {c : Char} {rest : List Char} (h : isWord (c :: rest)) :
    isLetter c ∧ ∀ d ∈ rest, isWordChar d := by
  simpa [isWord] using h

theorem isWordChar_of_mem {cs : List Char} (h : isWord cs) {c : Char} (hc : c ∈ cs) :
    isWordChar c := by
  obtain _ | ⟨first, rest⟩ := cs
  · cases hc
  obtain ⟨hletter, hrest⟩ := isLetter_of_isWord h
  rcases List.mem_cons.1 hc with rfl | hc
  · simp [isWordChar, hletter]
  · exact hrest c hc

theorem IsNumeral.head {c : Char} {rest : List Char} (h : IsNumeral (c :: rest)) :
    isDigit c ∨ (c = '-' ∧ ∃ d more, rest = d :: more ∧ isDigit d) := by
  obtain ⟨d, more, hd, -, heq | heq⟩ := h
  · rw [(List.cons.inj heq).1]
    exact Or.inl hd
  · exact Or.inr ⟨(List.cons.inj heq).1, d, more, (List.cons.inj heq).2, hd⟩

theorem InClass.ne_nil {kind : TokenKind} {cs : List Char} (h : InClass kind cs) : cs ≠ [] := by
  rintro rfl
  cases kind with
  | symbol s => exact Symbol.text_ne_nil s h.symm
  | keyword k => cases k <;> cases h
  | identifier => cases h.1
  | endOfInput => exact h
  | literal value =>
    cases value with
    | boolean b => cases b <;> cases h
    | number n =>
      obtain ⟨⟨c, rest, -, -, heq | heq⟩, -⟩ := h <;> cases heq
    | string s =>
      obtain ⟨content, heq, -⟩ := h
      cases heq

/-- No lexeme starts with a blank. -/
theorem InClass.not_isBlank {kind : TokenKind} {c : Char} {rest : List Char}
    (h : InClass kind (c :: rest)) : isBlank c = false := by
  rcases h.head with hword | ⟨hnumeral, -⟩ | ⟨rfl, -⟩ | ⟨s, -, hs⟩
  · exact not_isBlank_of_isLetter_or_isDigit (Or.inl (isLetter_of_isWord hword).1)
  · rcases hnumeral.head with hdigit | ⟨rfl, -⟩
    · exact not_isBlank_of_isLetter_or_isDigit (Or.inr hdigit)
    · decide
  · decide
  · exact (symbol_head hs).2.2.2

/-- A lexeme that a text starts with has its first character. -/
theorem InClass.of_isPrefix {kind : TokenKind} {cs rest : List Char} {c : Char} (h : InClass kind cs)
    (hcs : cs <+: c :: rest) : ∃ more, cs = c :: more ∧ more <+: rest := by
  cases cs with
  | nil => exact absurd rfl h.ne_nil
  | cons d more =>
    obtain ⟨rfl, hmore⟩ := List.cons_prefix_cons.1 hcs
    exact ⟨more, rfl, hmore⟩

/-! ## Words -/

theorem wordKind_keyword (k : Keyword) : wordKind k.text = .keyword k := by
  cases k <;> simp [wordKind, Keyword.text, Keyword.ofText?, Keyword.all]

theorem wordKind_booleanText (b : Bool) : wordKind (booleanText b) = .literal (.boolean b) := by
  cases b <;> simp [wordKind, booleanText]

theorem wordKind_identifier {w : String} (hkeyword : ∀ k : Keyword, w ≠ k.text)
    (hboolean : ∀ b, w ≠ booleanText b) : wordKind w = .identifier := by
  have hnone : Keyword.ofText? w = none := by
    refine List.find?_eq_none.2 fun k _ hk => hkeyword k ?_
    exact (eq_of_beq hk).symm
  have htrue : w ≠ "true" := hboolean true
  have hfalse : w ≠ "false" := hboolean false
  simp [wordKind, hnone, htrue, hfalse]

theorem inClass_wordKind {cs : List Char} (hcs : isWord cs) :
    InClass (wordKind (String.ofList cs)) cs := by
  by_cases hkeyword : ∃ k : Keyword, cs = k.text.toList
  · obtain ⟨k, rfl⟩ := hkeyword
    rw [String.ofList_toList, wordKind_keyword]
    rfl
  by_cases hboolean : ∃ b, cs = (booleanText b).toList
  · obtain ⟨b, rfl⟩ := hboolean
    rw [String.ofList_toList, wordKind_booleanText]
    rfl
  rw [wordKind_identifier]
  · exact ⟨hcs, not_exists.1 hkeyword, not_exists.1 hboolean⟩
  · rintro k hk
    exact hkeyword ⟨k, by rw [← hk, String.toList_ofList]⟩
  · rintro b hb
    exact hboolean ⟨b, by rw [← hb, String.toList_ofList]⟩

/-- A word has no other kind than the one that `wordKind` gives. -/
theorem InClass.eq_wordKind {kind : TokenKind} {cs : List Char} (h : InClass kind cs)
    (hcs : isWord cs) : kind = wordKind (String.ofList cs) := by
  obtain _ | ⟨c, rest⟩ := cs
  · cases hcs
  obtain ⟨hletter, -⟩ := isLetter_of_isWord hcs
  cases kind with
  | keyword k =>
    rw [show c :: rest = k.text.toList from h, String.ofList_toList, wordKind_keyword]
  | identifier =>
    refine (wordKind_identifier (fun k hk => h.2.1 k ?_) fun b hb => h.2.2 b ?_).symm
    · rw [← hk, String.toList_ofList]
    · rw [← hb, String.toList_ofList]
  | symbol s =>
    have hnot := (symbol_head (s := s) h.symm).1
    rw [hletter] at hnot
    cases hnot
  | endOfInput => exact h.elim
  | literal value =>
    cases value with
    | boolean b =>
      rw [show c :: rest = (booleanText b).toList from h, String.ofList_toList,
        wordKind_booleanText]
    | number n =>
      rcases h.1.head with hdigit | ⟨rfl, -⟩
      · exact absurd hdigit (not_isDigit_of_isLetter hletter)
      · exact absurd hletter (by decide)
    | string s =>
      obtain ⟨content, hcontent, -⟩ := h
      obtain rfl := (List.cons.inj hcontent).1
      exact absurd hletter (by decide)

/-! ## Numerals spell numbers -/

theorem IsMantissa.cons {c : Char} {cs : List Char} (hc : isDigit c) (h : IsMantissa cs) :
    IsMantissa (c :: cs) := by
  obtain ⟨whole, fraction, rfl, hwhole, hfraction⟩ := h
  exact ⟨c :: whole, fraction, rfl, List.forall_mem_cons.2 ⟨hc, hwhole⟩, hfraction⟩

open Decimal in
/-- Digits and a point with digits after it are read whatever sign they have. -/
theorem isSome_unsigned? (negative : Bool) {c : Char} {cs : List Char} (hc : isDigit c)
    (h : IsMantissa cs) : (Numeral.unsigned? negative (c :: cs)).isSome := by
  have digits : Numeral.isDigit = isDigit := rfl
  obtain ⟨whole, fraction, hcs, hwhole, hfraction⟩ := h.cons hc
  have hne : whole ≠ [] := by
    rintro rfl
    rcases hfraction with rfl | ⟨ds, rfl, -⟩
    · cases hcs
    · rw [(List.cons.inj hcs).1] at hc
      exact absurd hc (by decide)
  have hstop : fraction.takeWhile isDigit = [] ∧ fraction.dropWhile isDigit = fraction := by
    rcases hfraction with rfl | ⟨ds, rfl, -⟩ <;> exact ⟨rfl, rfl⟩
  unfold Numeral.unsigned?
  rw [hcs, digits, List.takeWhile_append_of_pos hwhole, List.dropWhile_append_of_pos hwhole,
    hstop.1, hstop.2, List.append_nil]
  rcases hfraction with rfl | ⟨ds, rfl, hds⟩
  · simp [hne, Numeral.exponentPart?]
  · have hrest : ds.dropWhile isDigit = [] := by
      rw [List.dropWhile_eq_nil_iff]
      exact hds
    simp [hne, hrest, Numeral.exponentPart?]

open Decimal in
/-- **Every numeral spells a number.** -/
theorem isSome_ofText? {cs : List Char} (h : IsNumeral cs) :
    (Number.ofText? (String.ofList cs)).isSome := by
  obtain ⟨c, rest, hc, hrest, hcs⟩ := h
  have hsign : ∃ negative, Numeral.sign cs = (negative, c :: rest) := by
    rcases hcs with rfl | rfl
    · refine ⟨false, ?_⟩
      unfold Numeral.sign
      split
      · next heq => rw [(List.cons.inj heq).1] at hc; exact absurd hc (by decide)
      · next heq => rw [(List.cons.inj heq).1] at hc; exact absurd hc (by decide)
      · rfl
    · exact ⟨true, rfl⟩
  obtain ⟨negative, hsign⟩ := hsign
  -- a text that starts with a digit is not the name of a number
  have hnamed : ∀ d word, isDigit d = false →
      String.ofList ((c :: rest).map Char.toLower) ≠ String.ofList (d :: word) := by
    intro d word hd heq
    have hlower : c.toLower = c := by
      unfold Char.toLower
      rw [isDigit_iff] at hc
      rw [dif_neg]
      simp only [ge_iff_le, UInt32.le_iff_toNat_le]
      show ¬(65 ≤ c.toNat ∧ c.toNat ≤ 90)
      omega
    have := (List.cons.inj (String.ofList_injective heq)).1
    rw [hlower] at this
    rw [this, hd] at hc
    cases hc
  have hread : Number.ofText? (String.ofList cs) = Numeral.unsigned? negative (c :: rest) := by
    unfold Number.ofText? Numeral.read?
    rw [String.toList_ofList, hsign]
    dsimp only
    rw [if_neg, if_neg]
    · exact hnamed 'n' ['a', 'n'] (by decide)
    · simp only [Bool.or_eq_true, decide_eq_true_eq, not_or]
      exact ⟨hnamed 'i' ['n', 'f'] (by decide),
        hnamed 'i' ['n', 'f', 'i', 'n', 'i', 't', 'y'] (by decide)⟩
  rw [hread]
  exact isSome_unsigned? negative hc hrest

/-! ## One class for each lexeme -/

theorem symbol_text_injective {s t : Symbol} (h : s.text.toList = t.text.toList) : s = t := by
  have found : ∀ u : Symbol,
      Symbol.all.find? (fun v => v.text.toList == u.text.toList) = some u := by
    intro u
    cases u <;> decide
  have hs := found s
  rw [h, found t] at hs
  exact (Option.some.inj hs).symm

/-- What comes before the first `mark` is cut off, and everything if there is none. -/
theorem takeWhile_append_of_notMem {mark : Char} {cs after : List Char} (hcs : mark ∉ cs)
    (hafter : after = [] ∨ after.head? = some mark) :
    (cs ++ after).takeWhile (· != mark) = cs := by
  have hall : ∀ c ∈ cs, (c != mark) = true := by
    rintro c hc
    rw [bne_iff_ne]
    rintro rfl
    exact hcs hc
  rw [List.takeWhile_append_of_pos hall]
  rcases hafter with rfl | hafter
  · simp
  · obtain ⟨more, rfl⟩ := List.head?_eq_some_iff.1 hafter
    simp

/-- Two texts up to their first marks. -/
theorem eq_of_marks {mark : Char → Bool} {cs ds rest more : List Char} {c d : Char}
    (hcs : ∀ x ∈ cs, mark x = false) (hds : ∀ x ∈ ds, mark x = false) (hc : mark c = true)
    (hd : mark d = true) (h : cs ++ c :: rest = ds ++ d :: more) : cs = ds ∧ c = d ∧ rest = more := by
  have hcut : ∀ {es : List Char} {e : Char} {tail : List Char}, (∀ x ∈ es, mark x = false) →
      mark e = true → (es ++ e :: tail).takeWhile (!mark ·) = es := by
    intro es e tail hes he
    rw [List.takeWhile_append_of_pos (by simpa using hes), List.takeWhile_cons_of_neg (by simp [he]),
      List.append_nil]
  have hfront : cs = ds := by rw [← hcut hcs hc, h, hcut hds hd]
  subst hfront
  obtain ⟨hmark, hrest⟩ := List.cons.inj (List.append_cancel_left h)
  exact ⟨rfl, hmark, hrest⟩

theorem eq_of_mark (mark : Char) {cs ds rest more : List Char} (hcs : mark ∉ cs) (hds : mark ∉ ds)
    (h : cs ++ mark :: rest = ds ++ mark :: more) : cs = ds ∧ rest = more := by
  have hnot : ∀ {es : List Char}, mark ∉ es → ∀ x ∈ es, (x == mark) = false := by
    intro es hes x hx
    exact beq_false_of_ne fun heq => hes (heq ▸ hx)
  obtain ⟨hfront, -, hrest⟩ :=
    eq_of_marks (hnot hcs) (hnot hds) (beq_self_eq_true mark) (beq_self_eq_true mark) h
  exact ⟨hfront, hrest⟩

/-- **A lexeme has one kind only.** -/
theorem InClass.unique {kind kind' : TokenKind} {cs : List Char} (h : InClass kind cs)
    (h' : InClass kind' cs) : kind = kind' := by
  by_cases hword : isWord cs
  · rw [h.eq_wordKind hword, h'.eq_wordKind hword]
  obtain _ | ⟨c, rest⟩ := cs
  · exact absurd rfl h.ne_nil
  -- what starts with a digit or with a minus sign before one is neither a string nor a symbol
  have numeral : ∀ {kind}, InClass kind (c :: rest) → IsNumeral (c :: rest) →
      ∃ n, kind = .literal (.number n) := by
    intro kind hclass hnumeral
    rcases hclass.head with hw | ⟨-, hnumber⟩ | ⟨rfl, -⟩ | ⟨s, -, hs⟩
    · exact absurd hw hword
    · exact hnumber
    · rcases hnumeral.head with hdigit | ⟨hminus, -⟩
      · exact absurd hdigit (by decide)
      · cases hminus
    · have hdigits := symbol_text_chars s
      rw [hs] at hdigits
      rcases hnumeral.head with hdigit | ⟨-, d, more, rfl, hdigit⟩ <;>
        simp [hdigit] at hdigits
  rcases h.head with hw | ⟨hnumeral, n, rfl⟩ | ⟨rfl, s, rfl⟩ | ⟨s, rfl, hs⟩
  · exact absurd hw hword
  · obtain ⟨n', rfl⟩ := numeral h' hnumeral
    have := h.2.symm.trans h'.2
    rw [Option.some.inj this]
  · rcases h'.head with hw | ⟨hnumeral, -⟩ | ⟨-, s', rfl⟩ | ⟨s', -, hs'⟩
    · exact absurd hw hword
    · obtain ⟨n, hn⟩ := numeral h hnumeral
      cases hn
    · obtain ⟨content, hcs, hcontent, rfl⟩ := h
      obtain ⟨content', hcs', hcontent', rfl⟩ := h'
      rw [hcs] at hcs'
      rw [(eq_of_mark '"' hcontent hcontent' (List.cons.inj hcs').2).1]
    · exact absurd rfl (symbol_head hs').2.2.1
  · rcases h'.head with hw | ⟨hnumeral, -⟩ | ⟨rfl, -⟩ | ⟨s', rfl, hs'⟩
    · exact absurd hw hword
    · obtain ⟨n, hn⟩ := numeral h hnumeral
      cases hn
    · exact absurd rfl (symbol_head hs).2.2.1
    · rw [symbol_text_injective (hs.trans hs'.symm)]

/-! ## The longest lexeme -/

theorem length_le_takeWhile {p : Char → Bool} {cs rest : List Char} (hcs : ∀ c ∈ cs, p c)
    (h : cs <+: rest) : cs.length ≤ (rest.takeWhile p).length := by
  obtain ⟨more, rfl⟩ := h
  rw [List.takeWhile_append_of_pos hcs, List.length_append]
  exact Nat.le_add_right _ _

theorem longest_word {c : Char} {rest : List Char} (hc : isLetter c) :
    Longest (c :: rest.takeWhile isWordChar) (rest.dropWhile isWordChar) := by
  intro kind longer hclass hfront
  rw [List.cons_append, List.takeWhile_append_dropWhile] at hfront
  obtain ⟨more, rfl, hmore⟩ := hclass.of_isPrefix hfront
  rcases hclass.head with hword | ⟨hnumeral, -⟩ | ⟨rfl, -⟩ | ⟨s, -, hs⟩
  · exact Nat.succ_le_succ (length_le_takeWhile (isLetter_of_isWord hword).2 hmore)
  · rcases hnumeral.head with hdigit | ⟨rfl, -⟩
    · exact absurd hdigit (not_isDigit_of_isLetter hc)
    · exact absurd hc (by decide)
  · exact absurd hc (by decide)
  · rw [(symbol_head hs).1] at hc
    cases hc

theorem isMantissa_splitNumeral (cs : List Char) : IsMantissa (splitNumeral cs).1 := by
  have digits : ∀ l : List Char, ∀ c ∈ l.takeWhile isDigit, isDigit c := by
    intro l
    exact List.all_eq_true.1 List.all_takeWhile
  unfold splitNumeral
  split
  · next rest _ => exact ⟨_, _, rfl, digits cs, Or.inr ⟨_, rfl, digits rest⟩⟩
  · exact ⟨_, [], (List.append_nil _).symm, digits cs, Or.inl rfl⟩

/-- No longer mantissa starts a text than the one that is split off. -/
theorem IsMantissa.length_le {cs rest : List Char} (h : IsMantissa cs) (hcs : cs <+: rest) :
    cs.length ≤ (splitNumeral rest).1.length := by
  obtain ⟨whole, fraction, rfl, hwhole, hfraction⟩ := h
  rcases hfraction with rfl | ⟨digits, rfl, hdigits⟩
  · rw [List.append_nil] at hcs ⊢
    have := length_le_takeWhile hwhole hcs
    unfold splitNumeral
    split
    · simp only [List.length_append]
      omega
    · exact this
  · obtain ⟨more, rfl⟩ := hcs
    have hdrop : (whole ++ '.' :: digits ++ more).dropWhile isDigit = '.' :: (digits ++ more) := by
      rw [List.append_assoc, List.dropWhile_append_of_pos hwhole]
      rfl
    have htake : (whole ++ '.' :: digits ++ more).takeWhile isDigit = whole := by
      rw [List.append_assoc, List.takeWhile_append_of_pos hwhole]
      exact List.append_nil whole
    have := length_le_takeWhile hdigits (List.prefix_append digits more)
    unfold splitNumeral
    rw [hdrop, htake]
    simp only [List.length_append, List.length_cons]
    omega

theorem isNumeral_of_startsNumeral {c : Char} {rest : List Char} (h : startsNumeral c rest) :
    IsNumeral (c :: (splitNumeral rest).1) := by
  unfold startsNumeral at h
  rw [Bool.or_eq_true, Bool.and_eq_true] at h
  rcases h with hdigit | ⟨hminus, hnext⟩
  · exact ⟨c, _, hdigit, isMantissa_splitNumeral rest, Or.inl rfl⟩
  · obtain rfl := eq_of_beq hminus
    obtain _ | ⟨d, more⟩ := rest
    · cases hnext
    have hd : isDigit d := hnext
    -- the digit after the sign is the first of what is split off
    have hsplit : (splitNumeral (d :: more)).1 = d :: (splitNumeral more).1 := by
      unfold splitNumeral
      rw [List.dropWhile_cons_of_pos hd, List.takeWhile_cons_of_pos hd]
      split <;> rfl
    rw [hsplit]
    exact ⟨d, _, hd, isMantissa_splitNumeral more, Or.inr rfl⟩

theorem longest_numeral {c : Char} {rest : List Char} (h : startsNumeral c rest) :
    Longest (c :: (splitNumeral rest).1) (splitNumeral rest).2 := by
  intro kind longer hclass hfront
  rw [List.cons_append, splitNumeral_append] at hfront
  obtain ⟨more, rfl, hmore⟩ := hclass.of_isPrefix hfront
  unfold startsNumeral at h
  rw [Bool.or_eq_true, Bool.and_eq_true] at h
  rcases hclass.head with hword | ⟨⟨d, tail, hd, htail, heq | heq⟩, -⟩ | ⟨rfl, -⟩ | ⟨s, -, hs⟩
  · obtain ⟨hletter, -⟩ := isLetter_of_isWord hword
    rcases h with hdigit | ⟨hminus, -⟩
    · exact absurd hdigit (not_isDigit_of_isLetter hletter)
    · obtain rfl := eq_of_beq hminus
      exact absurd hletter (by decide)
  · obtain rfl := (List.cons.inj heq).2
    exact Nat.succ_le_succ (htail.length_le hmore)
  · obtain rfl := (List.cons.inj heq).2
    exact Nat.succ_le_succ ((htail.cons hd).length_le hmore)
  · rcases h with hdigit | ⟨hminus, -⟩
    · exact absurd hdigit (by decide)
    · cases hminus
  · -- the only symbol that starts with a minus sign and goes on has no digit after the sign
    rcases h with hdigit | ⟨-, hnext⟩
    · rw [(symbol_head hs).2.1] at hdigit
      cases hdigit
    · obtain _ | ⟨d, more⟩ := more
      · simp
      obtain ⟨later, rfl⟩ := hmore
      have hd : isDigit d := hnext
      have hdigits := symbol_text_chars s
      rw [hs] at hdigits
      simp [hd] at hdigits

theorem longest_string {content after : List Char} (h : '"' ∉ content) :
    Longest ('"' :: content ++ ['"']) after := by
  intro kind longer hclass hfront
  have hfront' : longer <+: '"' :: (content ++ '"' :: after) := by simpa using hfront
  obtain ⟨more, rfl, ⟨later, hlater⟩⟩ := hclass.of_isPrefix hfront'
  rcases hclass.head with hword | ⟨hnumeral, -⟩ | ⟨-, s, rfl⟩ | ⟨s, -, hs⟩
  · exact absurd (isLetter_of_isWord hword).1 (by decide)
  · rcases hnumeral.head with hdigit | ⟨hminus, -⟩
    · exact absurd hdigit (by decide)
    · cases hminus
  · obtain ⟨content', hcs, hcontent', -⟩ := hclass
    obtain rfl := (List.cons.inj hcs).2
    have heq : content ++ '"' :: after = content' ++ '"' :: later := by simpa using hlater.symm
    rw [(eq_of_mark '"' h hcontent' heq).1]
    simp
  · exact absurd rfl (symbol_head hs).2.2.1

/-- Longer symbols are looked for first. -/
theorem pairwise_symbols :
    Symbol.all.Pairwise fun s t => t.text.toList.length ≤ s.text.toList.length := by
  decide

theorem symbol_mem_all (s : Symbol) : s ∈ Symbol.all := by
  cases s <;> decide

/-- The symbol that is found is the longest that the text starts with. -/
theorem length_le_symbolAt? {cs : List Char} {s t : Symbol} (hs : symbolAt? cs = some s)
    (ht : t.text.toList <+: cs) : t.text.toList.length ≤ s.text.toList.length := by
  obtain ⟨-, earlier, later, hall, hearlier⟩ := List.find?_eq_some_iff_append.1 hs
  have hmem := symbol_mem_all t
  have hordered := pairwise_symbols
  rw [hall, List.pairwise_append, List.pairwise_cons] at hordered
  rw [hall, List.mem_append, List.mem_cons] at hmem
  rcases hmem with hmem | rfl | hmem
  · have hnot := hearlier t hmem
    have hfound := List.isPrefixOf_iff_prefix.2 ht
    rw [hfound] at hnot
    cases hnot
  · exact Nat.le_refl _
  · exact hordered.2.1.1 t hmem

section Symbols

variable {c : Char} {rest : List Char} (hletter : ¬isLetter c) (hnumeral : ¬startsNumeral c rest)
  (hquote : c ≠ '"')

include hletter hnumeral hquote

/-- Where no word, numeral or string starts, only symbols do. -/
theorem InClass.symbol_of_isPrefix {kind : TokenKind} {cs : List Char} (h : InClass kind cs)
    (hcs : cs <+: c :: rest) : ∃ s, kind = .symbol s ∧ s.text.toList = cs := by
  obtain ⟨more, rfl, later, rfl⟩ := h.of_isPrefix hcs
  rcases h.head with hword | ⟨hnum, -⟩ | ⟨hq, -⟩ | hsymbol
  · exact absurd (isLetter_of_isWord hword).1 hletter
  · refine absurd ?_ hnumeral
    unfold startsNumeral
    rcases hnum.head with hdigit | ⟨rfl, d, more', rfl, hdigit⟩
    · rw [hdigit, Bool.true_or]
    · simp [hdigit]
  · exact absurd hq hquote
  · exact hsymbol

theorem longest_symbol {s : Symbol} (hs : symbolAt? (c :: rest) = some s) {after : List Char}
    (hafter : s.text.toList ++ after = c :: rest) : Longest s.text.toList after := by
  intro kind longer hclass hfront
  rw [hafter] at hfront
  obtain ⟨t, -, rfl⟩ := hclass.symbol_of_isPrefix hletter hnumeral hquote hfront
  exact length_le_symbolAt? hs hfront

theorem not_inClass_of_symbolAt? (hs : symbolAt? (c :: rest) = none) {kind : TokenKind}
    {cs : List Char} (h : InClass kind cs) : ¬cs <+: c :: rest := by
  intro hfront
  obtain ⟨t, -, rfl⟩ := h.symbol_of_isPrefix hletter hnumeral hquote hfront
  have hnone := List.find?_eq_none.1 hs t (symbol_mem_all t)
  have hfound := List.isPrefixOf_iff_prefix.2 hfront
  exact hnone hfound

end Symbols

end Catena.Source

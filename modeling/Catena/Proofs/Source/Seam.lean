import Catena.Proofs.Source.Layout

/-!
# Texts one after the other

A blank between two texts keeps them apart: every lexeme before it stays as long as it can be, since no
lexeme but a string has a blank in it, and a string ends at its quote. So the layout of the whole is
that of the first text, the blank, and that of the second (`Laid.seam`), unless the first ends inside a
string or a comment. A comment to the end of its line ends at the blank if that is a line feed.
-/

namespace Catena.Source

open Catena.Text

/-! ## Lexemes and blanks -/

theorem not_isBlank_of_isWordChar {c : Char} (h : isWordChar c) : isBlank c = false := by
  simp only [isWordChar, Bool.or_eq_true, beq_iff_eq] at h
  rcases h with (h | rfl) | rfl
  · exact not_isBlank_of_isLetter_or_isDigit h
  · decide
  · decide

theorem IsNumeral.not_isBlank {cs : List Char} (h : IsNumeral cs) {c : Char} (hc : c ∈ cs) :
    isBlank c = false := by
  obtain ⟨d, rest, hd, ⟨whole, fraction, rfl, hwhole, hfraction⟩, hcs⟩ := h
  have hmember : c = '-' ∨ c = '.' ∨ isDigit c := by
    have hparts : c = '-' ∨ c = d ∨ c ∈ whole ∨ c ∈ fraction := by
      rcases hcs with rfl | rfl
      · exact .inr (by simpa using hc)
      · simpa using hc
    rcases hparts with hminus | rfl | hwhole' | hfraction'
    · exact .inl hminus
    · exact .inr (.inr hd)
    · exact .inr (.inr (hwhole c hwhole'))
    · rcases hfraction with rfl | ⟨digits, rfl, hdigits⟩
      · cases hfraction'
      · rcases List.mem_cons.1 hfraction' with hpoint | hdigit
        · exact .inr (.inl hpoint)
        · exact .inr (.inr (hdigits c hdigit))
  rcases hmember with rfl | rfl | hdigit
  · decide
  · decide
  · exact not_isBlank_of_isLetter_or_isDigit (.inr hdigit)

/-- A lexeme that is not a string has no blank in it. -/
theorem InClass.not_isBlank_of_mem {kind : TokenKind} {text : List Char} (h : InClass kind text)
    (hkind : ∀ s, kind ≠ .literal (.string s)) {c : Char} (hc : c ∈ text) : isBlank c = false := by
  cases text with
  | nil => cases hc
  | cons first rest =>
    rcases h.head with hword | ⟨hnumeral, -⟩ | ⟨-, s, hs⟩ | ⟨s, -, hs⟩
    · obtain ⟨hletter, hrest⟩ := isLetter_of_isWord hword
      rcases List.mem_cons.1 hc with rfl | hc
      · exact not_isBlank_of_isLetter_or_isDigit (.inl hletter)
      · exact not_isBlank_of_isWordChar (hrest c hc)
    · exact hnumeral.not_isBlank hc
    · exact absurd hs (hkind s)
    · have hchars := List.all_eq_true.1 (symbol_text_chars s) c (hs ▸ hc)
      simp only [Bool.and_eq_true, Bool.not_eq_true'] at hchars
      exact hchars.2

/-- A lexeme that starts with a quote is a string. -/
theorem InClass.string_of_quote {kind : TokenKind} {rest : List Char} (h : InClass kind ('"' :: rest)) :
    ∃ s, kind = .literal (.string s) := by
  rcases h.head with hword | ⟨hnumeral, -⟩ | ⟨-, hs⟩ | ⟨s, -, hs⟩
  · exact absurd (isLetter_of_isWord hword).1 (by decide)
  · rcases hnumeral.head with hdigit | ⟨hminus, -⟩
    · exact absurd hdigit (by decide)
    · cases hminus
  · exact hs
  · exact absurd rfl (symbol_head hs).2.2.1

/-- A lexeme that is as long as it can be stays so with a blank after what follows it. -/
theorem Longest.before_blank {kind : TokenKind} {text after more : List Char} {c : Char}
    (h : Longest text after) (hclass : InClass kind text) (hc : isBlank c) :
    Longest text (after ++ c :: more) := by
  by_cases hstring : ∃ s, kind = .literal (.string s)
  · obtain ⟨s, rfl⟩ := hstring
    obtain ⟨content, rfl, hcontent, -⟩ := hclass
    exact longest_string hcontent
  · intro kind' longer hclass' hfront
    rw [← List.append_assoc] at hfront
    by_cases hlength : longer.length ≤ (text ++ after).length
    · exact h kind' longer hclass'
        (List.prefix_of_prefix_length_le hfront (List.prefix_append _ _) hlength)
    -- a longer lexeme has the blank in it, so it is a string and `text` is one
    · exfalso
      have hblank : text ++ after ++ [c] <+: longer := by
        refine List.prefix_of_prefix_length_le ⟨more, by simp⟩ hfront ?_
        rw [List.length_append, List.length_singleton]
        exact Nat.succ_le_of_lt (Nat.not_le.1 hlength)
      obtain ⟨s, rfl⟩ : ∃ s, kind' = .literal (.string s) := by
        by_contra hother
        have hmem : c ∈ longer := hblank.subset (by simp)
        rw [hclass'.not_isBlank_of_mem (not_exists.1 hother) hmem] at hc
        cases hc
      obtain ⟨content, rfl, -⟩ := hclass'
      cases text with
      | nil => exact hclass.ne_nil rfl
      | cons first rest =>
        obtain ⟨rfl, -⟩ := List.cons_prefix_cons.1 hblank
        exact hstring hclass.string_of_quote

/-- A blank starts no comment. -/
theorem not_startsComment_before_blank {text more : List Char} {c : Char} (hc : isBlank c)
    (h : ¬StartsComment text) : ¬StartsComment (text ++ c :: more) := by
  have hmarks : c ≠ '/' ∧ c ≠ '*' := by
    constructor <;> rintro rfl <;> exact absurd hc (by decide)
  unfold StartsComment at *
  rcases text with _ | ⟨a, _ | ⟨b, rest⟩⟩
  · simp [hmarks.1.symm]
  · simp [hmarks.1.symm, hmarks.2.symm]
  · simpa using h

/-! ## Layouts -/

/-- A piece that ends before the blank `c`: it is a token, a blank, a comment to the end of its line if
`c` is a line feed, or a comment that is closed. -/
def Piece.EndsBefore (c : Char) : Piece → Prop
  | .gap text => (['/', '/'] <+: text → c = '\n') ∧ (['/', '*'] <+: text → ['*', '/'] <:+: text.drop 2)
  | .token _ _ => True
  | _ => False

theorem Fits.before_blank {p : Piece} {after more : List Char} {c : Char} (h : Fits p after)
    (hc : isBlank c) (hp : p.EndsBefore c) : Fits p (after ++ c :: more) := by
  cases h with
  | blank hblank => exact .blank hblank
  | line hinside hstop =>
    obtain rfl := hp.1 (by simp)
    refine .line hinside (.inr ?_)
    rcases hstop with rfl | hstop
    · rfl
    · rw [List.head?_append, hstop]
      rfl
  | block hclosing =>
    cases hclosing with
    | first hnone => exact .block (.first hnone)
    | never hnone => exact absurd (hp.2 (by simp)) hnone
  | token hclass hlongest hcode =>
    refine .token hclass (hlongest.before_blank hclass hc) ?_
    rw [← List.append_assoc]
    exact not_startsComment_before_blank hc hcode
  | stray => exact hp.elim
  | openString => exact hp.elim

theorem textOf_append (ps qs : List Piece) : textOf (ps ++ qs) = textOf ps ++ textOf qs :=
  List.flatMap_append

/-- **Two layouts with a blank between them are a layout.** -/
theorem Laid.seam {ps qs : List Piece} {c : Char} (hps : Laid ps) (hc : isBlank c)
    (hends : ∀ p ∈ ps, p.EndsBefore c) (hqs : Laid qs) : Laid (ps ++ .gap [c] :: qs) := by
  induction ps with
  | nil => exact ⟨.blank hc, hqs⟩
  | cons p ps ih =>
    obtain ⟨hp, hrest⟩ := List.forall_mem_cons.1 hends
    rw [List.cons_append]
    refine ⟨?_, ih hps.2 hrest⟩
    rw [textOf_append]
    exact hps.1.before_blank hc hp

theorem not_startsComment_symbol (s : Symbol) : ¬StartsComment s.text.toList := by
  unfold StartsComment
  cases s <;> decide

theorem InClass.not_startsComment {kind : TokenKind} {text : List Char} (h : InClass kind text) :
    ¬StartsComment text := by
  cases text with
  | nil => exact absurd rfl h.ne_nil
  | cons c rest =>
    rcases h.head with hword | ⟨hnumeral, -⟩ | ⟨rfl, -⟩ | ⟨s, -, hs⟩
    · refine not_startsComment_of_ne ?_
      rintro rfl
      exact absurd (isLetter_of_isWord hword).1 (by decide)
    · refine not_startsComment_of_ne ?_
      rintro rfl
      rcases hnumeral.head with hdigit | ⟨hminus, -⟩
      · exact absurd hdigit (by decide)
      · cases hminus
    · exact not_startsComment_of_ne (by decide)
    · rw [← hs]
      exact not_startsComment_symbol s

/-- A lexeme by itself is laid out. -/
theorem InClass.laid {kind : TokenKind} {text : List Char} (h : InClass kind text) :
    Laid [.token kind text] := by
  have hnil : textOf [] = [] := rfl
  refine ⟨.token h ?_ ?_, trivial⟩
  · intro _ longer _ hfront
    rw [hnil, List.append_nil] at hfront
    exact hfront.length_le
  · rw [hnil, List.append_nil]
    exact h.not_startsComment

/-! ## Scanning -/

/-- What a token is and spells, wherever it stands. -/
def core (t : Token) : TokenKind × String :=
  (t.kind, t.lexeme)

/-- The token that a piece is, wherever it stands. -/
def Piece.core? : Piece → Option (TokenKind × String)
  | .token kind text => some (kind, String.ofList text)
  | _ => none

/-- A piece that is no error. -/
def Piece.IsSound : Piece → Prop
  | .gap _ => True
  | .token _ _ => True
  | _ => False

theorem map_core_placed (before : List Char) (ps : List Piece) :
    ((placed before ps).filterMap token?).map core = ps.filterMap Piece.core? := by
  induction ps generalizing before with
  | nil => rfl
  | cons p ps ih =>
    cases p with
    | token kind text => exact congrArg (List.cons (kind, String.ofList text)) (ih _)
    | _ => exact ih _

theorem faults_eq_nil_iff {ps : List Piece} (hps : Laid ps) (before : List Char) :
    faults (placed before ps) = [] ↔ ∀ p ∈ ps, p.IsSound := by
  rw [← filterMap_diagnostic? hps]
  clear hps
  induction ps generalizing before with
  | nil => simp [placed]
  | cons p ps ih =>
    rw [List.forall_mem_cons, ← ih (before ++ p.text)]
    cases p <;> simp [placed, diagnostic?, Piece.error?, Piece.IsSound]

/-- A text with a layout without errors is scanned. -/
theorem scan_of_laid {source : String} {ps : List Piece} (hps : Laid ps)
    (htext : textOf ps = source.toList) (hsound : ∀ p ∈ ps, p.IsSound) :
    scan source =
      .ok { tokens := (placed [] ps).filterMap token?, finish := placeAfter source.toList } := by
  obtain rfl : ps = pieces source.toList :=
    hps.unique (laid_pieces _) (htext.trans (pieces_text _).symm)
  exact scan_of_sound ((faults_eq_nil_iff hps []).2 hsound)

/-- The layout of a text that is scanned. -/
theorem laid_of_scan {source : String} {scanned : Scanned} (h : scan source = .ok scanned) :
    ∃ ps, Laid ps ∧ textOf ps = source.toList ∧ (∀ p ∈ ps, p.IsSound) ∧
      scanned.tokens = (placed [] ps).filterMap token? := by
  have hlaid := laid_pieces source.toList
  by_cases hfaults : faults (placed [] (pieces source.toList)) = []
  · rw [scan_of_sound hfaults] at h
    cases h
    exact ⟨_, hlaid, pieces_text _, (faults_eq_nil_iff hlaid []).1 hfaults, rfl⟩
  · rw [scan_of_faults hfaults] at h
    cases h

/-- `Spaced ls cs`: the lexemes `ls` with blanks between them make up the text `cs`. -/
inductive Spaced : List (TokenKind × String) → List Char → Prop
  | last {kind : TokenKind} {text : String} (h : InClass kind text.toList) :
    Spaced [(kind, text)] text.toList
  | cons {kind : TokenKind} {text : String} {c : Char} {cs : List Char}
    {ls : List (TokenKind × String)} (h : InClass kind text.toList) (hc : isBlank c)
    (hrest : Spaced ls cs) : Spaced ((kind, text) :: ls) (text.toList ++ c :: cs)
  /-- One more blank. -/
  | blank {c : Char} {cs : List Char} {ls : List (TokenKind × String)} (hc : isBlank c)
    (hrest : Spaced ls cs) : Spaced ls (c :: cs)

theorem Spaced.inClass {ls : List (TokenKind × String)} {cs : List Char} (h : Spaced ls cs) :
    ∀ l ∈ ls, InClass l.1 l.2.toList := by
  induction h with
  | last h => exact List.forall_mem_singleton.2 h
  | cons h _ _ ih => exact List.forall_mem_cons.2 ⟨h, ih⟩
  | blank _ _ ih => exact ih

theorem Spaced.exists_laid {ls : List (TokenKind × String)} {cs : List Char} (h : Spaced ls cs) :
    ∃ ps, Laid ps ∧ textOf ps = cs ∧ (∀ p ∈ ps, p.IsSound) ∧ ps.filterMap Piece.core? = ls := by
  induction h with
  | @last kind text h =>
    refine ⟨[.token kind text.toList], h.laid, by simp [textOf, Piece.text], by simp [Piece.IsSound],
      by simp [Piece.core?]⟩
  | @cons kind text c cs ls h hc _ ih =>
    obtain ⟨ps, hlaid, rfl, hsound, rfl⟩ := ih
    refine ⟨.token kind text.toList :: .gap [c] :: ps,
      h.laid.seam hc (by simp [Piece.EndsBefore]) hlaid, by simp [textOf, Piece.text], ?_, ?_⟩
    · exact List.forall_mem_cons.2 ⟨trivial, List.forall_mem_cons.2 ⟨trivial, hsound⟩⟩
    · show (kind, String.ofList text.toList) :: ps.filterMap Piece.core? = _
      rw [String.ofList_toList]
  | @blank c cs ls hc _ ih =>
    obtain ⟨ps, hlaid, rfl, hsound, rfl⟩ := ih
    exact ⟨.gap [c] :: ps, ⟨.blank hc, hlaid⟩, by simp [textOf, Piece.text],
      List.forall_mem_cons.2 ⟨trivial, hsound⟩, rfl⟩

/-- **Lexemes with blanks between them are scanned as they are.** -/
theorem Spaced.scan {ls : List (TokenKind × String)} {source : String} (h : Spaced ls source.toList) :
    ∃ scanned, scan source = .ok scanned ∧ scanned.tokens.map core = ls := by
  obtain ⟨ps, hlaid, htext, hsound, hcore⟩ := h.exists_laid
  exact ⟨_, scan_of_laid hlaid htext hsound, (map_core_placed [] ps).trans hcore⟩

end Catena.Source

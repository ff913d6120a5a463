import Catena.Proofs.Source.Lexeme
import Catena.Source.Scan

/-!
# The layout of a source text

A text has one layout (`Laid.unique`): blanks and comments, lexemes each of which is as long as it
can be, characters that start no lexeme, and perhaps at the end a string that is not closed. What may
stand where (`Fits`) depends on the text that follows and not on how it is cut.

Scanning finds the layout (`laid_pieces`), gives its tokens and its faults with the places of their
first characters, and succeeds exactly if there are no faults (`scan_layout`). A place counts the
line feeds before it and the characters since the last of them (`placeAfter`).
-/

namespace Catena.Source

open Catena.Text

/-- A comment that is closed by its first closing mark, or that is not closed. -/
inductive Closing : List Char → List Char → Prop
  | first {body after : List Char} (none : ¬['*', '/'] <:+: body ++ ['*']) :
    Closing (body ++ ['*', '/']) after
  | never {body : List Char} (none : ¬['*', '/'] <:+: body) : Closing body []

/-- `Fits piece after`: the piece is what a text starts with that goes on with `after`. -/
inductive Fits : Piece → List Char → Prop
  | blank {c : Char} {after : List Char} (blank : isBlank c) : Fits (.gap [c]) after
  /-- A comment to the end of its line. -/
  | line {body after : List Char} (inside : '\n' ∉ body)
    (stop : after = [] ∨ after.head? = some '\n') : Fits (.gap ('/' :: '/' :: body)) after
  | block {body after : List Char} (closing : Closing body after) :
    Fits (.gap ('/' :: '*' :: body)) after
  | token {kind : TokenKind} {text after : List Char} (inClass : InClass kind text)
    (longest : Longest text after) (code : ¬StartsComment (text ++ after)) :
    Fits (.token kind text) after
  /-- A character that starts nothing. -/
  | stray {c : Char} {after : List Char} (notBlank : isBlank c = false)
    (code : ¬StartsComment (c :: after)) (notQuote : c ≠ '"')
    (none : ∀ kind text, InClass kind text → ¬text <+: c :: after) : Fits (.stray c) after
  | openString {content : List Char} (inside : '"' ∉ content) :
    Fits (.openString ('"' :: content)) []

/-- The text of some pieces. -/
def textOf (ps : List Piece) : List Char :=
  ps.flatMap Piece.text

/-- Every piece fits in front of those after it. -/
def Laid : List Piece → Prop
  | [] => True
  | piece :: rest => Fits piece (textOf rest) ∧ Laid rest

/-- The place after a text: one more than its line feeds, and one more than the characters after the
last of them. -/
def placeAfter (before : List Char) : Position :=
  ⟨1 + before.count '\n', 1 + (before.reverse.takeWhile (· != '\n')).length⟩

/-- Pieces with the places of their first characters, after the text `before`. -/
def placed (before : List Char) : List Piece → List (Position × Piece)
  | [] => []
  | piece :: rest => (placeAfter before, piece) :: placed (before ++ piece.text) rest

/-- The characters that start nothing, in order. -/
def strays (ps : List (Position × Piece)) : List (Position × Char) :=
  ps.filterMap fun
    | (position, .stray c) => some (position, c)
    | _ => none

/-- Where strings start that are not closed. -/
def openStrings (ps : List (Position × Piece)) : List Position :=
  ps.filterMap fun
    | (position, .openString _) => some position
    | _ => none

/-- The errors of a layout: first the characters that start nothing, then the string that is not
closed. -/
def faults (ps : List (Position × Piece)) : List Diagnostic :=
  (strays ps).map (fun p => .located (.lex (.unexpectedCharacter p.2)) p.1) ++
    (openStrings ps).map (.located (.lex .unterminatedString))

/-! ## Comments -/

theorem closing_splitComment (cs : List Char) :
    Closing (splitComment cs).1 (splitComment cs).2 := by
  fun_induction splitComment cs with
  | case1 => exact .never (by simp)
  | case2 rest => exact @Closing.first [] rest (by decide)
  | case3 c rest hopen split ih =>
    have hrest := splitComment_append rest
    show Closing (c :: (splitComment rest).1) (splitComment rest).2
    generalize splitComment rest = cut at ih hrest
    obtain ⟨text, after⟩ := cut
    -- a closing mark at the front would have been taken
    have front : ∀ {more later : List Char}, more ++ later = rest → ¬['*', '/'] <+: c :: more := by
      rintro more later rfl ⟨tail, htail⟩
      obtain ⟨rfl, hmore⟩ := List.cons.inj htail
      exact hopen (tail ++ later) rfl (by rw [← hmore]; rfl)
    cases ih with
    | @first body _ hnone =>
      refine @Closing.first (c :: body) after ?_
      rw [List.cons_append, List.infix_cons_iff, not_or]
      exact ⟨@front _ ('/' :: after) (by simpa using hrest), hnone⟩
    | never hnone =>
      refine .never ?_
      rw [List.infix_cons_iff, not_or]
      exact ⟨front hrest, hnone⟩

theorem splitComment_cons {c : Char} {rest : List Char} (h : ¬['*', '/'] <+: c :: rest) :
    splitComment (c :: rest) = (c :: (splitComment rest).1, (splitComment rest).2) := by
  rw [splitComment.eq_3]
  rintro more rfl rfl
  exact h ⟨more, rfl⟩

/-- What is split off is the comment. -/
theorem Closing.splitComment_eq {body after : List Char} (h : Closing body after) :
    splitComment (body ++ after) = (body, after) := by
  cases h with
  | @first body _ hnone =>
    rw [List.append_assoc]
    induction body with
    | nil => rfl
    | cons c more ih =>
      rw [List.cons_append, List.infix_cons_iff, not_or] at hnone
      have hfront : ¬['*', '/'] <+: c :: (more ++ (['*', '/'] ++ after)) := by
        intro hclosing
        refine hnone.1 ?_
        cases more with
        | nil => simp at hclosing
        | cons d more => simpa using hclosing
      rw [List.cons_append, splitComment_cons hfront, ih hnone.2]
      rfl
  | never hnone =>
    rw [List.append_nil]
    induction body with
    | nil => rfl
    | cons c more ih =>
      rw [List.infix_cons_iff, not_or] at hnone
      rw [splitComment_cons hnone.1, ih hnone.2]

/-! ## First pieces -/

theorem not_startsComment_of_ne {c : Char} {rest : List Char} (h : c ≠ '/') :
    ¬StartsComment (c :: rest) := by
  rintro (hfront | hfront)
  · exact h (List.cons_prefix_cons.1 hfront).1.symm
  · exact h (List.cons_prefix_cons.1 hfront).1.symm

/-- A comment is found exactly where one starts. -/
theorem comment?_eq_none_iff {c : Char} {rest : List Char} :
    comment? c rest = none ↔ ¬StartsComment (c :: rest) := by
  unfold comment?
  split
  · simp [StartsComment]
  · simp [StartsComment]
  · next hline hblock =>
    refine ⟨fun _ => ?_, fun _ => rfl⟩
    rintro (⟨more, hmore⟩ | ⟨more, hmore⟩)
    · obtain ⟨rfl, hrest⟩ := List.cons.inj hmore
      exact hline _ rfl hrest.symm
    · obtain ⟨rfl, hrest⟩ := List.cons.inj hmore
      exact hblock _ rfl hrest.symm

theorem notMem_takeWhile (mark : Char) (cs : List Char) : mark ∉ cs.takeWhile (· != mark) := by
  intro hmem
  have hne := List.all_eq_true.1 (List.all_takeWhile (p := (· != mark)) (l := cs)) _ hmem
  simp at hne

theorem eq_of_dropWhile {mark c : Char} {cs rest : List Char}
    (h : cs.dropWhile (· != mark) = c :: rest) : c = mark := by
  have hhead := List.head_dropWhile_not (· != mark) (l := cs) (by rw [h]; simp)
  simpa only [h, List.head_cons, bne_eq_false_iff_eq] using hhead

theorem fits_comment? {c : Char} {rest : List Char} {result : Piece × List Char}
    (h : comment? c rest = some result) : Fits result.1 result.2 := by
  unfold comment? at h
  split at h
  · next after =>
    cases h
    refine .line (notMem_takeWhile _ after) ?_
    cases hdrop : after.dropWhile (· != '\n') with
    | nil => exact Or.inl rfl
    | cons d more =>
      rw [eq_of_dropWhile hdrop]
      exact Or.inr rfl
  · cases h
    exact .block (closing_splitComment _)
  · cases h

/-- A string is cut off with the quote that closes it. -/
theorem fits_quotation (rest : List Char) :
    Fits (quotation '"' rest).1 (quotation '"' rest).2 := by
  have hinside := notMem_takeWhile '"' rest
  unfold quotation
  dsimp only
  split
  · next hdrop =>
    refine .openString ?_
    rw [← List.takeWhile_append_dropWhile (p := (· != '"')) (l := rest), hdrop, List.append_nil]
    exact hinside
  · next quote after hdrop =>
    obtain rfl := eq_of_dropWhile hdrop
    exact .token ⟨_, rfl, hinside, rfl⟩ (longest_string hinside)
      (not_startsComment_of_ne (by decide))

theorem fits_numeral {c : Char} {rest : List Char} (h : startsNumeral c rest) :
    Fits (numeral c rest).1 (numeral c rest).2 := by
  have hnumeral := isNumeral_of_startsNumeral h
  obtain ⟨n, hn⟩ := Option.isSome_iff_exists.1 (isSome_ofText? hnumeral)
  have hpiece : (numeral c rest).1 = .token (.literal (.number n)) (c :: (splitNumeral rest).1) := by
    unfold numeral numeralPiece
    rw [hn]
  rw [hpiece]
  refine .token ⟨hnumeral, hn⟩ (longest_numeral h) (not_startsComment_of_ne ?_)
  rintro rfl
  exact absurd h (by simp [startsNumeral, isDigit])

/-- **The first piece fits.** -/
theorem fits_firstPiece (c : Char) (rest : List Char) :
    Fits (firstPiece c rest).1 (firstPiece c rest).2 := by
  have hwhole := firstPiece_append c rest
  unfold firstPiece at hwhole ⊢
  split
  · next hblank => exact .blank hblank
  next hblank =>
  split
  · next hletter =>
    refine .token (inClass_wordKind ?_) (longest_word hletter) (not_startsComment_of_ne ?_)
    · simp [isWord, hletter, List.all_takeWhile]
    · rintro rfl
      exact absurd hletter (by decide)
  next hletter =>
  split
  · next hnumeral => exact fits_numeral hnumeral
  next hnumeral =>
  split
  · next hquote =>
    subst hquote
    exact fits_quotation rest
  next hquote =>
  split
  · next hcomment => exact fits_comment? hcomment
  next hcomment =>
  have hcode := comment?_eq_none_iff.1 hcomment
  rw [if_neg hblank, if_neg hletter, if_neg hnumeral, if_neg hquote, hcomment] at hwhole
  dsimp only at hwhole
  split
  · next s hs =>
    rw [hs] at hwhole
    dsimp only [Piece.text] at hwhole
    refine .token rfl (longest_symbol hletter hnumeral hquote hs hwhole) ?_
    rw [hwhole]
    exact hcode
  · next hs =>
    refine .stray (Bool.not_eq_true _ ▸ hblank) hcode hquote fun kind text h => ?_
    exact not_inClass_of_symbolAt? hletter hnumeral hquote hs h

/-! ## One layout -/

theorem Fits.text_ne_nil {p : Piece} {after : List Char} (h : Fits p after) : p.text ≠ [] := by
  cases h with
  | token hclass => exact hclass.ne_nil
  | _ => exact List.cons_ne_nil _ _

/-- A comment starts with what no blank and no other piece starts with. -/
theorem Fits.startsComment_or_isBlank {text after : List Char} (h : Fits (.gap text) after) :
    StartsComment (text ++ after) ∨ ∃ c, text = [c] ∧ isBlank c := by
  cases h with
  | blank hblank => exact Or.inr ⟨_, rfl, hblank⟩
  | line => exact Or.inl (Or.inl ⟨_, rfl⟩)
  | block => exact Or.inl (Or.inr ⟨_, rfl⟩)

theorem not_isBlank_of_startsComment {c : Char} {rest : List Char}
    (h : StartsComment (c :: rest)) : isBlank c = false := by
  have hslash : '/' = c := by
    rcases h with h | h <;> exact (List.cons_prefix_cons.1 h).1
  rw [← hslash]
  decide

theorem Fits.gap_unique {text text' after after' : List Char} (h : Fits (.gap text) after)
    (h' : Fits (.gap text') after') (heq : text ++ after = text' ++ after') : text = text' := by
  cases h with
  | blank hblank =>
    rcases h'.startsComment_or_isBlank with hcomment | ⟨c', rfl, -⟩
    · rw [← heq] at hcomment
      rw [not_isBlank_of_startsComment hcomment] at hblank
      cases hblank
    · rw [(List.cons.inj heq).1]
  | @line body _ hinside hstop =>
    cases h' with
    | blank hblank =>
      obtain rfl := (List.cons.inj heq).1
      exact absurd hblank (by decide)
    | @line body' _ hinside' hstop' =>
      have hbody : body ++ after = body' ++ after' := (List.cons.inj (List.cons.inj heq).2).2
      rw [← takeWhile_append_of_notMem hinside hstop, hbody,
        takeWhile_append_of_notMem hinside' hstop']
    | block => cases (List.cons.inj (List.cons.inj heq).2).1
  | @block body _ hclosing =>
    cases h' with
    | blank hblank =>
      obtain rfl := (List.cons.inj heq).1
      exact absurd hblank (by decide)
    | line => cases (List.cons.inj (List.cons.inj heq).2).1
    | @block body' _ hclosing' =>
      have hbody : body ++ after = body' ++ after' := (List.cons.inj (List.cons.inj heq).2).2
      have hsplit := hclosing.splitComment_eq
      rw [hbody, hclosing'.splitComment_eq] at hsplit
      rw [(Prod.mk.inj hsplit).1]

/-- No gap stands where something else fits. -/
theorem Fits.eq_gap {p : Piece} {text after after' : List Char} (h : Fits (.gap text) after)
    (h' : Fits p after') (heq : text ++ after = p.text ++ after') : p = .gap text := by
  by_cases hp : ∃ text', p = .gap text'
  · obtain ⟨text', rfl⟩ := hp
    rw [h.gap_unique h' heq]
  have hcode : ¬StartsComment (p.text ++ after') ∧
      ∀ c rest, p.text ++ after' = c :: rest → isBlank c = false := by
    cases h' with
    | token hclass _ hcode =>
      refine ⟨hcode, fun c rest hrest => ?_⟩
      obtain ⟨more, rfl, -⟩ := hclass.of_isPrefix ⟨_, hrest⟩
      exact hclass.not_isBlank
    | stray hblank hcode =>
      refine ⟨hcode, fun c rest hrest => ?_⟩
      rw [← (List.cons.inj hrest).1]
      exact hblank
    | openString =>
      refine ⟨not_startsComment_of_ne (by decide), fun c rest hrest => ?_⟩
      rw [← (List.cons.inj hrest).1]
      decide
    | _ => exact absurd ⟨_, rfl⟩ hp
  rcases h.startsComment_or_isBlank with hcomment | ⟨c, rfl, hblank⟩
  · exact absurd (heq ▸ hcomment) hcode.1
  · rw [hcode.2 c after heq.symm] at hblank
    cases hblank

/-- A string that is not closed is no lexeme, and does not start with one. -/
theorem not_inClass_of_openString {kind : TokenKind} {text content : List Char}
    (h : InClass kind text) (hinside : '"' ∉ content) : ¬text <+: '"' :: content := by
  intro hfront
  obtain ⟨more, rfl, hmore⟩ := h.of_isPrefix hfront
  rcases h.head with hword | ⟨hnumeral, -⟩ | ⟨-, s, rfl⟩ | ⟨s, -, hs⟩
  · exact absurd (isLetter_of_isWord hword).1 (by decide)
  · rcases hnumeral.head with hdigit | ⟨hminus, -⟩
    · exact absurd hdigit (by decide)
    · cases hminus
  · obtain ⟨inner, htext, -⟩ := h
    obtain rfl := (List.cons.inj htext).2
    exact hinside (hmore.subset (by simp))
  · exact absurd rfl (symbol_head hs).2.2.1

/-- **What a text starts with is one piece only.** -/
theorem Fits.unique {p p' : Piece} {after after' : List Char} (h : Fits p after)
    (h' : Fits p' after') (heq : p.text ++ after = p'.text ++ after') : p = p' := by
  by_cases hgap : ∃ text, p = .gap text
  · obtain ⟨text, rfl⟩ := hgap
    exact (h.eq_gap h' heq).symm
  by_cases hgap' : ∃ text, p' = .gap text
  · obtain ⟨text, rfl⟩ := hgap'
    exact h'.eq_gap h heq.symm
  -- neither is a gap: of two lexemes neither is longer than the other, and where a character starts
  -- nothing or a string is not closed there is no lexeme
  cases h with
  | blank => exact absurd ⟨_, rfl⟩ hgap
  | line => exact absurd ⟨_, rfl⟩ hgap
  | block => exact absurd ⟨_, rfl⟩ hgap
  | @token kind text _ hclass hlongest =>
    have hfront : text <+: p'.text ++ after' := ⟨_, heq⟩
    cases h' with
    | @token kind' text' _ hclass' hlongest' =>
      have hle := hlongest _ _ hclass' ⟨_, heq.symm⟩
      have hge := hlongest' _ _ hclass hfront
      obtain rfl : text = text' := (List.append_inj heq (Nat.le_antisymm hge hle)).1
      rw [hclass.unique hclass']
    | stray _ _ _ hnone => exact absurd hfront (hnone _ _ hclass)
    | openString hinside =>
      rw [List.append_nil] at hfront
      exact absurd hfront (not_inClass_of_openString hclass hinside)
    | _ => exact absurd ⟨_, rfl⟩ hgap'
  | stray _ _ hquote hnone =>
    cases h' with
    | token hclass' => exact absurd ⟨_, heq.symm⟩ (hnone _ _ hclass')
    | stray => rw [(List.cons.inj heq).1]
    | openString => exact absurd (List.cons.inj heq).1 hquote
    | _ => exact absurd ⟨_, rfl⟩ hgap'
  | openString hinside =>
    cases h' with
    | token hclass' =>
      rw [List.append_nil] at heq
      exact absurd ⟨_, heq.symm⟩ (not_inClass_of_openString hclass' hinside)
    | stray _ _ hquote => exact absurd (List.cons.inj heq).1.symm hquote
    | openString =>
      rw [List.append_nil, List.append_nil] at heq
      rw [show Piece.text (.openString _) = _ from rfl] at heq
      rw [(List.cons.inj heq).2]
    | _ => exact absurd ⟨_, rfl⟩ hgap'

theorem laid_pieces (cs : List Char) : Laid (pieces cs) := by
  fun_induction pieces cs with
  | case1 => trivial
  | case2 c rest ih =>
    refine ⟨?_, ih⟩
    rw [textOf, pieces_text]
    exact fits_firstPiece c rest

/-- **A text has one layout.** -/
theorem Laid.unique {ps qs : List Piece} (hps : Laid ps) (hqs : Laid qs)
    (heq : textOf ps = textOf qs) : ps = qs := by
  induction ps generalizing qs with
  | nil =>
    cases qs with
    | nil => rfl
    | cons q qs =>
      have hnil : q.text ++ textOf qs = [] := heq.symm
      exact absurd (List.append_eq_nil_iff.1 hnil).1 hqs.1.text_ne_nil
  | cons p ps ih =>
    cases qs with
    | nil =>
      have hnil : p.text ++ textOf ps = [] := heq
      exact absurd (List.append_eq_nil_iff.1 hnil).1 hps.1.text_ne_nil
    | cons q qs =>
      have hwhole : p.text ++ textOf ps = q.text ++ textOf qs := heq
      obtain rfl := hps.1.unique hqs.1 hwhole
      rw [ih hps.2 hqs.2 (List.append_cancel_left hwhole)]

/-! ## Places -/

theorem placeAfter_concat (before : List Char) (c : Char) :
    placeAfter (before ++ [c]) = (placeAfter before).next c := by
  unfold placeAfter Position.next
  rw [List.reverse_concat, List.count_append]
  by_cases hc : c = '\n'
  · subst hc
    simp [Nat.add_assoc]
  · have hbne : (c != '\n') = true := bne_iff_ne.2 hc
    simp only [List.count_singleton, hc, hbne, List.takeWhile_cons_of_pos, List.length_cons,
      beq_iff_eq, if_false, Nat.add_zero, Position.mk.injEq, true_and]
    omega

theorem placeAfter_append (before cs : List Char) :
    placeAfter (before ++ cs) = (placeAfter before).after cs := by
  induction cs generalizing before with
  | nil => simp
  | cons c cs ih =>
    rw [List.append_cons, ih, placeAfter_concat, Position.after_cons]

theorem locate_placeAfter (before : List Char) (ps : List Piece) :
    locate (placeAfter before) ps = placed before ps := by
  induction ps generalizing before with
  | nil => rfl
  | cons p ps ih => rw [locate, placed, ← placeAfter_append, ih]

/-! ## Faults -/

/-- Only the last piece can be a string that is not closed. -/
theorem Fits.eq_nil_of_openString {text : List Char} {ps : List Piece}
    (h : Fits (.openString text) (textOf ps)) (hps : Laid ps) : ps = [] := by
  generalize hafter : textOf ps = after at h
  cases h
  cases ps with
  | nil => rfl
  | cons p ps => exact absurd (List.append_eq_nil_iff.1 hafter).1 hps.1.text_ne_nil

theorem length_openStrings_le {ps : List Piece} (h : Laid ps) (before : List Char) :
    (openStrings (placed before ps)).length ≤ 1 := by
  induction ps generalizing before with
  | nil => exact Nat.zero_le 1
  | cons p ps ih =>
    cases p with
    | openString text =>
      obtain rfl := h.1.eq_nil_of_openString h.2
      exact Nat.le_refl 1
    | _ => exact ih h.2 _

/-- What is reported of a layout are its faults. -/
theorem filterMap_diagnostic? {ps : List Piece} (h : Laid ps) (before : List Char) :
    (placed before ps).filterMap diagnostic? = faults (placed before ps) := by
  induction ps generalizing before with
  | nil => rfl
  | cons p ps ih =>
    have htail := ih h.2 (before ++ p.text)
    cases p with
    | gap text => exact htail
    | token kind text => exact htail
    | malformed text => cases h.1
    | stray c => exact congrArg (List.cons _) htail
    | openString text =>
      obtain rfl := h.1.eq_nil_of_openString h.2
      rfl

/-! ## Scanning -/

theorem inClass_of_mem_locate {ps : List Piece} (h : Laid ps) {p : Position} {t : Token}
    (ht : t ∈ (locate p ps).filterMap token?) : InClass t.kind t.lexeme.toList := by
  induction ps generalizing p with
  | nil => cases ht
  | cons piece ps ih =>
    cases piece with
    | token kind text =>
      rcases List.mem_cons.1 ht with rfl | hrest
      · cases h.1 with
        | token hclass =>
          rw [String.toList_ofList]
          exact hclass
      · exact ih h.2 hrest
    | _ => exact ih h.2 ht

/-- The lexeme of every token is in its class. -/
theorem inClass_of_mem_scan {source : String} {scanned : Scanned} (h : scan source = .ok scanned)
    {t : Token} (ht : t ∈ scanned.tokens) : InClass t.kind t.lexeme.toList := by
  unfold scan at h
  dsimp only at h
  split at h
  · cases h
    exact inClass_of_mem_locate (laid_pieces _) ht
  · cases h

theorem placed_pieces (source : String) :
    locate .start (pieces source.toList) = placed [] (pieces source.toList) :=
  locate_placeAfter [] _

theorem scan_of_sound {source : String} (h : faults (placed [] (pieces source.toList)) = []) :
    scan source =
      .ok { tokens := (placed [] (pieces source.toList)).filterMap token?
            finish := placeAfter source.toList } := by
  have hfinish : Position.start.after source.toList = placeAfter source.toList :=
    (placeAfter_append [] source.toList).symm
  unfold scan
  simp only [placed_pieces, hfinish, filterMap_diagnostic? (laid_pieces _), h]

theorem scan_of_faults {source : String} (h : faults (placed [] (pieces source.toList)) ≠ []) :
    scan source = .error (faults (placed [] (pieces source.toList))) := by
  unfold scan
  simp only [placed_pieces, filterMap_diagnostic? (laid_pieces _)]

/-- **Scanning gives the layout of the text**: there is one way to cut the text into blanks,
comments, lexemes as long as they can be, characters that start nothing and a string that is not
closed. The tokens are its lexemes, each with its kind, its text and its place. -/
theorem scan_layout (source : String) :
    ∃ ps, (Laid ps ∧ textOf ps = source.toList) ∧
      (∀ qs, Laid qs → textOf qs = source.toList → qs = ps) ∧
      (openStrings (placed [] ps)).length ≤ 1 ∧
      (faults (placed [] ps) = [] → scan source =
        .ok { tokens := (placed [] ps).filterMap token?, finish := placeAfter source.toList }) ∧
      (faults (placed [] ps) ≠ [] → scan source = .error (faults (placed [] ps))) := by
  have hlaid := laid_pieces source.toList
  have htext : textOf (pieces source.toList) = source.toList := pieces_text _
  refine ⟨pieces source.toList, ⟨hlaid, htext⟩, ?_, length_openStrings_le hlaid [], scan_of_sound,
    scan_of_faults⟩
  intro qs hqs heq
  exact hqs.unique hlaid (heq.trans htext.symm)

end Catena.Source

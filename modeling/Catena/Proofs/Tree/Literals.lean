import Catena.Proofs.Text.Quoted
import Catena.Proofs.Tree.Textual
import Catena.Tree.Outline
import Mathlib.Data.List.Forall2

/-!
# Literals and words of an outline

Which literal stands in an array shows in its text: a string is quoted, a number has only digits, a
sign, a point or the letters of `inf` and `NaN` in it, and neither boolean is made of these. A quoted
text ends at its quote, anything else at the space or the parenthesis after it
(`Literal.shownLike_of_outline`). So items that stand in a row are told one after the other
(`forall₂_of_spaced`).
-/

namespace Catena

open Catena.Source Catena.Text

/-! ## Literals -/

/-- Literals that are shown the same: they are equal, or numbers with one display form. -/
inductive Literal.ShownLike : Literal → Literal → Prop
  | number {a b : Float} (shown : Number.display a = Number.display b) :
    ShownLike (.number a) (.number b)
  | string (s : String) : ShownLike (.string s) (.string s)
  | boolean (b : Bool) : ShownLike (.boolean b) (.boolean b)

/-- The characters of numbers in their display form. -/
def isNumberChar (c : Char) : Bool :=
  c.isDigit || ['-', '.', 'i', 'n', 'f', 'N', 'a'].contains c

namespace Number

theorem isNumberChar_of_all {cs : List Char} (h : cs.all isNumberChar = true) :
    ∀ c ∈ cs, isNumberChar c = true :=
  List.all_eq_true.1 h

theorem isNumberChar_positional (digits : Nat) (grid : Int) :
    ∀ c ∈ (positional digits grid).toList, isNumberChar c = true := by
  have hdigits : ∀ c ∈ Nat.toDigits 10 digits, isNumberChar c = true := fun c hc => by
    rw [isNumberChar, Nat.isDigit_of_mem_toDigits (by decide) (Nat.le_refl 10) hc, Bool.true_or]
  have hzeros : ∀ k, ∀ c ∈ List.replicate k '0', isNumberChar c = true := fun k c hc => by
    rw [List.eq_of_mem_replicate hc]
    decide
  intro c hc
  unfold positional at hc
  dsimp only at hc
  split at hc
  · rw [String.toList_ofList] at hc
    rcases List.mem_append.1 hc with hc | hc
    · exact hdigits c hc
    · exact hzeros _ c hc
  split at hc
  · rw [String.toList_ofList] at hc
    rcases List.mem_append.1 hc with hc | hc
    · exact hdigits c (List.mem_of_mem_take hc)
    rcases List.mem_cons.1 hc with rfl | hc
    · decide
    · exact hdigits c (List.mem_of_mem_drop hc)
  · rw [String.toList_ofList] at hc
    rcases List.mem_append.1 hc with hc | hc
    · rcases List.mem_cons.1 hc with rfl | hc
      · decide
      rcases List.mem_cons.1 hc with rfl | hc
      · decide
      · exact hzeros _ c hc
    · exact hdigits c hc

theorem isNumberChar_signed {negative : Bool} {text : String}
    (h : ∀ c ∈ text.toList, isNumberChar c = true) :
    ∀ c ∈ (signed negative text).toList, isNumberChar c = true := by
  unfold signed
  split
  · rw [String.toList_append]
    exact List.forall_mem_append.2 ⟨isNumberChar_of_all rfl, h⟩
  · exact h

theorem isNumberChar_plain (n : Float) : ∀ c ∈ (plain n).toList, isNumberChar c = true := by
  unfold plain
  split
  · exact isNumberChar_of_all rfl
  · exact isNumberChar_signed (isNumberChar_of_all rfl)
  · split
    · exact isNumberChar_signed (isNumberChar_of_all rfl)
    · exact isNumberChar_signed (isNumberChar_positional _ _)

theorem isNumberChar_display (n : Float) : ∀ c ∈ (display n).toList, isNumberChar c = true := by
  unfold display
  split
  · split
    · refine isNumberChar_signed ?_
      rw [String.toList_append, String.toList_ofList]
      refine List.forall_mem_append.2 ⟨fun c hc => ?_, isNumberChar_of_all rfl⟩
      rw [isNumberChar, Nat.isDigit_of_mem_toDigits (by decide) (Nat.le_refl 10) hc, Bool.true_or]
    · exact isNumberChar_plain n
  · exact isNumberChar_plain n

theorem unbroken_display (n : Float) : Unbroken (display n) := by
  intro c hc
  by_contra hmark
  have hchar := isNumberChar_display n c hc
  rcases mark_cases hmark with rfl | rfl | rfl <;> exact absurd hchar (by decide)

/-- No number is shown as a boolean is. -/
theorem display_ne_booleanText (n : Float) (b : Bool) : display n ≠ booleanText b := by
  intro h
  have hchars := isNumberChar_display n
  rw [h] at hchars
  cases b
  · exact absurd (hchars 's' (by decide)) (by decide)
  · exact absurd (hchars 't' (by decide)) (by decide)

end Number

theorem booleanText_injective : Function.Injective booleanText := by
  intro b b' h
  cases b <;> cases b' <;> first | rfl | exact absurd h (by decide)

theorem unbroken_booleanText (b : Bool) : Unbroken (booleanText b) :=
  unbroken_of_all (by cases b <;> rfl)

/-- A quoted text is not one without a quote. -/
theorem encode_ne_of_notMem {s : String} {cs rest more : List Char} {c : Char} (hcs : '"' ∉ cs)
    (hc : isMark c = true) : (Quoted.encode s).toList ++ rest ≠ cs ++ c :: more := by
  intro h
  simp only [Quoted.encode, String.toList_ofList, List.cons_append] at h
  cases cs with
  | nil =>
    obtain rfl := (List.cons.inj h).1
    exact absurd hc (by decide)
  | cons first rest => exact hcs ((List.cons.inj h).1 ▸ List.mem_cons_self)

theorem quote_notMem_display (n : Float) : '"' ∉ (Number.display n).toList := fun h =>
  absurd (Number.isNumberChar_display n _ h) (by decide)

theorem quote_notMem_booleanText (b : Bool) : '"' ∉ (booleanText b).toList := by
  cases b <;> decide

/-- **An item of an array is told from what a text starts with**, up to the mark after it. -/
theorem Literal.shownLike_of_outline {v v' : Literal} {c c' : Char} {rest rest' : List Char}
    (hc : isMark c = true) (hc' : isMark c' = true)
    (h : v.outline.toList ++ c :: rest = v'.outline.toList ++ c' :: rest') :
    v.ShownLike v' ∧ c :: rest = c' :: rest' := by
  cases v with
  | string s =>
    cases v' with
    | string s' =>
      obtain ⟨rfl, hrest⟩ := Quoted.encode_append h
      exact ⟨.string s, hrest⟩
    | number b => exact absurd h (encode_ne_of_notMem (quote_notMem_display b) hc')
    | boolean b => exact absurd h (encode_ne_of_notMem (quote_notMem_booleanText b) hc')
  | number a =>
    cases v' with
    | string s' => exact absurd h.symm (encode_ne_of_notMem (quote_notMem_display a) hc)
    | number b =>
      obtain ⟨hshown, rfl, rfl⟩ :=
        (Number.unbroken_display a).eq_of_append (Number.unbroken_display b) hc hc' h
      exact ⟨.number hshown, rfl⟩
    | boolean b =>
      obtain ⟨hshown, -⟩ :=
        (Number.unbroken_display a).eq_of_append (unbroken_booleanText b) hc hc' h
      exact absurd hshown (Number.display_ne_booleanText a b)
  | boolean b =>
    cases v' with
    | string s' => exact absurd h.symm (encode_ne_of_notMem (quote_notMem_booleanText b) hc)
    | number a =>
      obtain ⟨hshown, -⟩ :=
        (unbroken_booleanText b).eq_of_append (Number.unbroken_display a) hc hc' h
      exact absurd hshown.symm (Number.display_ne_booleanText a b)
    | boolean b' =>
      obtain ⟨hshown, rfl, rfl⟩ :=
        (unbroken_booleanText b).eq_of_append (unbroken_booleanText b') hc hc' h
      obtain rfl := booleanText_injective hshown
      exact ⟨.boolean b, rfl⟩

/-! ## Words in a row -/

/-- Items with a space in front of each, up to a closing parenthesis: if what a text starts with tells an
item, it tells all of them. -/
theorem forall₂_of_spaced {α : Type} {text : α → List Char} {R : α → α → Prop} {items items' : List α}
    {rest rest' : List Char}
    (step : ∀ a ∈ items, ∀ a' ∈ items', ∀ {c c' more more'}, isMark c = true → isMark c' = true →
      text a ++ c :: more = text a' ++ c' :: more' → R a a' ∧ c :: more = c' :: more')
    (h : (items.flatMap fun a => ' ' :: text a) ++ ')' :: rest =
      (items'.flatMap fun a => ' ' :: text a) ++ ')' :: rest') :
    List.Forall₂ R items items' ∧ rest = rest' := by
  -- what stands after an item starts with a mark
  have hmark : ∀ (l : List α) (rest : List Char), ∃ c more, isMark c = true ∧
      (l.flatMap fun a => ' ' :: text a) ++ ')' :: rest = c :: more := by
    intro l rest
    cases l with
    | nil => exact ⟨')', rest, rfl, rfl⟩
    | cons a l => exact ⟨' ', _, rfl, rfl⟩
  induction items generalizing items' with
  | nil =>
    cases items' with
    | nil => exact ⟨.nil, (List.cons.inj h).2⟩
    | cons a' items' => exact absurd (List.cons.inj h).1 (by decide)
  | cons a items ih =>
    cases items' with
    | nil => exact absurd (List.cons.inj h).1 (by decide)
    | cons a' items' =>
      simp only [List.flatMap_cons, List.cons_append, List.append_assoc, List.cons.injEq,
        true_and] at h
      obtain ⟨c, more, hc, hmore⟩ := hmark items rest
      obtain ⟨c', more', hc', hmore'⟩ := hmark items' rest'
      rw [hmore, hmore'] at h
      obtain ⟨ha, hrest⟩ := step a List.mem_cons_self a' List.mem_cons_self hc hc' h
      rw [← hmore, ← hmore'] at hrest
      obtain ⟨hitems, hrest⟩ := ih (fun b hb b' hb' => step b (List.mem_cons_of_mem _ hb) b'
        (List.mem_cons_of_mem _ hb')) hrest
      exact ⟨.cons ha hitems, hrest⟩

theorem eq_of_spaced {words words' : List String} {rest rest' : List Char}
    (hwords : ∀ w ∈ words, Unbroken w) (hwords' : ∀ w ∈ words', Unbroken w)
    (h : (words.flatMap fun w => ' ' :: w.toList) ++ ')' :: rest =
      (words'.flatMap fun w => ' ' :: w.toList) ++ ')' :: rest') : words = words' ∧ rest = rest' := by
  have hstep : ∀ w ∈ words, ∀ w' ∈ words', ∀ {c c' more more'}, isMark c = true → isMark c' = true →
      w.toList ++ c :: more = w'.toList ++ c' :: more' → w = w' ∧ c :: more = c' :: more' := by
    intro w hw w' hw' c c' more more' hc hc' heq
    obtain ⟨hword, rfl, rfl⟩ := (hwords w hw).eq_of_append (hwords' w' hw') hc hc' heq
    exact ⟨hword, rfl⟩
  obtain ⟨hall, hrest⟩ := forall₂_of_spaced hstep h
  exact ⟨List.forall₂_eq_eq_eq ▸ hall, hrest⟩

end Catena

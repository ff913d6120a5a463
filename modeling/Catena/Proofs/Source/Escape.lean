import Catena.Source.Piece

/-!
# Escapes of strings

The escapes of a string literal are replaced one kind after the other, each time in the whole text.
`decode` reads a text once, from left to right, and replaces all kinds as it meets them. The two agree
(`unescape_eq_decode`), and so does any other order of the kinds, because a replacement neither makes
nor breaks an escape of another kind: what it puts in is no backslash and no letter of an escape, and
the backslash that it takes away belonged to no other escape (`decode_decode`). This holds of runs of
backslashes too, since no escape has a backslash for its second character.
-/

namespace Catena.Source

open Catena.Text

/-- The character that a letter stands for after a backslash. -/
def escape? : Char → Option Char
  | 't' => some '\t'
  | 'n' => some '\n'
  | 'r' => some '\r'
  | _ => none

/-- Reads a text once from left to right. A backslash before a character that stands for something is
read with it as that; any other character is read as itself. -/
def decode (stands : Char → Option Char) : List Char → List Char
  | [] => []
  | [c] => [c]
  | c :: d :: rest =>
    match if c = '\\' then stands d else none with
    | some e => e :: decode stands rest
    | none => c :: decode stands (d :: rest)

/-- The escapes, each with what it stands for. -/
def escapes : List (Char × Char) :=
  [('t', '\t'), ('n', '\n'), ('r', '\r')]

/-- What the letters of a list of escapes stand for; the first row for a letter counts. -/
def listed? (order : List (Char × Char)) (d : Char) : Option Char :=
  order.lookup d

/-- A text in which escapes have been replaced one kind after the other. -/
def replaceInTurn (order : List (Char × Char)) (text : List Char) : List Char :=
  order.foldl (fun text row => replaceAll ['\\', row.1] [row.2] text) text

section Decode

variable {f g : Char → Option Char}

theorem decode_escape {d e : Char} (h : f d = some e) (rest : List Char) :
    decode f ('\\' :: d :: rest) = e :: decode f rest := by
  rw [decode, if_pos rfl, h]

theorem decode_cons {c : Char} {rest : List Char}
    (h : c = '\\' → ∀ d ∈ rest.head?, f d = none) : decode f (c :: rest) = c :: decode f rest := by
  cases rest with
  | nil => simp only [decode]
  | cons d rest =>
    have hcopied : (if c = '\\' then f d else none) = none := by
      split
      · next hc => exact h hc d rfl
      · rfl
    rw [decode, hcopied]

/-- With nothing to replace a text is copied. -/
theorem decode_none (text : List Char) : decode (fun _ => none) text = text := by
  induction text with
  | nil => rfl
  | cons c rest ih => rw [decode_cons fun _ _ _ => rfl, ih]

/-- What a decoded text starts with: the character of the text itself, or one that is put in. -/
theorem head_decode {d d' : Char} {rest : List Char} (h : d' ∈ (decode f (d :: rest)).head?) :
    d' = d ∨ ∃ x, f x = some d' := by
  cases rest with
  | nil =>
    simp only [decode, List.head?_cons, Option.mem_some_iff] at h
    exact .inl h.symm
  | cons x rest =>
    rw [decode] at h
    split at h
    · next e he =>
      obtain rfl : e = d' := Option.some.inj h
      split at he
      · exact .inr ⟨x, he⟩
      · cases he
    · exact .inl (Option.some.inj h).symm

/-- **Decoding twice is decoding once with both kinds of escapes**, if what the first puts in is no
backslash and no letter of the second, and a backslash is no letter of the second. -/
theorem decode_decode (hf : ∀ d e, f d = some e → e ≠ '\\' ∧ g e = none) (hg : g '\\' = none)
    (text : List Char) : decode g (decode f text) = decode (fun d => (f d).or (g d)) text := by
  fun_induction decode f text with
  | case1 => rfl
  | case2 c => rfl
  | case3 c d rest e he ih =>
    -- an escape of the first kind: the second pass copies what was put in
    split at he
    · next hc =>
      subst hc
      have hboth : (f d).or (g d) = some e := by rw [he, Option.some_or]
      rw [decode_escape hboth, decode_cons fun hbackslash => absurd hbackslash (hf d e he).1, ih]
    · cases he
  | case4 c d rest he ih =>
    by_cases hc : c = '\\'
    · subst hc
      rw [if_pos rfl] at he
      cases hgd : g d with
      | some e =>
        -- an escape of the second kind: its letter is still there after the first pass
        have hd : d ≠ '\\' := by
          rintro rfl
          rw [hg] at hgd
          cases hgd
        have hboth : (f d).or (g d) = some e := by rw [he, hgd, Option.none_or]
        have hletter : decode f (d :: rest) = d :: decode f rest := decode_cons fun h => absurd h hd
        rw [hletter, decode_cons fun h => absurd h hd, decode_cons fun h => absurd h hd] at ih
        rw [hletter, decode_escape hgd, decode_escape hboth, (List.cons.inj ih).2]
      | none =>
        -- no escape, and the first pass puts no letter of the second kind behind the backslash
        have hboth : (f d).or (g d) = none := by rw [he, hgd, Option.none_or]
        have hquiet : ∀ d' ∈ (decode f (d :: rest)).head?, g d' = none := by
          intro d' hd'
          rcases head_decode hd' with rfl | ⟨x, hx⟩
          · exact hgd
          · exact (hf x d' hx).2
        rw [decode_cons fun _ => hquiet, ih]
        exact (decode_cons fun _ x hx => Option.some.inj hx ▸ hboth).symm
    · rw [decode_cons fun h => absurd h hc, ih, decode_cons fun h => absurd h hc]

end Decode

/-- Replacing one kind of escapes is reading the text once for that kind. -/
theorem replaceAll_eq_decode (d e : Char) (text : List Char) :
    replaceAll ['\\', d] [e] text = decode (fun x => if x = d then some e else none) text := by
  fun_induction decode (fun x => if x = d then some e else none) text with
  | case1 => simp only [replaceAll]
  | case2 c => simp [replaceAll, List.isPrefixOf]
  | case3 c x rest e' he ih =>
    split at he
    · next hc =>
      subst hc
      split at he
      · next hx =>
        cases he
        subst hx
        rw [replaceAll, if_pos (by simp [List.isPrefixOf]), ← ih]
        rfl
      · cases he
    · cases he
  | case4 c x rest he ih =>
    have hprefix : ¬ (['\\', d].isPrefixOf (c :: x :: rest)) = true := by
      rw [List.isPrefixOf_iff_prefix, List.cons_prefix_cons, List.cons_prefix_cons]
      rintro ⟨rfl, rfl, -⟩
      simp at he
    rw [replaceAll, if_neg hprefix, ih]

theorem listed?_cons (row : Char × Char) (order : List (Char × Char)) :
    listed? (row :: order) =
      fun d => (if d = row.1 then some row.2 else none).or (listed? order d) := by
  funext d
  unfold listed?
  rw [List.lookup_cons]
  by_cases hd : d = row.1
  · rw [if_pos hd, beq_iff_eq.2 hd, Option.some_or]
  · rw [if_neg hd, beq_eq_false_iff_ne.2 hd, Option.none_or]

/-- **Replacing the escapes of a list in turn is reading the text once**, if what they stand for is
neither a backslash nor a letter of the list, and no letter is a backslash. -/
theorem replaceInTurn_eq_decode {order : List (Char × Char)} (hletters : listed? order '\\' = none)
    (hchars : ∀ row ∈ order, row.2 ≠ '\\' ∧ listed? order row.2 = none) (text : List Char) :
    replaceInTurn order text = decode (listed? order) text := by
  induction order generalizing text with
  | nil => exact (decode_none text).symm
  | cons row order ih =>
    have hlater : ∀ c, listed? (row :: order) c = none → listed? order c = none := by
      intro c hc
      rw [listed?_cons] at hc
      exact (Option.or_eq_none_iff.1 hc).2
    have hrest := ih (hlater _ hletters) fun row' hrow' =>
      have hrow := hchars row' (List.mem_cons_of_mem _ hrow')
      ⟨hrow.1, hlater _ hrow.2⟩
    rw [replaceInTurn, List.foldl_cons, ← replaceInTurn, hrest, replaceAll_eq_decode, decode_decode,
      ← listed?_cons]
    · intro d e he
      split at he
      · cases he
        have hrow := hchars row List.mem_cons_self
        exact ⟨hrow.1, hlater _ hrow.2⟩
      · cases he
    · exact hlater _ hletters

theorem escape?_eq_some_iff {d e : Char} : escape? d = some e ↔ (d, e) ∈ escapes := by
  constructor
  · intro h
    unfold escape? at h
    split at h
    · cases h
      decide
    · cases h
      decide
    · cases h
      decide
    · cases h
  · intro h
    simp only [escapes, List.mem_cons, List.not_mem_nil, or_false, Prod.mk.injEq] at h
    rcases h with ⟨rfl, rfl⟩ | ⟨rfl, rfl⟩ | ⟨rfl, rfl⟩ <;> rfl

/-- In whatever order the escapes are listed, their letters stand for the same. -/
theorem listed?_of_perm {order : List (Char × Char)} (h : order.Perm escapes) :
    listed? order = escape? := by
  funext d
  unfold listed?
  cases hlookup : order.lookup d with
  | some e =>
    obtain ⟨before, after, rfl, -⟩ := List.lookup_eq_some_iff.1 hlookup
    have hmem : (d, e) ∈ escapes := h.subset (by simp)
    exact (escape?_eq_some_iff.2 hmem).symm
  | none =>
    cases hescape : escape? d with
    | none => rfl
    | some e =>
      have hmem : (d, e) ∈ order := h.symm.subset (escape?_eq_some_iff.1 hescape)
      exact absurd (List.lookup_eq_none_iff.1 hlookup _ hmem) (by simp)

/-- **Escapes can be replaced in any order.** Three replacements of the whole text, one after the
other, are one reading of it from left to right that replaces all escapes as it meets them. -/
theorem unescape_eq_decode (content : List Char) :
    unescape content = decode escape? content ∧
      ∀ order : List (Char × Char), order.Perm escapes →
        replaceInTurn order content = decode escape? content := by
  have hturn : ∀ order : List (Char × Char), order.Perm escapes →
      replaceInTurn order content = decode escape? content := by
    intro order horder
    have hlisted := listed?_of_perm horder
    rw [← hlisted]
    refine replaceInTurn_eq_decode (by rw [hlisted]; rfl) (fun row hrow => ?_) content
    rw [hlisted]
    have hall : ∀ row ∈ escapes, row.2 ≠ '\\' ∧ escape? row.2 = none := by decide
    exact hall row (horder.subset hrow)
  exact ⟨hturn escapes (List.Perm.refl _), hturn⟩

/-- In a run of backslashes the last one makes the escape, in whatever order escapes are replaced. -/
theorem unescape_eq_decode_run :
    unescape "\\\\t\\\\\\n".toList = "\\\t\\\\\n".toList ∧
      [('r', '\r'), ('n', '\n'), ('t', '\t')].Perm escapes ∧
      replaceInTurn [('r', '\r'), ('n', '\n'), ('t', '\t')] "\\\\t\\\\\\n".toList =
        "\\\t\\\\\n".toList := by
  have hread : decode escape? "\\\\t\\\\\\n".toList = "\\\t\\\\\n".toList := by decide
  have horder : [('r', '\r'), ('n', '\n'), ('t', '\t')].Perm escapes := by decide
  obtain ⟨hunescape, hturn⟩ := unescape_eq_decode "\\\\t\\\\\\n".toList
  exact ⟨hunescape.trans hread, horder, (hturn _ horder).trans hread⟩

end Catena.Source

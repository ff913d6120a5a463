import Mathlib.Data.List.Infix
import Catena.Text.Substitution

/-!
# Replacing one pattern after the other, and all at once

`replaceAll` replaces one pattern. Several patterns are replaced one after the other by running it
again on the result, which looks for the later patterns also in what was put in for the earlier ones,
and across its borders. `replaceEach` replaces all patterns of a table at once and never looks at what
it has put in. For patterns in braces, which cannot overlap, the two differ only where something put in
makes a new occurrence of a later pattern: an occurrence in the text itself is never lost
(`occurrences_le_replaceEach`), and if none comes up the next replacement is one more row of the table
(`replaceAll_replaceEach`).
-/

namespace Catena.Text

/-- An opening brace, a name without braces, a closing brace. -/
def Braced (pattern : List Char) : Prop :=
  ∃ name : List Char, pattern = '\x7b' :: name ++ ['\x7d'] ∧ '\x7b' ∉ name ∧ '\x7d' ∉ name

/-- At how many places of a text `pattern` begins, the end of the text apart. -/
def occurrences (pattern : List Char) : List Char → Nat
  | [] => 0
  | c :: rest => (if pattern <+: c :: rest then 1 else 0) + occurrences pattern rest

/-- A text with each occurrence of a pattern of the table replaced by what stands beside it. Earlier
rows of the table take precedence. -/
def replaceEach (table : List (List Char × List Char)) : List Char → List Char
  | [] => []
  | c :: rest =>
    match table.find? fun row => row.1.isPrefixOf (c :: rest) with
    | some (pattern, new) => new ++ replaceEach table (rest.drop (pattern.length - 1))
    | none => c :: replaceEach table rest
termination_by text => text.length
decreasing_by
  · simp only [List.length_drop, List.length_cons]; omega
  · simp

variable {p q text rest : List Char}

namespace Braced

theorem ne_nil (hp : Braced p) : p ≠ [] := by
  obtain ⟨name, rfl, -, -⟩ := hp
  exact List.cons_ne_nil _ _

/-- A pattern in braces begins with a brace, and there is no other opening brace in it. -/
theorem exists_tail (hp : Braced p) : ∃ tail, p = '\x7b' :: tail ∧ '\x7b' ∉ tail := by
  obtain ⟨name, rfl, hopen, -⟩ := hp
  refine ⟨name ++ ['\x7d'], rfl, ?_⟩
  rw [List.mem_append, List.mem_singleton]
  rintro (h | h)
  · exact hopen h
  · exact absurd h (by decide)

/-- Two patterns in braces that begin at one place are the same. -/
theorem eq_of_starts (hp : Braced p) (hq : Braced q) (hptext : p <+: text) (hqtext : q <+: text) :
    p = q := by
  have hsame : ∀ {p q : List Char}, Braced p → Braced q → p <+: q → p = q := by
    rintro p q ⟨name, rfl, -, -⟩ ⟨name', rfl, -, hclose'⟩ ⟨tail, htail⟩
    -- the closing brace of the shorter pattern is the closing brace of the longer one
    rw [List.cons_append, List.cons_append, List.cons_append, List.cons.injEq] at htail
    obtain htail := htail.2
    rw [List.append_assoc] at htail
    rcases List.append_eq_append_iff.1 htail with ⟨middle, rfl, h⟩ | ⟨middle, rfl, h⟩
    · cases middle with
      | nil => rw [List.append_nil]
      | cons c middle =>
        rw [List.singleton_append, List.cons_append, List.cons.injEq] at h
        exact absurd (h.1 ▸ List.mem_append_right _ List.mem_cons_self) hclose'
    · cases middle with
      | nil => rw [List.append_nil]
      | cons c middle =>
        have hlength := congrArg List.length h
        simp only [List.length_append, List.length_cons, List.length_nil] at hlength
        omega
  rcases List.prefix_or_prefix_of_prefix hptext hqtext with h | h
  · exact hsame hp hq h
  · exact (hsame hq hp h).symm

theorem not_prefix_cons (hp : Braced p) {c : Char} (hc : c ≠ '\x7b') : ¬ p <+: c :: rest := by
  obtain ⟨tail, rfl, -⟩ := hp.exists_tail
  intro h
  exact hc (List.cons_prefix_cons.1 h).1.symm

end Braced

/-! ## Occurrences -/

theorem occursIn_eq_true_iff : occursIn p text = true ↔ p <:+: text := by
  induction text with
  | nil => rw [occursIn, List.isEmpty_iff, List.infix_nil]
  | cons c rest ih =>
    rw [occursIn, Bool.or_eq_true, List.isPrefixOf_iff_prefix, ih, List.infix_cons_iff]

theorem occurrences_pos_iff (hp : p ≠ []) : 0 < occurrences p text ↔ p <:+: text := by
  induction text with
  | nil =>
    rw [List.infix_nil]
    exact ⟨fun h => absurd h (Nat.lt_irrefl 0), fun h => absurd h hp⟩
  | cons c rest ih =>
    rw [occurrences, List.infix_cons_iff, ← ih]
    by_cases hprefix : p <+: c :: rest
    · rw [if_pos hprefix]
      exact ⟨fun _ => .inl hprefix, fun _ => by omega⟩
    · rw [if_neg hprefix, Nat.zero_add, or_iff_right hprefix]

theorem occurrences_eq_zero_iff (hp : p ≠ []) : occurrences p text = 0 ↔ ¬ p <:+: text := by
  rw [← occurrences_pos_iff hp, Nat.pos_iff_ne_zero, not_not]

theorem occurrences_le_append (p front text : List Char) :
    occurrences p text ≤ occurrences p (front ++ text) := by
  induction front with
  | nil => exact Nat.le_refl _
  | cons c front ih =>
    rw [List.cons_append, occurrences]
    exact ih.trans (Nat.le_add_left _ _)

/-- A pattern in braces begins nowhere in a part without opening braces. -/
theorem occurrences_append (hp : Braced p) {front : List Char} (hfront : '\x7b' ∉ front)
    (text : List Char) : occurrences p (front ++ text) = occurrences p text := by
  induction front with
  | nil => rfl
  | cons c front ih =>
    rw [List.mem_cons, not_or] at hfront
    rw [List.cons_append, occurrences, if_neg (hp.not_prefix_cons fun h => hfront.1 h.symm),
      Nat.zero_add, ih hfront.2]

theorem occurrences_self_append (hp : Braced p) (text : List Char) :
    occurrences p (p ++ text) = occurrences p text + 1 := by
  have hprefix : p <+: p ++ text := List.prefix_append p text
  obtain ⟨tail, rfl, htail⟩ := hp.exists_tail
  rw [List.cons_append] at hprefix ⊢
  rw [occurrences, if_pos hprefix, occurrences_append hp htail, Nat.add_comm]

theorem occurrences_append_of_ne (hp : Braced p) (hq : Braced q) (hne : p ≠ q) (text : List Char) :
    occurrences p (q ++ text) = occurrences p text := by
  have hprefix : ¬ p <+: q ++ text :=
    fun h => hne (hp.eq_of_starts hq h (List.prefix_append q text))
  obtain ⟨tail, rfl, htail⟩ := hq.exists_tail
  rw [List.cons_append] at hprefix ⊢
  rw [occurrences, if_neg hprefix, Nat.zero_add, occurrences_append hp htail]

/-! ## One pattern -/

theorem replaceAll_self_append (hp : p ≠ []) (new text : List Char) :
    replaceAll p new (p ++ text) = new ++ replaceAll p new text := by
  cases p with
  | nil => exact absurd rfl hp
  | cons c tail =>
    rw [List.cons_append, replaceAll, if_pos]
    · rw [List.length_cons, Nat.add_sub_cancel, List.drop_left]
    · exact List.isPrefixOf_iff_prefix.2 (List.prefix_append (c :: tail) text)

/-- A part in which the pattern does not begin stays as it is. -/
theorem replaceAll_append {front : List Char} (new : List Char)
    (h : occurrences p (front ++ text) = occurrences p text) :
    replaceAll p new (front ++ text) = front ++ replaceAll p new text := by
  induction front with
  | nil => rfl
  | cons c front ih =>
    have hle := occurrences_le_append p front text
    rw [List.cons_append, occurrences] at h
    rw [List.cons_append, replaceAll]
    by_cases hprefix : p <+: c :: (front ++ text)
    · rw [if_pos hprefix] at h
      omega
    · rw [if_neg hprefix, Nat.zero_add] at h
      rw [if_neg (mt List.isPrefixOf_iff_prefix.1 hprefix), ih h, List.cons_append]

/-! ## A table of patterns -/

section Table

variable {table : List (List Char × List Char)} {new : List Char}

/-- At a pattern of the table, what stands beside it is put in. -/
theorem replaceEach_pattern_append (hq : q ≠ [])
    (hfind : (table.find? fun row => row.1.isPrefixOf (q ++ text)) = some (q, new)) :
    replaceEach table (q ++ text) = new ++ replaceEach table text := by
  cases q with
  | nil => exact absurd rfl hq
  | cons c tail =>
    rw [List.cons_append] at hfind ⊢
    rw [replaceEach, hfind]
    dsimp only
    rw [List.length_cons, Nat.add_sub_cancel, List.drop_left]

theorem replaceEach_cons {c : Char} (h : ∀ row ∈ table, ¬ row.1 <+: c :: text) :
    replaceEach table (c :: text) = c :: replaceEach table text := by
  have hfind : (table.find? fun row => row.1.isPrefixOf (c :: text)) = none :=
    List.find?_eq_none.2 fun row hrow => mt List.isPrefixOf_iff_prefix.1 (h row hrow)
  rw [replaceEach, hfind]

variable (htable : ∀ row ∈ table, Braced row.1)

include htable

theorem replaceEach_append {front : List Char} (hfront : '\x7b' ∉ front) (text : List Char) :
    replaceEach table (front ++ text) = front ++ replaceEach table text := by
  induction front with
  | nil => rfl
  | cons c front ih =>
    rw [List.mem_cons, not_or] at hfront
    rw [List.cons_append,
      replaceEach_cons fun row hrow => (htable row hrow).not_prefix_cons fun h => hfront.1 h.symm,
      ih hfront.2, List.cons_append]

/-- A pattern in braces that has no row stays as it is. -/
theorem replaceEach_append_of_notMem (hp : Braced p) (hnew : ∀ row ∈ table, row.1 ≠ p)
    (text : List Char) : replaceEach table (p ++ text) = p ++ replaceEach table text := by
  have hnone : ∀ row ∈ table, ¬ row.1 <+: p ++ text := fun row hrow h =>
    hnew row hrow ((htable row hrow).eq_of_starts hp h (List.prefix_append p text))
  obtain ⟨tail, rfl, htail⟩ := hp.exists_tail
  rw [List.cons_append] at hnone ⊢
  rw [replaceEach_cons hnone, replaceEach_append htable htail, List.cons_append]

/-- How a text begins, seen from a table and one more pattern: with a pattern of the table, with the
other pattern, or with a character at which none of them begins. Texts are taken apart in this way from
left to right. -/
theorem replaceEach_induction (hp : Braced p) {motive : List Char → Prop} (nil : motive [])
    (row : ∀ q new text, (q, new) ∈ table →
      (table.find? fun row => row.1.isPrefixOf (q ++ text)) = some (q, new) →
      motive text → motive (q ++ text))
    (other : ∀ text, motive text → motive (p ++ text))
    (char : ∀ c text, (∀ row ∈ table, ¬ row.1 <+: c :: text) → ¬ p <+: c :: text →
      motive text → motive (c :: text))
    (text : List Char) : motive text := by
  induction hlength : text.length using Nat.strong_induction_on generalizing text with
  | h n ih =>
  subst hlength
  cases text with
  | nil => exact nil
  | cons c text =>
    cases hfind : table.find? fun row => row.1.isPrefixOf (c :: text) with
    | some found =>
      obtain ⟨q, new⟩ := found
      have hmem := List.mem_of_find?_eq_some hfind
      have hprefix : q.isPrefixOf (c :: text) = true := List.find?_some
        (p := fun row : List Char × List Char => row.1.isPrefixOf (c :: text)) hfind
      obtain ⟨rest, hrest⟩ := List.isPrefixOf_iff_prefix.1 hprefix
      have hshort : rest.length < (c :: text).length := by
        have hpos : 0 < q.length := List.length_pos_iff.2 (htable _ hmem).ne_nil
        rw [← hrest, List.length_append]
        omega
      rw [← hrest] at hfind ⊢
      exact row q new rest hmem hfind (ih _ hshort rest rfl)
    | none =>
      by_cases hprefix : p <+: c :: text
      · obtain ⟨rest, hrest⟩ := hprefix
        have hshort : rest.length < (c :: text).length := by
          have hpos := List.length_pos_iff.2 hp.ne_nil
          rw [← hrest, List.length_append]
          omega
        rw [← hrest]
        exact other rest (ih _ hshort rest rfl)
      · refine char c text (fun row hrow h => ?_) hprefix (ih _ (Nat.lt_succ_self _) text rfl)
        exact List.find?_eq_none.1 hfind row hrow (List.isPrefixOf_iff_prefix.2 h)

/-- **No occurrence is lost**: a pattern that has no row occurs afterwards at least as often. -/
theorem occurrences_le_replaceEach (hp : Braced p) (hnew : ∀ row ∈ table, row.1 ≠ p)
    (text : List Char) : occurrences p text ≤ occurrences p (replaceEach table text) := by
  induction text using replaceEach_induction htable hp with
  | nil => exact Nat.zero_le _
  | row q new text hmem hfind ih =>
    rw [replaceEach_pattern_append (htable _ hmem).ne_nil hfind,
      occurrences_append_of_ne hp (htable _ hmem) (hnew _ hmem).symm]
    exact ih.trans (occurrences_le_append p new _)
  | other text ih =>
    rw [replaceEach_append_of_notMem htable hp hnew, occurrences_self_append hp,
      occurrences_self_append hp]
    exact Nat.succ_le_succ ih
  | char c text hrows hprefix ih =>
    rw [replaceEach_cons hrows, occurrences, if_neg hprefix, Nat.zero_add]
    exact ih.trans (occurrences_le_append p [c] _)

/-- **Replacing one more pattern is one more row**, if what was put in makes no new occurrence of it. -/
theorem replaceAll_replaceEach (hp : Braced p) (hnew : ∀ row ∈ table, row.1 ≠ p)
    {value : List Char} {text : List Char}
    (h : occurrences p (replaceEach table text) = occurrences p text) :
    replaceAll p value (replaceEach table text) = replaceEach (table ++ [(p, value)]) text := by
  have hle := occurrences_le_replaceEach htable hp hnew
  induction text using replaceEach_induction htable hp with
  | nil => simp [replaceEach, replaceAll]
  | row q new text hmem hfind ih =>
    have hq := (htable _ hmem).ne_nil
    rw [replaceEach_pattern_append hq hfind,
      occurrences_append_of_ne hp (htable _ hmem) (hnew _ hmem).symm] at h
    have hrest : occurrences p (replaceEach table text) = occurrences p text :=
      Nat.le_antisymm ((occurrences_le_append p new _).trans_eq h) (hle text)
    have hfind' : ((table ++ [(p, value)]).find? fun row => row.1.isPrefixOf (q ++ text)) =
        some (q, new) := by
      rw [List.find?_append, hfind, Option.some_or]
    rw [replaceEach_pattern_append hq hfind, replaceEach_pattern_append hq hfind',
      replaceAll_append value (h.trans hrest.symm), ih hrest]
  | other text ih =>
    rw [replaceEach_append_of_notMem htable hp hnew, occurrences_self_append hp,
      occurrences_self_append hp, Nat.add_right_cancel_iff] at h
    have hfind : ((table ++ [(p, value)]).find? fun row => row.1.isPrefixOf (p ++ text)) =
        some (p, value) := by
      have hnone : (table.find? fun row => row.1.isPrefixOf (p ++ text)) = none :=
        List.find?_eq_none.2 fun row hrow hprefix => hnew row hrow ((htable row hrow).eq_of_starts hp
          (List.isPrefixOf_iff_prefix.1 hprefix) (List.prefix_append p text))
      have hsome : p.isPrefixOf (p ++ text) = true :=
        List.isPrefixOf_iff_prefix.2 (List.prefix_append p text)
      rw [List.find?_append, hnone, Option.none_or, List.find?_singleton, if_pos hsome]
    rw [replaceEach_append_of_notMem htable hp hnew, replaceEach_pattern_append hp.ne_nil hfind,
      replaceAll_self_append hp.ne_nil, ih h]
  | char c text hrows hprefix ih =>
    have hcons : occurrences p (c :: text) = occurrences p text := by
      rw [occurrences, if_neg hprefix, Nat.zero_add]
    rw [replaceEach_cons hrows, hcons] at h
    have hrest : occurrences p (replaceEach table text) = occurrences p text :=
      Nat.le_antisymm ((occurrences_le_append p [c] _).trans_eq h) (hle text)
    have hrows' : ∀ row ∈ table ++ [(p, value)], ¬ row.1 <+: c :: text := by
      intro row hrow
      rcases List.mem_append.1 hrow with hrow | hrow
      · exact hrows row hrow
      · rw [List.mem_singleton.1 hrow]
        exact hprefix
    have hchar : replaceAll p value ([c] ++ replaceEach table text) =
        [c] ++ replaceAll p value (replaceEach table text) :=
      replaceAll_append value (h.trans hrest.symm)
    rw [replaceEach_cons hrows, replaceEach_cons hrows', ← ih hrest]
    exact hchar

end Table

theorem replaceEach_nil (text : List Char) : replaceEach [] text = text := by
  induction text with
  | nil => rw [replaceEach]
  | cons c text ih => rw [replaceEach_cons fun _ hrow => absurd hrow List.not_mem_nil, ih]

/-- Replacing one pattern is replacing by a table of one row. -/
theorem replaceAll_eq_replaceEach (hp : Braced p) (value text : List Char) :
    replaceAll p value text = replaceEach [(p, value)] text := by
  have h : occurrences p (replaceEach [] text) = occurrences p text := by
    rw [replaceEach_nil]
  have hstep : replaceAll p value (replaceEach [] text) = replaceEach ([] ++ [(p, value)]) text :=
    replaceAll_replaceEach (fun _ hrow => absurd hrow List.not_mem_nil) hp
      (fun _ hrow => absurd hrow List.not_mem_nil) h
  rwa [replaceEach_nil] at hstep

/-- A pattern that occurs still does after another one has been replaced. -/
theorem infix_replaceAll (hp : Braced p) (hq : Braced q) (hne : q ≠ p) {value : List Char}
    (h : p <:+: text) : p <:+: replaceAll q value text := by
  have htable : ∀ row ∈ [(q, value)], Braced row.1 := List.forall_mem_singleton.2 hq
  have hnew : ∀ row ∈ [(q, value)], row.1 ≠ p := List.forall_mem_singleton.2 hne
  rw [← occurrences_pos_iff hp.ne_nil] at h ⊢
  rw [replaceAll_eq_replaceEach hq]
  exact h.trans_le (occurrences_le_replaceEach htable hp hnew text)

end Catena.Text

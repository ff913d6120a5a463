import Mathlib.Order.Bounds.Basic
import Mathlib.Order.Nat
import Mathlib.Data.Nat.Find
import Catena.Library
import Catena.Proofs.Text.Substitution

/-!
# What `strings.sformat` puts in

The placeholders of a template are filled one number after the other, each in the text that the
numbers before it have left. That is what filling them all at once would give (`replaceEach`), as long
as no text put in makes a placeholder that is looked for later (`Undisturbed`). What holds without that
condition is that the template itself decides how many values are taken at least: the placeholders that
are in it stay there until their turn.
-/

namespace Catena.Library

open Text

/-! ## Placeholders -/

theorem braced_placeholder (i : Nat) : Braced (placeholder i) := by
  have hdigits : ∀ c ∈ Nat.toDigits 10 i, c.isDigit = true := fun c hc =>
    Nat.isDigit_of_mem_toDigits (by decide) (Nat.le_refl 10) hc
  refine ⟨Nat.toDigits 10 i, rfl, fun h => ?_, fun h => ?_⟩
  · exact absurd (hdigits _ h) (by decide)
  · exact absurd (hdigits _ h) (by decide)

theorem placeholder_injective : Function.Injective placeholder := by
  intro i j h
  have hdigits : Nat.toDigits 10 i = Nat.toDigits 10 j := by
    unfold placeholder at h
    exact List.append_cancel_right (List.cons.inj h).2
  rw [← Nat.ofDigitChars_ten_toDigits (n := i), hdigits, Nat.ofDigitChars_ten_toDigits]

/-- Placeholders with great numbers are longer than a text. -/
theorem exists_placeholder_missing (text : List Char) : ∃ i, ¬ placeholder i <:+: text := by
  refine ⟨10 ^ (text.length + 1), fun h => ?_⟩
  have hlong : text.length + 1 < (Nat.toDigits 10 (10 ^ (text.length + 1))).length :=
    Nat.lt_of_not_le fun hle => Nat.lt_irrefl _
      ((Nat.length_toDigits_le_iff (by decide) (Nat.succ_pos _)).1 hle)
  have hlength := h.length_le
  unfold placeholder at hlength
  simp only [List.length_append, List.length_cons, List.length_nil] at hlength
  omega

/-- A text lacks a placeholder, and there is a first one that it lacks. -/
theorem exists_isLeast_missing (text : List Char) :
    ∃ k, IsLeast {i | ¬ placeholder i <:+: text} k := by
  classical
  exact ⟨_, Nat.isLeast_find (exists_placeholder_missing text)⟩

theorem present_of_isLeast {text : List Char} {k : Nat}
    (hk : IsLeast {i | ¬ placeholder i <:+: text} k) : ∀ i < k, placeholder i <:+: text :=
  fun _ hi => by_contra fun hmissing => Nat.lt_irrefl k ((hk.2 hmissing).trans_lt hi)

/-! ## The table of a list of values -/

/-- The placeholders of the first numbers, each with the text of its value. -/
def insertions (values : List Value) : List (List Char × List Char) :=
  values.zipIdx.map fun (value, i) => (placeholder i, value.display.toList)

/-- No text that is put in makes a placeholder that comes up later: when the turn of a number comes,
its placeholder occurs as often as in the template. The last number is the one after those of the
values. -/
def Undisturbed (template : List Char) (values : List Value) : Prop :=
  ∀ i ≤ values.length,
    occurrences (placeholder i) (replaceEach (insertions (values.take i)) template) =
      occurrences (placeholder i) template

theorem insertions_concat (values : List Value) (value : Value) :
    insertions (values ++ [value]) =
      insertions values ++ [(placeholder values.length, value.display.toList)] := by
  unfold insertions
  rw [List.zipIdx_append, List.map_append, List.zipIdx_singleton, List.map_singleton, Nat.zero_add]

theorem exists_of_mem_insertions {values : List Value} {row : List Char × List Char}
    (h : row ∈ insertions values) : ∃ i < values.length, row.1 = placeholder i := by
  obtain ⟨⟨value, i⟩, hmem, rfl⟩ := List.mem_map.1 h
  exact ⟨i, (List.mem_zipIdx hmem).2.1.trans_eq (Nat.zero_add _), rfl⟩

theorem braced_of_mem_insertions {values : List Value} :
    ∀ row ∈ insertions values, Braced row.1 := by
  intro row h
  obtain ⟨i, -, hrow⟩ := exists_of_mem_insertions h
  rw [hrow]
  exact braced_placeholder i

theorem ne_of_mem_insertions {values : List Value} :
    ∀ row ∈ insertions values, row.1 ≠ placeholder values.length := by
  intro row h
  obtain ⟨i, hi, hrow⟩ := exists_of_mem_insertions h
  rw [hrow]
  exact fun hsame => Nat.ne_of_lt hi (placeholder_injective hsame)

/-! ## Filling -/

/-- One step: the placeholder of the first value is there. -/
theorem fill_cons {index : Nat} {template : List Char} (h : placeholder index <:+: template)
    (value : Value) (values : List Value) :
    fill index template (value :: values) =
      fill (index + 1) (replaceAll (placeholder index) value.display.toList template) values := by
  rw [fill, if_pos (occursIn_eq_true_iff.2 h)]

/-- Filling ends at the first placeholder that is not there. -/
theorem fill_of_missing {index : Nat} {template : List Char}
    (h : ¬ placeholder index <:+: template) (values : List Value) :
    fill index template values = some (template, values) := by
  have hmissing : ¬ occursIn (placeholder index) template = true := mt occursIn_eq_true_iff.1 h
  cases values <;> rw [fill, if_neg hmissing]

/-- Undisturbed by what is put in, filling one number after the other fills all at once. -/
theorem fill_replaceEach {template : List Char} (taken : List Value) {rest : List Value} {n : Nat}
    (hn : n ≤ rest.length)
    (hpresent : ∀ i < taken.length + n, placeholder i <:+: template)
    (hmissing : ¬ placeholder (taken.length + n) <:+: template)
    (hundisturbed : Undisturbed template (taken ++ rest.take n)) :
    fill taken.length (replaceEach (insertions taken) template) rest =
      some (replaceEach (insertions (taken ++ rest.take n)) template, rest.drop n) := by
  have hcount : occurrences (placeholder taken.length)
      (replaceEach (insertions taken) template) =
        occurrences (placeholder taken.length) template := by
    have h := hundisturbed taken.length (List.prefix_append _ _).length_le
    rwa [List.take_left] at h
  have hbraced := braced_placeholder taken.length
  induction n generalizing taken rest with
  | zero =>
    have hmissing' :
        ¬ placeholder taken.length <:+: replaceEach (insertions taken) template := by
      rwa [← occurrences_eq_zero_iff hbraced.ne_nil, hcount,
        occurrences_eq_zero_iff hbraced.ne_nil]
    rw [fill_of_missing hmissing', List.take_zero, List.append_nil, List.drop_zero]
  | succ n ih =>
    cases rest with
    | nil => cases hn
    | cons value rest =>
      have hpresent' :
          placeholder taken.length <:+: replaceEach (insertions taken) template := by
        rw [← occurrences_pos_iff hbraced.ne_nil, hcount, occurrences_pos_iff hbraced.ne_nil]
        exact hpresent _ (Nat.lt_add_of_pos_right (Nat.succ_pos n))
      have hlength : (taken ++ [value]).length = taken.length + 1 := List.length_append
      have htotal : (taken ++ [value]).length + n = taken.length + (n + 1) := by omega
      have hvalues : taken ++ (value :: rest).take (n + 1) = taken ++ [value] ++ rest.take n := by
        rw [List.take_succ_cons, List.append_assoc, List.singleton_append]
      rw [hvalues] at hundisturbed ⊢
      rw [fill_cons hpresent', replaceAll_replaceEach braced_of_mem_insertions hbraced
        ne_of_mem_insertions hcount, ← insertions_concat, ← hlength, List.drop_succ_cons]
      refine ih (taken ++ [value]) (Nat.le_of_succ_le_succ hn) (htotal ▸ hpresent) (htotal ▸ hmissing)
        hundisturbed ?_ (braced_placeholder _)
      have hle : (taken ++ [value]).length ≤ (taken ++ [value] ++ rest.take n).length :=
        (List.prefix_append _ _).length_le
      have h := hundisturbed (taken ++ [value]).length hle
      rwa [List.take_left] at h

/-- From the start: the placeholders up to the first missing one are filled all at once. -/
theorem fill_zero {template : List Char} {values : List Value} {k : Nat}
    (hk : IsLeast {i | ¬ placeholder i <:+: template} k) (henough : k ≤ values.length)
    (hundisturbed : Undisturbed template (values.take k)) :
    fill 0 template values =
      some (replaceEach (insertions (values.take k)) template, values.drop k) := by
  have hpresent : ∀ i < k, placeholder i <:+: template := present_of_isLeast hk
  have hmissing : ¬ placeholder k <:+: template := hk.1
  rw [← Nat.zero_add k] at hpresent hmissing
  have hfill := fill_replaceEach [] henough hpresent hmissing hundisturbed
  rwa [show insertions [] = [] from rfl, replaceEach_nil] at hfill

/-- The placeholders of a template are still there when their turn comes, so at least that many values
are taken. -/
theorem le_of_fill {index k : Nat} {template text : List Char} {values rest : List Value}
    (hpresent : ∀ i, index ≤ i → i < index + k → placeholder i <:+: template)
    (h : fill index template values = some (text, rest)) :
    ∃ n, k ≤ n ∧ n ≤ values.length ∧ rest = values.drop n := by
  induction values generalizing index k template with
  | nil =>
    cases k with
    | zero =>
      refine ⟨0, Nat.le_refl 0, Nat.le_refl 0, ?_⟩
      rw [fill] at h
      split at h <;> cases h
      rfl
    | succ k =>
      have hthere := hpresent index (Nat.le_refl _) (Nat.lt_add_of_pos_right (Nat.succ_pos k))
      rw [fill, if_pos (occursIn_eq_true_iff.2 hthere)] at h
      cases h
  | cons value values ih =>
    by_cases hthere : placeholder index <:+: template
    · rw [fill_cons hthere] at h
      have hlater : ∀ i, index + 1 ≤ i → i < index + 1 + (k - 1) → placeholder i <:+:
          replaceAll (placeholder index) value.display.toList template := by
        intro i hle hlt
        have hne : placeholder index ≠ placeholder i :=
          fun hsame => Nat.ne_of_lt hle (placeholder_injective hsame)
        exact infix_replaceAll (braced_placeholder i) (braced_placeholder index) hne
          (hpresent i (Nat.le_of_succ_le hle) (by omega))
      obtain ⟨n, hk, hn, rfl⟩ := ih hlater h
      exact ⟨n + 1, by omega, Nat.succ_le_succ hn, List.drop_succ_cons.symm⟩
    · obtain rfl : k = 0 := by
        by_contra hk
        exact hthere (hpresent index (Nat.le_refl _) (by omega))
      rw [fill_of_missing hthere] at h
      cases h
      exact ⟨0, Nat.le_refl 0, Nat.zero_le _, rfl⟩

/-! ## The function -/

/-- The diagnostic of a template that asks for more values than there are. -/
def tooFew : Diagnostic :=
  Diagnostic.ofRuntime .formatUnderflow

/-- What the function does is what filling gives. -/
theorem run_format {t : String} {values : List Value} {s : Interpreter}
    (hitems : s.stack.items = .string t :: values) :
    format.run s =
      match fill 0 t.toList values with
      | some (text, rest) =>
        .done () { s with stack := { items := .string (String.ofList text) :: rest } }
      | none => .stopped (.failed tooFew) { s with stack := {} } := by
  have htop : formatTop s.stack =
      match fill 0 t.toList values with
      | some (text, rest) => (.ok (.string (String.ofList text)), { items := rest })
      | none => (.error .formatUnderflow, {}) := by
    unfold formatTop
    rw [hitems]
    rfl
  unfold format Eval.onStack
  rw [Action.run_bind]
  dsimp only
  rw [htop]
  cases fill 0 t.toList values <;> rfl

/-- **What `strings.sformat` puts in.** Let `k` be the first number whose placeholder is not in the
template. With fewer than `k` values below the template the function fails. With at least `k`, if none
of the texts put in makes a new placeholder, it takes exactly `k` values and leaves the template with
all placeholders filled at once. If one does, it takes at least `k` values, or fails for want of
more. -/
theorem format_substitutes {t : String} {values : List Value} {s : Interpreter}
    (hitems : s.stack.items = .string t :: values) :
    ∃ k, IsLeast {i | ¬ placeholder i <:+: t.toList} k ∧
      tooFew.message = "Format string error: stack is empty." ∧
      (values.length < k →
        format.run s = .stopped (.failed tooFew) { s with stack := {} }) ∧
      (k ≤ values.length → Undisturbed t.toList (values.take k) →
        ∃ text, text.toList = replaceEach (insertions (values.take k)) t.toList ∧
          format.run s =
            .done () { s with stack := { items := .string text :: values.drop k } }) ∧
      (format.run s = .stopped (.failed tooFew) { s with stack := {} } ∨
        ∃ n text, k ≤ n ∧ n ≤ values.length ∧
          format.run s =
            .done () { s with stack := { items := .string text :: values.drop n } }) := by
  obtain ⟨k, hk⟩ := exists_isLeast_missing t.toList
  have hends : format.run s = .stopped (.failed tooFew) { s with stack := {} } ∨
      ∃ n text, k ≤ n ∧ n ≤ values.length ∧
        format.run s = .done () { s with stack := { items := .string text :: values.drop n } } := by
    rw [run_format hitems]
    cases hfill : fill 0 t.toList values with
    | none => exact .inl rfl
    | some result =>
      obtain ⟨n, hkn, hn, hrest⟩ := le_of_fill
        (fun i _ hi => present_of_isLeast hk i (hi.trans_eq (Nat.zero_add k))) hfill
      refine .inr ⟨n, String.ofList result.1, hkn, hn, ?_⟩
      rw [← hrest]
  refine ⟨k, hk, rfl, fun hfew => ?_, fun henough hundisturbed => ?_, hends⟩
  · rcases hends with hfailed | ⟨n, _, hkn, hn, -⟩
    · exact hfailed
    · omega
  · refine ⟨_, String.toList_ofList, ?_⟩
    rw [run_format hitems, fill_zero hk henough hundisturbed]

/-- A template with two placeholders takes two of three values. -/
theorem format_substitutes_greeting :
    format.run { stack := ⟨[.string "\x7b0\x7d is \x7b1\x7d", .string "Fred", .string "50",
        .string "x"]⟩ } =
      .done () { stack := ⟨[.string "Fred is 50", .string "x"]⟩ } := by
  have hone : placeholder 1 = ['\x7b', '1', '\x7d'] := rfl
  have htwo : placeholder 2 = ['\x7b', '2', '\x7d'] := rfl
  have hfirst : insertions [.string "Fred"] = [(['\x7b', '0', '\x7d'], "Fred".toList)] := rfl
  have hboth : insertions [.string "Fred", .string "50"] =
      [(['\x7b', '0', '\x7d'], "Fred".toList), (['\x7b', '1', '\x7d'], "50".toList)] := rfl
  have hundisturbed :
      Undisturbed "\x7b0\x7d is \x7b1\x7d".toList [.string "Fred", .string "50"] := by
    intro i hi
    rcases i with _ | _ | _ | i
    · exact congrArg _ (replaceEach_nil _)
    · simp [hone, hfirst, replaceEach, occurrences]
    · simp [htwo, hboth, replaceEach, occurrences]
    · exact absurd hi (by simp)
  obtain ⟨k, hk, -, -, hrun, -⟩ := format_substitutes
    (s := { stack := ⟨[.string "\x7b0\x7d is \x7b1\x7d", .string "Fred", .string "50",
      .string "x"]⟩ }) rfl
  obtain rfl : k = 2 := by
    refine hk.unique ⟨by decide, fun i hi => ?_⟩
    rcases i with _ | _ | i
    · exact absurd (by decide) hi
    · exact absurd (by decide) hi
    · omega
  obtain ⟨text, htext, hdone⟩ := hrun (by decide) hundisturbed
  obtain rfl : text = "Fred is 50" := by
    rw [← String.toList_inj, htext]
    simp [hboth, replaceEach]
  exact hdone

/-- A text that is put in is searched for later placeholders: one value is asked for, two are taken. -/
theorem format_rescans :
    let s : Interpreter :=
      { stack := ⟨[.string "\x7b0\x7d", .string "\x7b1\x7d", .string "x"]⟩ }
    IsLeast {i | ¬ placeholder i <:+: "\x7b0\x7d".toList} 1 ∧
      replaceEach (insertions [.string "\x7b1\x7d"]) "\x7b0\x7d".toList = "\x7b1\x7d".toList ∧
      format.run s = .done () { stack := ⟨[.string "x"]⟩ } ∧
      format.run s ≠ .done () { stack := ⟨[.string "\x7b1\x7d", .string "x"]⟩ } := by
  have hrow : insertions [.string "\x7b1\x7d"] =
      [(['\x7b', '0', '\x7d'], "\x7b1\x7d".toList)] := rfl
  have hself : ∀ i new, replaceAll (placeholder i) new (placeholder i) = new := by
    intro i new
    have h := replaceAll_self_append (braced_placeholder i).ne_nil new []
    rwa [List.append_nil, replaceAll, List.append_nil] at h
  have hfill : fill 0 "\x7b0\x7d".toList [.string "\x7b1\x7d", .string "x"] =
      some ("x".toList, []) := by
    have htemplate : "\x7b0\x7d".toList = placeholder 0 := rfl
    rw [htemplate, fill_cons (List.infix_refl _), hself]
    exact (fill_cons (List.infix_refl (placeholder 1)) _ _).trans
      (by rw [hself]; exact fill_of_missing (by decide) [])
  have hrun : format.run
      { stack := ⟨[.string "\x7b0\x7d", .string "\x7b1\x7d", .string "x"]⟩ } =
        .done () { stack := ⟨[.string "x"]⟩ } := by
    rw [run_format rfl, hfill]
    rfl
  refine ⟨⟨by decide, fun i hi => ?_⟩, ?_, hrun, ?_⟩
  · cases i with
    | zero => exact absurd (by decide) hi
    | succ i => omega
  · simp [hrow, replaceEach]
  · rw [hrun]
    intro h
    have hlength := congrArg (fun outcome => outcome.state.stack.items.length) h
    exact absurd hlength (by decide)

end Catena.Library

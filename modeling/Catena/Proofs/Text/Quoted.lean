import Catena.Proofs.Source.Lexeme
import Catena.Text.Quoted

/-!
# Quoted text is unambiguous

Where a character between the quotes ends shows in how it is written: an escape starts with a backslash,
its second character says which it is, and a number ends with its brace. So what a text starts with tells
the character (`encodeChar_append`), and the double quote that closes the text is told from all of them.
Hence a quoted text tells its content and its end, whatever follows (`encode_append`).
-/

namespace Catena.Text.Quoted

open Catena.Source

/-! ## Numbers -/

theorem digitChar_injOn : ∀ d < 16, ∀ e < 16, Nat.digitChar d = Nat.digitChar e → d = e := by
  decide

theorem toDigits_sixteen (n : Nat) : Nat.toDigits 16 n =
    if n < 16 then [n.digitChar] else Nat.toDigits 16 (n / 16) ++ [(n % 16).digitChar] :=
  Nat.toDigits_eq_if (by decide)

theorem brace_notMem_toDigits (n : Nat) : '\x7d' ∉ Nat.toDigits 16 n := by
  induction n using Nat.strongRecOn with
  | ind n ih =>
    rw [toDigits_sixteen]
    split
    · simp
    · simpa using ih (n / 16) (by omega)

theorem toDigits_sixteen_injective : Function.Injective (Nat.toDigits 16) := by
  intro n
  induction n using Nat.strongRecOn with
  | ind n ih =>
    intro m h
    rw [toDigits_sixteen, toDigits_sixteen m] at h
    split at h <;> split at h
    · next hn hm => exact digitChar_injOn n hn m hm (List.cons.inj h).1
    · -- one digit is not two
      exact absurd (List.append_eq_singleton_iff.1 h.symm) (by simp [Nat.toDigits_ne_nil])
    · exact absurd (List.append_eq_singleton_iff.1 h) (by simp [Nat.toDigits_ne_nil])
    · obtain ⟨hquotients, hdigits⟩ := List.append_inj' h rfl
      have hquotient := ih (n / 16) (by omega) hquotients
      have hdigit := digitChar_injOn (n % 16) (Nat.mod_lt n (by decide)) (m % 16)
        (Nat.mod_lt m (by decide)) (List.cons.inj hdigits).1
      omega

/-! ## Characters -/

/-- The character that a short escape stands for, by the second character of the escape. -/
def escaped? : Char → Option Char
  | 't' => some '\t'
  | 'n' => some '\n'
  | 'r' => some '\r'
  | '"' => some '"'
  | '\\' => some '\\'
  | '0' => some '\x00'
  | _ => none

/-- How a character is written: as itself, with a short escape, or by its number. -/
inductive Written (c : Char) : List Char → Prop
  | plain (escape : c ≠ '\\') (quote : c ≠ '"') : Written c [c]
  | short {x : Char} (stands : escaped? x = some c) : Written c ['\\', x]
  | number : Written c (numbered c)

theorem written_encodeChar (c : Char) : Written c (encodeChar c) := by
  unfold encodeChar
  split
  · next h => exact .short (by rw [h]; rfl)
  split
  · next h => exact .short (by rw [h]; rfl)
  split
  · next h => exact .short (by rw [h]; rfl)
  split
  · next h => exact .short (by rw [h]; rfl)
  split
  · next h => exact .short (by rw [h]; rfl)
  split
  · next h => exact .short (congrArg some (Char.toNat_inj.1 h.symm))
  split
  · exact .number
  · next hquote hescape _ _ => exact .plain hescape hquote

theorem Written.unique {c d : Char} {cs ds rest more : List Char} (hc : Written c cs)
    (hd : Written d ds) (h : cs ++ rest = ds ++ more) : c = d ∧ rest = more := by
  cases hc with
  | plain hescape =>
    cases hd with
    | plain => exact List.cons.inj h
    | short => exact absurd (List.cons.inj h).1 hescape
    | number => exact absurd (List.cons.inj h).1 hescape
  | short stands =>
    cases hd with
    | plain hescape => exact absurd (List.cons.inj h).1.symm hescape
    | short stands' =>
      obtain ⟨rfl, hrest⟩ := List.cons.inj (List.cons.inj h).2
      exact ⟨Option.some.inj (stands.symm.trans stands'), hrest⟩
    | number =>
      obtain ⟨rfl, -⟩ := List.cons.inj (List.cons.inj h).2
      cases stands
  | number =>
    cases hd with
    | plain hescape => exact absurd (List.cons.inj h).1.symm hescape
    | short stands =>
      obtain ⟨rfl, -⟩ := List.cons.inj (List.cons.inj h).2
      cases stands
    | number =>
      simp only [numbered, List.cons_append, List.append_assoc, List.nil_append, List.cons.injEq,
        true_and] at h
      obtain ⟨hdigits, hrest⟩ :=
        eq_of_mark '\x7d' (brace_notMem_toDigits _) (brace_notMem_toDigits _) h
      exact ⟨Char.toNat_inj.1 (toDigits_sixteen_injective hdigits), hrest⟩

/-- **What a text starts with tells the character that is written there.** -/
theorem encodeChar_append {c d : Char} {rest more : List Char}
    (h : encodeChar c ++ rest = encodeChar d ++ more) : c = d ∧ rest = more :=
  (written_encodeChar c).unique (written_encodeChar d) h

theorem Written.head_ne_quote {c : Char} {cs rest more : List Char} (hc : Written c cs) :
    cs ++ rest ≠ '"' :: more := by
  intro h
  cases hc with
  | plain _ hquote => exact hquote (List.cons.inj h).1
  | short => exact absurd (List.cons.inj h).1 (by decide)
  | number => exact absurd (List.cons.inj h).1 (by decide)

/-! ## Texts -/

theorem encodeChars_append {cs ds rest more : List Char}
    (h : cs.flatMap encodeChar ++ '"' :: rest = ds.flatMap encodeChar ++ '"' :: more) :
    cs = ds ∧ rest = more := by
  induction cs generalizing ds with
  | nil =>
    cases ds with
    | nil => exact ⟨rfl, (List.cons.inj h).2⟩
    | cons d ds =>
      rw [List.flatMap_cons, List.append_assoc] at h
      exact absurd h.symm (written_encodeChar d).head_ne_quote
  | cons c cs ih =>
    cases ds with
    | nil =>
      rw [List.flatMap_cons, List.append_assoc] at h
      exact absurd h (written_encodeChar c).head_ne_quote
    | cons d ds =>
      rw [List.flatMap_cons, List.flatMap_cons, List.append_assoc, List.append_assoc] at h
      obtain ⟨rfl, hrest⟩ := encodeChar_append h
      obtain ⟨rfl, hends⟩ := ih hrest
      exact ⟨rfl, hends⟩

/-- **A quoted text tells its content and where it ends.** -/
theorem encode_append {s t : String} {rest more : List Char}
    (h : (encode s).toList ++ rest = (encode t).toList ++ more) : s = t ∧ rest = more := by
  simp only [encode, String.toList_ofList, List.cons_append, List.append_assoc, List.nil_append] at h
  obtain ⟨hcontent, hrest⟩ := encodeChars_append (List.cons.inj h).2
  exact ⟨String.toList_inj.1 hcontent, hrest⟩

end Catena.Text.Quoted

import Catena.Text.Grapheme

/-!
# Erasing while typing

A typed line may hold backspaces, and each takes back what was typed before it: one grapheme
cluster, or nothing if no cluster is left. What is remembered of a cluster is its size in UTF-8, in
one byte, so that of a cluster of 256 bytes or more only the remainder is taken back. Where that
would cut a character in two the line has no meaning.

Main statement: a line without backspaces stays as it is (`erase_eq_some_self`).
-/

namespace Catena.Text

/-- The character that takes back a cluster. -/
def backspace : Char := '\x08'

/-- The size of a text in UTF-8. -/
def byteSize (cs : List Char) : Nat :=
  cs.foldr (fun c size => c.utf8Size + size) 0

/-- The size of a cluster, as far as one byte can hold it. -/
def rememberedSize (cluster : List Char) : Nat :=
  byteSize cluster % 256

/-- Text, read backwards, without its last `size` bytes; `none` if they do not begin where a
character begins. -/
def dropBytes (size : Nat) : List Char → Option (List Char)
  | [] => if size = 0 then some [] else none
  | c :: before =>
    if size = 0 then some (c :: before)
    else if c.utf8Size ≤ size then dropBytes (size - c.utf8Size) before
    else none

/-- A line that is being typed. -/
structure Draft where
  /-- The text, read backwards. -/
  text : List Char := []
  /-- The remembered sizes of the clusters that can be taken back, the last one first. -/
  sizes : List Nat := []

namespace Draft

/-- Takes back the last cluster. -/
def takeBack (d : Draft) : Option Draft :=
  match d.sizes with
  | [] => some d
  | size :: sizes => (dropBytes size d.text).map fun text => { text, sizes }

/-- Adds a cluster at the end. -/
def append (d : Draft) (cluster : List Char) : Draft :=
  { text := cluster.reverse ++ d.text, sizes := rememberedSize cluster :: d.sizes }

/-- Types a cluster. -/
def type (d : Draft) (cluster : List Char) : Option Draft :=
  if cluster = [backspace] then d.takeBack else some (d.append cluster)

end Draft

/-- The text that a typed line leaves. -/
def erase (line : String) : Option String :=
  ((clusters line.toList).foldlM Draft.type {}).map fun d => String.ofList d.text.reverse

theorem foldlM_type_text (d : Draft) (parts : List (List Char))
    (h : ∀ part ∈ parts, part ≠ [backspace]) :
    (parts.foldlM Draft.type d).map (·.text.reverse) = some (d.text.reverse ++ parts.flatten) := by
  induction parts generalizing d with
  | nil => simp
  | cons part parts ih =>
    have hpart : d.type part = some (d.append part) := if_neg (h part (List.mem_cons_self ..))
    have hrest := ih (d.append part) fun p hp => h p (List.mem_cons_of_mem _ hp)
    rw [List.foldlM_cons, hpart]
    simpa [Draft.append] using hrest

/-- A line without backspaces stays as it is. -/
theorem erase_eq_some_self (line : String) (h : backspace ∉ line.toList) :
    erase line = some line := by
  have htype := foldlM_type_text {} (clusters line.toList) fun part hp hb =>
    h (mem_of_mem_clusters hp (by simp [hb]))
  have hcomp : erase line
      = (((clusters line.toList).foldlM Draft.type {}).map (·.text.reverse)).map String.ofList := by
    simp [erase, Option.map_map, Function.comp_def]
  rw [hcomp, htype]
  simp [flatten_clusters]

end Catena.Text

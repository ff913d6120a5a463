/-!
# Standard input

The bytes on standard input are fetched in chunks, and two readers want lines of them: the dialogue,
which asks for code, and native functions, which ask for data. Each keeps what it has fetched and
not yet used. A native function that finds no whole line in its own bytes takes over all that the
dialogue has fetched, and only then fetches more; the dialogue never sees the bytes of native
functions.

Main statements: reading a line drops no byte and changes no order, seen from the reader
(`dialogueLine_append`, `nativeLine_append`), and the dialogue gets an empty line only when nothing
is left for it (`dialogueLine_eq_nil_iff`).
-/

namespace Catena

/-- The byte that ends a line. -/
def lineFeed : UInt8 := 10

/-- Splits bytes after their first line feed. -/
def splitLine (bytes : List UInt8) : List UInt8 × List UInt8 :=
  match bytes.dropWhile (· != lineFeed) with
  | [] => (bytes, [])
  | feed :: rest => (bytes.takeWhile (· != lineFeed) ++ [feed], rest)

theorem splitLine_append (bytes : List UInt8) :
    (splitLine bytes).1 ++ (splitLine bytes).2 = bytes := by
  have h := List.takeWhile_append_dropWhile (p := (· != lineFeed)) (l := bytes)
  unfold splitLine
  split
  · simp
  · next feed rest hd => rw [hd] at h; simpa using h

theorem splitLine_fst_eq_nil_iff (bytes : List UInt8) : (splitLine bytes).1 = [] ↔ bytes = [] := by
  unfold splitLine
  split <;> simp_all
  rintro rfl
  simp_all

/-- How many bytes are fetched at a time. -/
def chunkSize : Nat := 8192

/-- How many bytes are fetched beyond the first `used` ones: what is left of the last chunk. -/
def surplus (used : Nat) : Nat :=
  (chunkSize - used % chunkSize) % chunkSize

/-- The bytes on standard input, by who has them. -/
structure Input where
  /-- What native functions have fetched and not used. -/
  taken : List UInt8 := []
  /-- What the dialogue has fetched and not used. -/
  fetched : List UInt8 := []
  /-- What nobody has fetched. -/
  pending : List UInt8 := []

namespace Input

/-- Bytes of which none has been fetched. -/
def ofBytes (bytes : List UInt8) : Input :=
  { pending := bytes }

/-- What a reader finds: a line, the bytes that it has fetched beyond the line, and the bytes that
nobody has fetched. -/
structure Draw where
  line : List UInt8
  ahead : List UInt8
  pending : List UInt8

/-- The next line for a reader that holds the bytes `held`. -/
def draw (held pending : List UInt8) : Draw :=
  if held.contains lineFeed then
    let (line, ahead) := splitLine held
    { line, ahead, pending }
  else
    let (line, rest) := splitLine pending
    let more := surplus line.length
    { line := held ++ line, ahead := rest.take more, pending := rest.drop more }

/-- The next line of the dialogue; at the end of the input it is empty. -/
def dialogueLine (i : Input) : List UInt8 × Input :=
  let d := draw i.fetched i.pending
  (d.line, { i with fetched := d.ahead, pending := d.pending })

/-- The next line for a native function; at the end of the input it is empty. -/
def nativeLine (i : Input) : List UInt8 × Input :=
  if i.taken.contains lineFeed then
    let (line, taken) := splitLine i.taken
    (line, { i with taken })
  else
    let d := draw (i.taken ++ i.fetched) i.pending
    (d.line, { taken := d.ahead, fetched := [], pending := d.pending })

/-- The bytes that native functions can still come to read, in order. -/
def forNatives (i : Input) : List UInt8 :=
  i.taken ++ i.fetched ++ i.pending

/-- The bytes that the dialogue can still come to read, in order. -/
def forDialogue (i : Input) : List UInt8 :=
  i.fetched ++ i.pending

theorem draw_append (held pending : List UInt8) :
    (draw held pending).line ++ (draw held pending).ahead ++ (draw held pending).pending
      = held ++ pending := by
  have hheld := splitLine_append held
  have hpending := splitLine_append pending
  unfold draw
  split
  · simp [hheld]
  · simp [hpending]

theorem draw_line_eq_nil_iff (held pending : List UInt8) :
    (draw held pending).line = [] ↔ held ++ pending = [] := by
  have hheld := splitLine_fst_eq_nil_iff held
  have hpending := splitLine_fst_eq_nil_iff pending
  unfold draw
  split
  · next h =>
    have : held ≠ [] := by rintro rfl; simp at h
    simp [hheld, this]
  · simp [hpending]

/-- The dialogue reads its bytes in order. -/
theorem dialogueLine_append (i : Input) :
    i.dialogueLine.1 ++ i.dialogueLine.2.forDialogue = i.forDialogue := by
  simpa [dialogueLine, forDialogue] using draw_append i.fetched i.pending

/-- The dialogue gets an empty line only at the end of its bytes. -/
theorem dialogueLine_eq_nil_iff (i : Input) : i.dialogueLine.1 = [] ↔ i.forDialogue = [] :=
  draw_line_eq_nil_iff i.fetched i.pending

/-- Native functions read their bytes in order. -/
theorem nativeLine_append (i : Input) :
    i.nativeLine.1 ++ i.nativeLine.2.forNatives = i.forNatives := by
  have htaken := splitLine_append i.taken
  have hdraw := draw_append (i.taken ++ i.fetched) i.pending
  unfold nativeLine
  split
  · simp only [forNatives, ← List.append_assoc, htaken]
  · simpa [forNatives] using hdraw

end Input

end Catena

import Catena.Source.Scan
import Catena.Tree.Phrase

/-!
# From tokens to program trees

Only two phrases nest: sequences and function bodies. Reading keeps the blocks that are still open,
innermost first, with the nodes read before each of them; a closing brace turns the innermost block
into a node of the block around it. Every step takes at least one token, so reading ends.
-/

namespace Catena.Tree

/-- What opens a block. -/
inductive Opening
  | sequence (token : Token)
  | function (token : Token) (signature : Signature)

/-- The node of a block with its body. -/
def Opening.close : Opening → List (Node Unit) → Node Unit
  | sequence token, body => .sequence ⟨(), token⟩ () body
  | function token signature, body => .definition ⟨(), token⟩ signature body

/-- The error of a block that is not closed before the text ends. -/
def Opening.unterminated : Opening → ParseError
  | sequence _ => .unterminatedSequence
  | function _ _ => .unterminatedBody

/-- What one step of reading finds: a whole node, or the opening of a block. -/
inductive Item
  | leaf (node : Node Unit)
  | opens (opening : Opening)

/-- Reads a function head as the opening of its body. -/
def functionItem (finish : Position) (isPublic : Bool) (ts : List Token) :
    Except Refusal (Item × List Token) := do
  let ((token, signature), rest) ← functionHead finish isPublic ts
  return (.opens (.function token signature), rest)

/-- Takes a node as an item. -/
def leafItem (reading : Except Refusal (Node Unit × List Token)) :
    Except Refusal (Item × List Token) := do
  let (node, rest) ← reading
  return (.leaf node, rest)

/-- Reads what follows the word that makes a definition public. -/
def publicItem (finish : Position) (t : Token) (ts : List Token) :
    Except Refusal (Item × List Token) :=
  if nextIs (·.isKeyword .defWord) ts then functionItem finish true ts.tail
  else if nextIs (·.isKeyword .letWord) ts then leafItem (letBinding finish true ts.tail)
  else unexpected t

/-- Reads the item that starts with the symbol `s`. -/
def symbolItem (finish : Position) (t : Token) (s : Symbol) (ts : List Token) :
    Except Refusal (Item × List Token) :=
  if s = .leftBrace then .ok (.opens (.sequence t), ts)
  else if s = .leftBracket then leafItem (array finish t ts)
  else match ArithmeticOp.ofSymbol? s, ComparisonOp.ofSymbol? s, Condition.ofSymbol? s with
    | some op, _, _ => .ok (.leaf (.arithmetic ⟨(), t⟩ op), ts)
    | none, some op, _ => .ok (.leaf (.comparison ⟨(), t⟩ op), ts)
    | none, none, some form => .ok (.leaf (.condition ⟨(), t⟩ form), ts)
    | none, none, none => unexpected t

/-- Reads the item that starts with the token `t`. -/
def item (finish : Position) (t : Token) (ts : List Token) : Except Refusal (Item × List Token) :=
  match t.kind with
  | .keyword .defWord => functionItem finish false ts
  | .keyword .letWord => leafItem (letBinding finish false ts)
  | .keyword .publicWord => publicItem finish t ts
  | .keyword .importWord => leafItem (importRequest finish t ts)
  | .literal value => .ok (.leaf (.literal ⟨(), t⟩ value), ts)
  | .identifier => leafItem (name finish t ts)
  | .symbol s => symbolItem finish t s ts
  | _ => unexpected t

theorem functionItem_length {finish : Position} {isPublic : Bool} {ts : List Token}
    {r : Item × List Token} (h : functionItem finish isPublic ts = .ok r) :
    r.2.length ≤ ts.length := by
  obtain ⟨⟨⟨token, signature⟩, rest⟩, hhead, h⟩ := bind_ok h
  cases h
  exact functionHead_length hhead

theorem leafItem_ok {reading : Except Refusal (Node Unit × List Token)} {r : Item × List Token}
    (h : leafItem reading = .ok r) : ∃ node, reading = .ok (node, r.2) ∧ r.1 = .leaf node := by
  obtain ⟨⟨node, rest⟩, hnode, h⟩ := bind_ok h
  cases h
  exact ⟨node, hnode, rfl⟩

theorem publicItem_length {finish : Position} {t : Token} {ts : List Token}
    {r : Item × List Token} (h : publicItem finish t ts = .ok r) : r.2.length ≤ ts.length := by
  unfold publicItem at h
  have tail : ts.tail.length ≤ ts.length := by simp
  split at h
  · exact Nat.le_trans (functionItem_length h) tail
  · split at h
    · obtain ⟨node, hnode, _⟩ := leafItem_ok h
      exact Nat.le_trans (letBinding_length hnode) tail
    · simp [unexpected] at h

theorem symbolItem_length {finish : Position} {t : Token} {s : Symbol} {ts : List Token}
    {r : Item × List Token} (h : symbolItem finish t s ts = .ok r) : r.2.length ≤ ts.length := by
  unfold symbolItem at h
  split at h
  · cases h; exact Nat.le_refl _
  split at h
  · obtain ⟨node, hnode, _⟩ := leafItem_ok h
    exact array_length hnode
  split at h
  · cases h; exact Nat.le_refl _
  · cases h; exact Nat.le_refl _
  · cases h; exact Nat.le_refl _
  · simp [unexpected] at h

/-- An item leaves no more tokens than followed its first. -/
theorem item_length {finish : Position} {t : Token} {ts : List Token} {r : Item × List Token}
    (h : item finish t ts = .ok r) : r.2.length ≤ ts.length := by
  unfold item at h
  split at h
  · exact functionItem_length h
  · obtain ⟨node, hnode, _⟩ := leafItem_ok h
    exact letBinding_length hnode
  · exact publicItem_length h
  · obtain ⟨node, hnode, _⟩ := leafItem_ok h
    exact importRequest_length hnode
  · cases h; exact Nat.le_refl _
  · obtain ⟨node, hnode, _⟩ := leafItem_ok h
    exact name_length hnode
  · exact symbolItem_length h
  · simp [unexpected] at h

/-- A block that is still open, with the nodes read before it, last first. -/
structure Frame where
  opening : Opening
  before : List (Node Unit)

/-- Reads nodes to the end of the text. `frames` are the open blocks, innermost first, and `done`
are the nodes read so far in the innermost, last first. -/
def readNodes (finish : Position) (frames : List Frame) (done : List (Node Unit)) :
    List Token → Except Refusal (List (Node Unit))
  | [] =>
    match frames with
    | [] => .ok done.reverse
    | frame :: _ => .error ⟨frame.opening.unterminated, finish⟩
  | t :: rest =>
    match frames, t.kind.isSymbol .rightBrace with
    | frame :: outer, true =>
      readNodes finish outer (frame.opening.close done.reverse :: frame.before) rest
    | frames, _ =>
      match _read : item finish t rest with
      | .error refusal => .error refusal
      | .ok (.leaf node, after) => readNodes finish frames (node :: done) after
      | .ok (.opens opening, after) => readNodes finish (⟨opening, done⟩ :: frames) [] after
termination_by ts => ts.length
decreasing_by
  · simp
  · have := item_length _read; simp only [List.length_cons] at this ⊢; omega
  · have := item_length _read; simp only [List.length_cons] at this ⊢; omega

/-- How many nodes are made when a text is read to its end, or up to what cannot be read. `depth`
blocks are open, and `made` nodes have been made before. -/
def nodesMade (finish : Position) (depth made : Nat) : List Token → Nat
  | [] => made
  | t :: rest =>
    match depth, t.kind.isSymbol .rightBrace with
    | depth + 1, true => nodesMade finish depth (made + 1) rest
    | depth, _ =>
      match _read : item finish t rest with
      | .error _ => made
      | .ok (.leaf _, after) => nodesMade finish depth (made + 1) after
      | .ok (.opens _, after) => nodesMade finish (depth + 1) made after
termination_by ts => ts.length
decreasing_by
  · simp
  · have := item_length _read; simp only [List.length_cons] at this ⊢; omega
  · have := item_length _read; simp only [List.length_cons] at this ⊢; omega

/-- The program that a scanned text spells, under the given name. -/
def ofScanned (name : String) (scanned : Source.Scanned) : Except Diagnostic (Program Unit) :=
  match readNodes scanned.finish [] [] scanned.tokens with
  | .ok nodes => .ok { info := { name }, nodes }
  | .error refusal => .error (Diagnostic.located (.parse refusal.error) refusal.position)

/-- The program that a source text spells. All lexical errors are reported together, a parse error
on its own. -/
def ofSource (name source : String) : Except (List Diagnostic) (Program Unit) :=
  match Source.scan source with
  | .error errors => .error errors
  | .ok scanned =>
    match ofScanned name scanned with
    | .error error => .error [error]
    | .ok program => .ok program

end Catena.Tree

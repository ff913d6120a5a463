import Catena.Proofs.Tree.Node
import Mathlib.Data.List.Forall2

/-!
# Trees that are alike

Two trees of the same shape can differ in the numbers of their nodes, in the tokens that these are
reported at and in the names that they bind and use. How marks are compared is left open
(`Likeness`), and so is how names are.
-/

namespace Catena

/-- How the marks in two trees are compared: the tags of nodes and blocks, and the positions and the
lexemes of tokens. -/
structure Likeness (ι ι' : Type) where
  tag : ι → ι' → Prop
  position : Position → Position → Prop
  word : String → String → Prop

variable {ι ι' : Type}

/-- Marks that are alike. -/
structure Mark.Like (K : Likeness ι ι') (m : Mark ι) (m' : Mark ι') : Prop where
  tag : K.tag m.tag m'.tag
  position : K.position m.token.position m'.token.position
  word : K.word m.token.lexeme m'.token.lexeme

namespace Node

/-- Nodes of the same shape whose marks are alike. The names that they bind or use are compared by
`N`, which is given their tags too. -/
inductive Like (K : Likeness ι ι') (N : ι → ι' → String → String → Prop) : Node ι → Node ι' → Prop
  | literal {m m'} (mark : Mark.Like K m m') (value : Literal) :
    Like K N (.literal m value) (.literal m' value)
  | arithmetic {m m'} (mark : Mark.Like K m m') (op : ArithmeticOp) :
    Like K N (.arithmetic m op) (.arithmetic m' op)
  | comparison {m m'} (mark : Mark.Like K m m') (op : ComparisonOp) :
    Like K N (.comparison m op) (.comparison m' op)
  | condition {m m'} (mark : Mark.Like K m m') (form : Condition) :
    Like K N (.condition m form) (.condition m' form)
  | sequence {m m'} (mark : Mark.Like K m m') {block block'} (hblock : K.tag block block')
    {body body'} (hbody : List.Forall₂ (Like K N) body body') :
    Like K N (.sequence m block body) (.sequence m' block' body')
  | definition {m m'} (mark : Mark.Like K m m') (signature : Signature) {body body'}
    (hbody : List.Forall₂ (Like K N) body body') :
    Like K N (.definition m signature body) (.definition m' signature body')
  | use {m m'} (mark : Mark.Like K m m') {name name'} (hname : N m.tag m'.tag name name') :
    Like K N (.identifier m none name) (.identifier m' none name')
  | member {m m'} (mark : Mark.Like K m m') {token token' : Token}
    (lexeme : token'.lexeme = token.lexeme) (position : K.position token.position token'.position)
    {name name'} (hname : N m.tag m'.tag name name') :
    Like K N (.identifier m (some token) name) (.identifier m' (some token') name')
  | importing {m m'} (mark : Mark.Like K m m') (request : Import) :
    Like K N (.importing m request) (.importing m' request)
  | binding {m m'} (mark : Mark.Like K m m') {name name'} (isPublic : Bool)
    (hname : N m.tag m'.tag name name') :
    Like K N (.binding m name isPublic) (.binding m' name' isPublic)
  | array {m m'} (mark : Mark.Like K m m') (items : List Literal) :
    Like K N (.array m items) (.array m' items)
  | program {m m'} (mark : Mark.Like K m m') (info : ProgramInfo) {nodes nodes'}
    (hnodes : List.Forall₂ (Like K N) nodes nodes') :
    Like K N (.program m info nodes) (.program m' info nodes')

theorem Like.mark {K : Likeness ι ι'} {N : ι → ι' → String → String → Prop} {n : Node ι}
    {n' : Node ι'} (h : Like K N n n') :
    Mark.Like K n.mark n'.mark := by
  cases h with
  | literal mark | arithmetic mark | comparison mark | condition mark | sequence mark
  | definition mark | use mark | member mark | importing mark | binding mark | array mark
  | program mark => exact mark

theorem Like.import?_eq {K : Likeness ι ι'} {N : ι → ι' → String → String → Prop} {n : Node ι}
    {n' : Node ι'} (h : Like K N n n') : n'.import? = n.import? := by
  cases h <;> rfl

end Node

/-! ## Comparing differently -/

/-- Marks that are alike by the one comparison are alike by the other. -/
structure Likeness.Finer (K L : Likeness ι ι') : Prop where
  tag : ∀ {i i'}, K.tag i i' → L.tag i i'
  position : ∀ {p p'}, K.position p p' → L.position p p'
  word : ∀ {w w'}, K.word w w' → L.word w w'

theorem Likeness.Finer.refl (K : Likeness ι ι') : K.Finer K :=
  ⟨id, id, id⟩

variable {K L : Likeness ι ι'} {N N' : ι → ι' → String → String → Prop}

theorem Mark.Like.mono (h : K.Finer L) {m : Mark ι} {m' : Mark ι'} (hm : Mark.Like K m m') :
    Mark.Like L m m' :=
  ⟨h.tag hm.tag, h.position hm.position, h.word hm.word⟩

namespace Node

mutual

theorem Like.mono (h : K.Finer L) (hN : ∀ i i' x x', K.tag i i' → N i i' x x' → N' i i' x x') :
    {n : Node ι} → {n' : Node ι'} → Like K N n n' → Like L N' n n'
  | _, _, .literal mark value => .literal (mark.mono h) value
  | _, _, .arithmetic mark op => .arithmetic (mark.mono h) op
  | _, _, .comparison mark op => .comparison (mark.mono h) op
  | _, _, .condition mark form => .condition (mark.mono h) form
  | _, _, .sequence mark hblock hbody =>
    .sequence (mark.mono h) (h.tag hblock) (Like.monoAll h hN hbody)
  | _, _, .definition mark signature hbody =>
    .definition (mark.mono h) signature (Like.monoAll h hN hbody)
  | _, _, .use mark hname => .use (mark.mono h) (hN _ _ _ _ mark.tag hname)
  | _, _, .member mark lexeme position hname =>
    .member (mark.mono h) lexeme (h.position position) (hN _ _ _ _ mark.tag hname)
  | _, _, .importing mark request => .importing (mark.mono h) request
  | _, _, .binding mark isPublic hname => .binding (mark.mono h) isPublic (hN _ _ _ _ mark.tag hname)
  | _, _, .array mark items => .array (mark.mono h) items
  | _, _, .program mark info hnodes => .program (mark.mono h) info (Like.monoAll h hN hnodes)

theorem Like.monoAll (h : K.Finer L) (hN : ∀ i i' x x', K.tag i i' → N i i' x x' → N' i i' x x') :
    {code : List (Node ι)} → {code' : List (Node ι')} →
    List.Forall₂ (Like K N) code code' → List.Forall₂ (Like L N') code code'
  | _, _, .nil => .nil
  | _, _, .cons hn hrest => .cons (hn.mono h hN) (Like.monoAll h hN hrest)

end

end Node

namespace Node

variable {P : Node ι → Prop} {Q : Node ι' → Prop}

mutual

theorem Like.all (hPQ : ∀ n n', Like K N n n' → P n → Q n') :
    {n : Node ι} → {n' : Node ι'} → Like K N n n' → n.All P → n'.All Q
  | _, _, .sequence mark hblock hbody, hn =>
    ⟨hPQ _ _ (.sequence mark hblock hbody) hn.1, Like.allIn hPQ hbody hn.2⟩
  | _, _, .definition mark signature hbody, hn =>
    ⟨hPQ _ _ (.definition mark signature hbody) hn.1, Like.allIn hPQ hbody hn.2⟩
  | _, _, .program mark info hnodes, hn =>
    ⟨hPQ _ _ (.program mark info hnodes) hn.1, Like.allIn hPQ hnodes hn.2⟩
  | _, _, .literal mark value, hn => hPQ _ _ (.literal mark value) hn
  | _, _, .arithmetic mark op, hn => hPQ _ _ (.arithmetic mark op) hn
  | _, _, .comparison mark op, hn => hPQ _ _ (.comparison mark op) hn
  | _, _, .condition mark form, hn => hPQ _ _ (.condition mark form) hn
  | _, _, .use mark hname, hn => hPQ _ _ (.use mark hname) hn
  | _, _, .member mark lexeme position hname, hn => hPQ _ _ (.member mark lexeme position hname) hn
  | _, _, .importing mark request, hn => hPQ _ _ (.importing mark request) hn
  | _, _, .binding mark isPublic hname, hn => hPQ _ _ (.binding mark isPublic hname) hn
  | _, _, .array mark items, hn => hPQ _ _ (.array mark items) hn

/-- What holds of all nodes holds of like nodes, if it does so one by one. -/
theorem Like.allIn (hPQ : ∀ n n', Like K N n n' → P n → Q n') :
    {code : List (Node ι)} → {code' : List (Node ι')} →
    List.Forall₂ (Like K N) code code' → AllIn P code → AllIn Q code'
  | _, _, .nil, _ => trivial
  | _, _, .cons hn hrest, hcode => ⟨hn.all hPQ hcode.1, Like.allIn hPQ hrest hcode.2⟩

end

end Node

/-! ## The same text -/

/-- Tokens with the same lexeme, wherever they are and whatever the tags. -/
def Likeness.spelling : Likeness ι ι' where
  tag _ _ := True
  position _ _ := True
  word w w' := w' = w

/-- Nodes that are the same but for their tags and the places of their tokens. -/
abbrev Node.Same : Node ι → Node ι' → Prop :=
  Like .spelling fun _ _ x x' => x' = x

/-! ## A tree beside itself -/

/-- Tags, positions and words are like themselves. -/
structure Likeness.Reflexive (K : Likeness ι ι) : Prop where
  tag : ∀ i, K.tag i i
  position : ∀ p, K.position p p
  word : ∀ w, K.word w w

namespace Node

variable {K : Likeness ι ι} {N : ι → ι → String → String → Prop}

/-- The name of a node is like itself. -/
def Familiar (N : ι → ι → String → String → Prop) (n : Node ι) : Prop :=
  ∀ x, n.name? = some x → N n.mark.tag n.mark.tag x x

mutual

theorem Like.self (h : K.Reflexive) : (n : Node ι) → n.All (Familiar N) → Like K N n n
  | .literal _ value, _ => .literal ⟨h.tag _, h.position _, h.word _⟩ value
  | .arithmetic _ op, _ => .arithmetic ⟨h.tag _, h.position _, h.word _⟩ op
  | .comparison _ op, _ => .comparison ⟨h.tag _, h.position _, h.word _⟩ op
  | .condition _ form, _ => .condition ⟨h.tag _, h.position _, h.word _⟩ form
  | .sequence _ _ body, hn =>
    .sequence ⟨h.tag _, h.position _, h.word _⟩ (h.tag _) (Like.selfAll h body hn.2)
  | .definition _ signature body, hn =>
    .definition ⟨h.tag _, h.position _, h.word _⟩ signature (Like.selfAll h body hn.2)
  | .identifier _ none _, hn => .use ⟨h.tag _, h.position _, h.word _⟩ (hn _ rfl)
  | .identifier _ (some _) _, hn =>
    .member ⟨h.tag _, h.position _, h.word _⟩ rfl (h.position _) (hn _ rfl)
  | .importing _ request, _ => .importing ⟨h.tag _, h.position _, h.word _⟩ request
  | .binding _ _ isPublic, hn => .binding ⟨h.tag _, h.position _, h.word _⟩ isPublic (hn _ rfl)
  | .array _ items, _ => .array ⟨h.tag _, h.position _, h.word _⟩ items
  | .program _ info nodes, hn =>
    .program ⟨h.tag _, h.position _, h.word _⟩ info (Like.selfAll h nodes hn.2)

theorem Like.selfAll (h : K.Reflexive) :
    (code : List (Node ι)) → AllIn (Familiar N) code → List.Forall₂ (Like K N) code code
  | [], _ => .nil
  | n :: rest, hcode => .cons (Like.self h n hcode.1) (Like.selfAll h rest hcode.2)

end

theorem Same.refl (nodes : List (Node ι)) : List.Forall₂ Same nodes nodes :=
  Like.selfAll ⟨fun _ => trivial, fun _ => trivial, fun _ => rfl⟩ nodes
    (allIn_of_forall (fun _ _ _ => rfl) nodes)

end Node

end Catena

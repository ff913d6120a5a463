import Catena.Tree.Grammar

/-!
# Derivations

The grammar as a type of trees: a derivation has the tokens of its text at its leaves, each with the
proof that it is of the kind that stands there.

```
program    = node* EOF
node       = ['public'] 'def' IDENT [conditions] '{' node* '}' | '{' node* '}'
           | ['public'] 'let' IDENT | IDENT ['.' IDENT] | literal | operator
           | '[' [literal (',' literal)* [',']] ']' | 'import' request
conditions = '(' types '->' types ')'
types      = 'void' | type (',' type)*
request    = place | targets 'from' place ['as' IDENT]
targets    = '*' | IDENT (',' IDENT)* [',']
place      = '<' IDENT '>' | path
```

A derivation gives back the tokens that it derives (`Derivation.tokens`) and has a tree
(`Derivation.nodes`). The second half of the module shows that the parts of a derivation that hold no
nodes can be told from their tokens.
-/

namespace Catena

/-- The word for a type. -/
def ValueType.keyword : ValueType → Keyword
  | number => .numWord
  | boolean => .boolWord
  | string => .strWord
  | sequence => .seqWord
  | array => .arrayWord
  | any => .anyWord

/-- The symbol of an operator. -/
def ArithmeticOp.symbol : ArithmeticOp → Symbol
  | add => .plus
  | subtract => .minus
  | multiply => .star
  | divide => .slash
  | modulo => .percent

/-- The symbol of a comparison or a connective. -/
def ComparisonOp.symbol : ComparisonOp → Symbol
  | less => .less
  | lessEqual => .lessEqual
  | equal => .equalEqual
  | notEqual => .notEqual
  | greater => .greater
  | greaterEqual => .greaterEqual
  | or => .or
  | and => .and

/-- The symbol of a condition. -/
def Condition.symbol : Condition → Symbol
  | branched => .question
  | single => .doubleQuestion

namespace Tree

/-! ## Leaves -/

/-- A token that stands for a value, which its kind shows. -/
structure Spelled {α : Type} (kind : α → TokenKind) where
  value : α
  token : Token
  spelled : token.kind = kind value

/-- A token of the given kind. -/
abbrev Terminal (kind : TokenKind) := Spelled fun _ : Unit => kind

abbrev Punct (s : Symbol) := Terminal (.symbol s)

abbrev Reserved (k : Keyword) := Terminal (.keyword k)

abbrev Ident := Terminal .identifier

/-- The token of something that may be left out. -/
def optional {kind : TokenKind} (o : Option (Terminal kind)) : List Token :=
  (o.map (·.token)).toList

/-- One thing or more, with commas between them. -/
structure Separated {α : Type} (kind : α → TokenKind) where
  first : Spelled kind
  more : List (Punct .comma × Spelled kind)

namespace Separated

variable {α : Type} {kind : α → TokenKind}

def items (s : Separated kind) : List (Spelled kind) :=
  s.first :: s.more.map Prod.snd

def tokens (s : Separated kind) : List Token :=
  s.first.token :: s.more.flatMap fun (comma, item) => [comma.token, item.token]

end Separated

/-- One thing or more, with commas between them and perhaps one after the last. -/
structure Listed {α : Type} (kind : α → TokenKind) where
  list : Separated kind
  dangling : Option (Punct .comma)

def Listed.tokens {α : Type} {kind : α → TokenKind} (l : Listed kind) : List Token :=
  l.list.tokens ++ optional l.dangling

/-! ## Signatures -/

inductive Types
  | void (word : Reserved .voidWord)
  | list (types : Separated fun type : ValueType => .keyword type.keyword)

def Types.tokens : Types → List Token
  | void word => [word.token]
  | list types => types.tokens

/-- The types as conditions: the last that is written comes first. -/
def Types.conditions : Types → List ValueType
  | void _ => []
  | list types => (types.items.map (·.value)).reverse

structure Conditions where
  opening : Punct .leftParen
  pre : Types
  arrow : Punct .arrow
  post : Types
  closing : Punct .rightParen

def Conditions.tokens (c : Conditions) : List Token :=
  c.opening.token :: c.pre.tokens ++ c.arrow.token :: c.post.tokens ++ [c.closing.token]

/-- The signature of a function, where conditions that are left out are empty. -/
def signature (name : Ident) (isPublic : Bool) (conditions : Option Conditions) : Signature where
  name := name.token.lexeme
  isPublic := isPublic
  pre := (conditions.map (·.pre.conditions)).getD []
  post := (conditions.map (·.post.conditions)).getD []

/-- What opens a block: a brace, or the head of a function up to its brace. -/
inductive Head
  | sequence (brace : Punct .leftBrace)
  | function (visibility : Option (Reserved .publicWord)) (word : Reserved .defWord) (name : Ident)
    (conditions : Option Conditions) (brace : Punct .leftBrace)

def Head.tokens : Head → List Token
  | sequence brace => [brace.token]
  | function visibility word name conditions brace =>
    optional visibility ++ word.token :: name.token :: (conditions.map (·.tokens)).getD [] ++
      [brace.token]

/-- The node of a block. -/
def Head.node (body : List (Node Unit)) : Head → Node Unit
  | sequence brace => .sequence ⟨(), brace.token⟩ () body
  | function visibility _ name conditions _ =>
    .definition ⟨(), name.token⟩ (signature name visibility.isSome conditions) body

/-! ## Imports -/

/-- The path of a source file as an import can give it. -/
abbrev ImportPath :=
  { path : String // hasEnding sourceExtension path ∧ ∀ c ∈ path.toList, isImportChar c }

inductive Place
  | bare (less : Punct .less) (name : Ident) (greater : Punct .greater)
  | file (path : Spelled fun path : ImportPath => .literal (.string path.1))

def Place.tokens : Place → List Token
  | bare less name greater => [less.token, name.token, greater.token]
  | file path => [path.token]

def Place.source : Place → String
  | bare _ name _ => name.token.lexeme
  | file path => path.value.1

inductive Targets
  | star (token : Punct .star)
  | names (names : Listed fun _ : Unit => .identifier)

def Targets.tokens : Targets → List Token
  | star token => [token.token]
  | names list => list.tokens

def Targets.texts : Targets → List String
  | star _ => [starTarget]
  | names list => list.list.items.map (·.token.lexeme)

/-- Exactly one target, and not the star. -/
def Targets.IsSingle (targets : Targets) : Prop :=
  ∃ name, targets.texts = [name] ∧ name ≠ starTarget

/-- The new name for what is taken. -/
structure Renaming where
  word : Reserved .asWord
  name : Ident

def Renaming.tokens (r : Renaming) : List Token :=
  [r.word.token, r.name.token]

inductive Request
  | whole (place : Place)
  | taking (targets : Targets) (word : Reserved .fromWord) (place : Place)
    (rename : Option Renaming) (single : rename.isSome → targets.IsSingle)

def Request.tokens : Request → List Token
  | whole place => place.tokens
  | taking targets word place rename _ =>
    targets.tokens ++ word.token :: place.tokens ++ (rename.map (·.tokens)).getD []

def Request.import : Request → Import
  | whole place => { source := place.source, targets := [], rename := none }
  | taking targets _ place rename _ =>
    { source := place.source
      targets := targets.texts
      rename := rename.map (·.name.token.lexeme) }

/-- A new name is given to a single name only. -/
theorem Request.targets_of_rename {r : Request} {other : String}
    (h : r.import.rename = some other) :
    ∃ target, r.import.targets = [target] ∧ target ≠ starTarget := by
  cases r with
  | whole place => cases h
  | taking targets word place rename single =>
    obtain ⟨given, hgiven, -⟩ := Option.map_eq_some_iff.1 h
    exact single (by rw [hgiven]; rfl)

/-- Everything with `*` is not given a new name. -/
theorem Request.rename_of_isStar {r : Request} (hstar : r.import.isStar = true) :
    r.import.rename = none := by
  cases hrename : r.import.rename with
  | none => rfl
  | some other =>
    obtain ⟨target, htargets, hne⟩ := r.targets_of_rename hrename
    rw [Import.isStar, htargets] at hstar
    exact absurd (List.cons.inj (eq_of_beq hstar)).1 hne

/-! ## Nodes -/

/-- A node that has no nodes in it. -/
inductive Phrase
  | binding (visibility : Option (Reserved .publicWord)) (word : Reserved .letWord) (name : Ident)
  | literal (literal : Spelled TokenKind.literal)
  | arithmetic (op : Spelled fun op : ArithmeticOp => .symbol op.symbol)
  | condition (form : Spelled fun form : Condition => .symbol form.symbol)
  | comparison (op : Spelled fun op : ComparisonOp => .symbol op.symbol)
  | name (name : Ident)
  | member (qualifier : Ident) (dot : Punct .dot) (name : Ident)
  | importing (word : Reserved .importWord) (request : Request)
  | array (opening : Punct .leftBracket) (items : Option (Listed TokenKind.literal))
    (closing : Punct .rightBracket)

def Phrase.tokens : Phrase → List Token
  | binding visibility word ident => optional visibility ++ [word.token, ident.token]
  | literal value => [value.token]
  | arithmetic op => [op.token]
  | condition form => [form.token]
  | comparison op => [op.token]
  | name ident => [ident.token]
  | member qualifier dot ident => [qualifier.token, dot.token, ident.token]
  | importing word request => word.token :: request.tokens
  | array opening items closing =>
    opening.token :: (items.map (·.tokens)).getD [] ++ [closing.token]

def Phrase.node : Phrase → Node Unit
  | binding visibility _ ident => .binding ⟨(), ident.token⟩ ident.token.lexeme visibility.isSome
  | literal value => .literal ⟨(), value.token⟩ value.value
  | arithmetic op => .arithmetic ⟨(), op.token⟩ op.value
  | condition form => .condition ⟨(), form.token⟩ form.value
  | comparison op => .comparison ⟨(), op.token⟩ op.value
  | name ident => .identifier ⟨(), ident.token⟩ none ident.token.lexeme
  | member qualifier _ ident =>
    .identifier ⟨(), ident.token⟩ (some qualifier.token) ident.token.lexeme
  | importing word request => .importing ⟨(), word.token⟩ request.import
  | array opening items _ =>
    .array ⟨(), opening.token⟩ ((items.map (·.list.items.map (·.value))).getD [])

/-- Any number of nodes. -/
inductive Derivation
  | nil
  | phrase (phrase : Phrase) (rest : Derivation)
  | block (head : Head) (body : Derivation) (brace : Punct .rightBrace) (rest : Derivation)

/-- The tokens that are derived. -/
def Derivation.tokens : Derivation → List Token
  | nil => []
  | phrase first rest => first.tokens ++ rest.tokens
  | block head body brace rest => head.tokens ++ body.tokens ++ brace.token :: rest.tokens

/-- The tree of a derivation. -/
def Derivation.nodes : Derivation → List (Node Unit)
  | nil => []
  | phrase first rest => first.node :: rest.nodes
  | block head body _ rest => head.node body.nodes :: rest.nodes

/-- The derivation of a whole text, up to the token that ends it. -/
structure ProgramDerivation where
  nodes : Derivation
  finish : Terminal .endOfInput

def ProgramDerivation.tokens (d : ProgramDerivation) : List Token :=
  d.nodes.tokens ++ [d.finish.token]

/-! ## Parts can be told from their tokens -/

theorem Spelled.eq_of_token {α : Type} {kind : α → TokenKind} (hkind : Function.Injective kind)
    {a b : Spelled kind} (h : a.token = b.token) : a = b := by
  obtain ⟨x, t, hx⟩ := a
  obtain ⟨y, u, hy⟩ := b
  obtain rfl : t = u := h
  obtain rfl : x = y := hkind (hx.symm.trans hy)
  rfl

theorem Spelled.eq_of_terminal {kind : TokenKind} {a b : Terminal kind} (h : a.token = b.token) :
    a = b :=
  Spelled.eq_of_token (fun _ _ _ => rfl) h

theorem Spelled.kind_ne {α : Type} {kind : α → TokenKind} (a : Spelled kind) {k : TokenKind}
    (h : kind a.value ≠ k) : a.token.kind ≠ k := by
  rw [a.spelled]
  exact h

theorem Spelled.token_ne {α β : Type} {kind : α → TokenKind} {kind' : β → TokenKind}
    (a : Spelled kind) (b : Spelled kind') (h : kind a.value ≠ kind' b.value) :
    a.token ≠ b.token := by
  intro htoken
  rw [← b.spelled, ← htoken] at h
  exact h a.spelled.symm

theorem keyword_injective : Function.Injective fun t : ValueType => TokenKind.keyword t.keyword := by
  intro t u h
  cases t <;> cases u <;> first | rfl | cases h

theorem arithmetic_symbol_injective :
    Function.Injective fun op : ArithmeticOp => TokenKind.symbol op.symbol := by
  intro op op' h
  cases op <;> cases op' <;> first | rfl | cases h

theorem comparison_symbol_injective :
    Function.Injective fun op : ComparisonOp => TokenKind.symbol op.symbol := by
  intro op op' h
  cases op <;> cases op' <;> first | rfl | cases h

theorem condition_symbol_injective :
    Function.Injective fun form : Condition => TokenKind.symbol form.symbol := by
  intro form form' h
  cases form <;> cases form' <;> first | rfl | cases h

theorem literal_injective : Function.Injective TokenKind.literal :=
  fun _ _ h => TokenKind.literal.inj h

/-- Something that may be left out is there if its kind is. -/
theorem optional_unique {kind : TokenKind} {o o' : Option (Terminal kind)} {t t' : Token}
    {rest rest' : List Token} (ht : t.kind ≠ kind) (ht' : t'.kind ≠ kind)
    (heq : optional o ++ t :: rest = optional o' ++ t' :: rest') :
    o = o' ∧ t :: rest = t' :: rest' := by
  cases o with
  | none =>
    cases o' with
    | none => exact ⟨rfl, heq⟩
    | some a' => exact absurd ((List.cons.inj heq).1 ▸ a'.spelled) ht
  | some a =>
    cases o' with
    | none => exact absurd ((List.cons.inj heq).1 ▸ a.spelled) ht'
    | some a' =>
      obtain ⟨htoken, hrest⟩ := List.cons.inj heq
      exact ⟨congrArg some (Spelled.eq_of_terminal htoken), hrest⟩

section Lists

variable {α : Type} {kind : α → TokenKind} (hkind : Function.Injective kind)

/-- Another comma and another thing follow. -/
def Continues (kind : α → TokenKind) (ts : List Token) : Prop :=
  ∃ (comma : Punct .comma) (item : Spelled kind) (rest : List Token),
    ts = comma.token :: item.token :: rest

theorem not_continues_of_ne {t : Token} {rest : List Token} (h : t.kind ≠ .symbol .comma) :
    ¬Continues kind (t :: rest) := by
  rintro ⟨comma, item, more, heq⟩
  obtain rfl := (List.cons.inj heq).1
  exact h comma.spelled

include hkind

theorem Separated.unique {s s' : Separated kind} {rest rest' : List Token}
    (hrest : ¬Continues kind rest) (hrest' : ¬Continues kind rest')
    (heq : s.tokens ++ rest = s'.tokens ++ rest') : s = s' ∧ rest = rest' := by
  obtain ⟨first, more⟩ := s
  obtain ⟨first', more'⟩ := s'
  obtain ⟨hfirst, hmore⟩ := List.cons.inj heq
  obtain rfl := Spelled.eq_of_token hkind hfirst
  suffices h : more = more' ∧ rest = rest' from ⟨by rw [h.1], h.2⟩
  clear heq hfirst
  induction more generalizing more' with
  | nil =>
    cases more' with
    | nil => exact ⟨rfl, hmore⟩
    | cons next' more' => exact absurd ⟨next'.1, next'.2, _, hmore⟩ hrest
  | cons next more ih =>
    cases more' with
    | nil => exact absurd ⟨next.1, next.2, _, hmore.symm⟩ hrest'
    | cons next' more' =>
      obtain ⟨hcomma, hitems⟩ := List.cons.inj hmore
      obtain ⟨hitem, htail⟩ := List.cons.inj hitems
      obtain ⟨rfl, hrests⟩ := ih more' htail
      have hnext : next = next' :=
        Prod.ext (Spelled.eq_of_terminal hcomma) (Spelled.eq_of_token hkind hitem)
      exact ⟨by rw [hnext], hrests⟩

theorem Listed.unique {l l' : Listed kind} {t t' : Token} {rest rest' : List Token}
    (hcomma : t.kind ≠ .symbol .comma) (hitem : ∀ a, t.kind ≠ kind a)
    (hcomma' : t'.kind ≠ .symbol .comma) (hitem' : ∀ a, t'.kind ≠ kind a)
    (heq : l.tokens ++ t :: rest = l'.tokens ++ t' :: rest') :
    l = l' ∧ t :: rest = t' :: rest' := by
  have stops : ∀ (o : Option (Punct .comma)) {u : Token} {more : List Token},
      u.kind ≠ .symbol .comma → (∀ a, u.kind ≠ kind a) →
      ¬Continues kind (optional o ++ u :: more) := by
    intro o u more hu hu'
    cases o with
    | none => exact not_continues_of_ne hu
    | some comma =>
      rintro ⟨_, item, later, hlater⟩
      obtain rfl := (List.cons.inj (List.cons.inj hlater).2).1
      exact hu' item.value item.spelled
  obtain ⟨list, dangling⟩ := l
  obtain ⟨list', dangling'⟩ := l'
  simp only [Listed.tokens, List.append_assoc] at heq
  obtain ⟨rfl, hdangling⟩ :=
    Separated.unique hkind (stops dangling hcomma hitem) (stops dangling' hcomma' hitem') heq
  obtain ⟨rfl, hrest⟩ := optional_unique hcomma hcomma' hdangling
  exact ⟨rfl, hrest⟩

end Lists

theorem Types.unique {types types' : Types} {t t' : Token} {rest rest' : List Token}
    (ht : t.kind ≠ .symbol .comma) (ht' : t'.kind ≠ .symbol .comma)
    (heq : types.tokens ++ t :: rest = types'.tokens ++ t' :: rest') :
    types = types' ∧ t :: rest = t' :: rest' := by
  have void : ∀ (word : Reserved .voidWord)
      (type : Spelled fun type : ValueType => .keyword type.keyword), word.token ≠ type.token := by
    intro word type
    refine word.token_ne type ?_
    cases type.value <;> simp [ValueType.keyword]
  cases types with
  | void word =>
    cases types' with
    | void word' =>
      obtain ⟨htoken, hrest⟩ := List.cons.inj heq
      exact ⟨by rw [Spelled.eq_of_terminal htoken], hrest⟩
    | list list' => exact absurd (List.cons.inj heq).1 (void word list'.first)
  | list list =>
    cases types' with
    | void word' => exact absurd (List.cons.inj heq).1.symm (void word' list.first)
    | list list' =>
      obtain ⟨rfl, hrest⟩ := Separated.unique keyword_injective (not_continues_of_ne ht)
        (not_continues_of_ne ht') heq
      exact ⟨rfl, hrest⟩

/-- The conditions of a function end before its brace. -/
theorem conditions_unique {conditions conditions' : Option Conditions}
    {brace brace' : Punct .leftBrace}
    (heq : (conditions.map (·.tokens)).getD [] ++ [brace.token] =
      (conditions'.map (·.tokens)).getD [] ++ [brace'.token]) :
    conditions = conditions' ∧ brace.token = brace'.token := by
  have apart : ∀ (opening : Punct .leftParen) (b : Punct .leftBrace), opening.token ≠ b.token :=
    fun opening b => opening.token_ne b (by simp)
  cases conditions with
  | none =>
    cases conditions' with
    | none => exact ⟨rfl, (List.cons.inj heq).1⟩
    | some c' => exact absurd (List.cons.inj heq).1.symm (apart c'.opening brace)
  | some c =>
    cases conditions' with
    | none => exact absurd (List.cons.inj heq).1 (apart c.opening brace')
    | some c' =>
      obtain ⟨opening, pre, arrow, post, closing⟩ := c
      obtain ⟨opening', pre', arrow', post', closing'⟩ := c'
      simp only [Option.map_some, Option.getD_some, Conditions.tokens, List.cons_append,
        List.append_assoc, List.nil_append] at heq
      obtain ⟨hopening, hpres⟩ := List.cons.inj heq
      obtain ⟨rfl, harrows⟩ :=
        Types.unique (arrow.kind_ne (by simp)) (arrow'.kind_ne (by simp)) hpres
      obtain ⟨harrow, hposts⟩ := List.cons.inj harrows
      obtain ⟨rfl, hclosings⟩ :=
        Types.unique (closing.kind_ne (by simp)) (closing'.kind_ne (by simp)) hposts
      obtain ⟨hclosing, hbraces⟩ := List.cons.inj hclosings
      obtain rfl := Spelled.eq_of_terminal hopening
      obtain rfl := Spelled.eq_of_terminal harrow
      obtain rfl := Spelled.eq_of_terminal hclosing
      exact ⟨rfl, (List.cons.inj hbraces).1⟩

/-- The items of an array end before its bracket. -/
theorem items_unique {items items' : Option (Listed TokenKind.literal)}
    {closing closing' : Punct .rightBracket}
    (heq : (items.map (·.tokens)).getD [] ++ [closing.token] =
      (items'.map (·.tokens)).getD [] ++ [closing'.token]) :
    items = items' ∧ closing.token = closing'.token := by
  have apart : ∀ (p : Punct .rightBracket) (value : Literal), p.token.kind ≠ .literal value :=
    fun p _ => p.kind_ne (by simp)
  have noComma : ∀ p : Punct .rightBracket, p.token.kind ≠ .symbol .comma :=
    fun p => p.kind_ne (by simp)
  cases items with
  | none =>
    cases items' with
    | none => exact ⟨rfl, (List.cons.inj heq).1⟩
    | some l' =>
      exact absurd (List.cons.inj heq).1 (closing.token_ne l'.list.first (by simp))
  | some l =>
    cases items' with
    | none =>
      exact absurd (List.cons.inj heq).1.symm (closing'.token_ne l.list.first (by simp))
    | some l' =>
      obtain ⟨rfl, hclosing⟩ := Listed.unique literal_injective (noComma closing) (apart closing)
        (noComma closing') (apart closing') heq
      exact ⟨rfl, (List.cons.inj hclosing).1⟩

theorem Place.unique {place place' : Place} {rest rest' : List Token}
    (heq : place.tokens ++ rest = place'.tokens ++ rest') : place = place' ∧ rest = rest' := by
  have apart : ∀ (less : Punct .less) (path : Spelled fun path : ImportPath =>
      .literal (.string path.1)), less.token ≠ path.token :=
    fun less path => less.token_ne path (by simp)
  cases place with
  | bare less name greater =>
    cases place' with
    | bare less' name' greater' =>
      obtain ⟨hless, hnames⟩ := List.cons.inj heq
      obtain ⟨hname, hgreaters⟩ := List.cons.inj hnames
      obtain ⟨hgreater, hrest⟩ := List.cons.inj hgreaters
      obtain rfl := Spelled.eq_of_terminal hless
      obtain rfl := Spelled.eq_of_terminal hname
      obtain rfl := Spelled.eq_of_terminal hgreater
      exact ⟨rfl, hrest⟩
    | file path' => exact absurd (List.cons.inj heq).1 (apart less path')
  | file path =>
    cases place' with
    | bare less' name' greater' => exact absurd (List.cons.inj heq).1.symm (apart less' path)
    | file path' =>
      obtain ⟨hpath, hrest⟩ := List.cons.inj heq
      have hkind : Function.Injective fun path : ImportPath =>
          TokenKind.literal (.string path.1) := by
        intro p q h
        exact Subtype.ext (Literal.string.inj (TokenKind.literal.inj h))
      obtain rfl := Spelled.eq_of_token hkind hpath
      exact ⟨rfl, hrest⟩

theorem Targets.unique {targets targets' : Targets} {word word' : Reserved .fromWord}
    {rest rest' : List Token}
    (heq : targets.tokens ++ word.token :: rest = targets'.tokens ++ word'.token :: rest') :
    targets = targets' ∧ word = word' ∧ rest = rest' := by
  have apart : ∀ (star : Punct .star) (name : Ident), star.token ≠ name.token :=
    fun star name => star.token_ne name (by simp)
  have stops : ∀ w : Reserved .fromWord, w.token.kind ≠ .symbol .comma ∧
      ∀ _ : Unit, w.token.kind ≠ .identifier :=
    fun w => ⟨w.kind_ne (by simp), fun _ => w.kind_ne (by simp)⟩
  suffices h : targets = targets' ∧ word.token :: rest = word'.token :: rest' by
    obtain ⟨hword, hrest⟩ := List.cons.inj h.2
    exact ⟨h.1, Spelled.eq_of_terminal hword, hrest⟩
  cases targets with
  | star token =>
    cases targets' with
    | star token' =>
      obtain ⟨htoken, hrest⟩ := List.cons.inj heq
      exact ⟨by rw [Spelled.eq_of_terminal htoken], hrest⟩
    | names names' => exact absurd (List.cons.inj heq).1 (apart token names'.list.first)
  | names names =>
    cases targets' with
    | star token' => exact absurd (List.cons.inj heq).1.symm (apart token' names.list.first)
    | names names' =>
      obtain ⟨rfl, hrest⟩ := Listed.unique (fun _ _ _ => rfl) (stops word).1 (stops word).2
        (stops word').1 (stops word').2 heq
      exact ⟨rfl, hrest⟩

theorem Request.eq_of_tokens {request request' : Request} (heq : request.tokens = request'.tokens) :
    request = request' := by
  -- a place starts with an angle bracket or a path, and targets with the star or a name
  have apart : ∀ (place : Place) (targets : Targets) (rest : List Token),
      place.tokens ≠ targets.tokens ++ rest := by
    intro place targets rest h
    cases place with
    | bare less name greater =>
      cases targets with
      | star star => exact less.token_ne star (by simp) (List.cons.inj h).1
      | names names => exact less.token_ne names.list.first (by simp) (List.cons.inj h).1
    | file path =>
      cases targets with
      | star star => exact path.token_ne star (by simp) (List.cons.inj h).1
      | names names => exact path.token_ne names.list.first (by simp) (List.cons.inj h).1
  cases request with
  | whole place =>
    cases request' with
    | whole place' =>
      obtain ⟨rfl, -⟩ := Place.unique (congrArg (· ++ []) heq)
      rfl
    | taking targets' word' place' rename' single' =>
      simp only [Request.tokens, List.append_assoc] at heq
      exact absurd heq (apart place targets' _)
  | taking targets word place rename single =>
    cases request' with
    | whole place' =>
      simp only [Request.tokens, List.append_assoc] at heq
      exact absurd heq.symm (apart place' targets _)
    | taking targets' word' place' rename' single' =>
      simp only [Request.tokens, List.append_assoc, List.cons_append] at heq
      obtain ⟨rfl, rfl, hplaces⟩ := Targets.unique heq
      obtain ⟨rfl, hrenames⟩ := Place.unique hplaces
      have hrename : rename = rename' := by
        cases rename with
        | none =>
          cases rename' with
          | none => rfl
          | some r' => cases hrenames
        | some r =>
          cases rename' with
          | none => cases hrenames
          | some r' =>
            obtain ⟨asWord, name⟩ := r
            obtain ⟨asWord', name'⟩ := r'
            obtain ⟨hword, hname⟩ := List.cons.inj hrenames
            obtain rfl := Spelled.eq_of_terminal hword
            obtain rfl := Spelled.eq_of_terminal (List.cons.inj hname).1
            rfl
      subst hrename
      rfl

end Tree

end Catena

import Catena.Proofs.Source.Seam
import Catena.Proofs.Tree.Literals

/-!
# An outline is unambiguous

The first word of a node ends at a space, a parenthesis or a line feed, none of which it has inside, so
it tells which constructor the node is (`Node.heading_of_spell`). What stands inside is told in turn:
names and symbols end where they cannot go on, the lexeme of a string ends at its second quote whatever
lines and parentheses it has in it, and the nodes of a block are indented further than the parenthesis
that closes it (`Closes`). By induction on the tree, what a text starts with tells the node that is
printed there, up to what is not printed (`Node.shownLike_of_spell`).
-/

namespace Catena

open Catena.Source Catena.Text

/-! ## Lines as characters -/

/-- The characters of some lines that are indented with tabs. -/
def spell (lines : List OutlineLine) : List Char :=
  lines.flatMap fun l => List.replicate l.depth '\t' ++ l.text.toList ++ ['\n']

theorem toList_join_render (lines : List OutlineLine) :
    (String.join (lines.map (OutlineLine.render "\t"))).toList = spell lines := by
  have htabs : ∀ d, (List.replicate d "\t").flatMap String.toList = List.replicate d '\t' := by
    intro d
    induction d with
    | zero => rfl
    | succ d ih => rw [List.replicate_succ, List.flatMap_cons, ih]; rfl
  simp [String.toList_join, spell, List.flatMap_map, OutlineLine.render, htabs]

theorem spell_append (ls ks : List OutlineLine) : spell (ls ++ ks) = spell ls ++ spell ks :=
  List.flatMap_append

theorem spell_line (d : Nat) (text : String) :
    spell [Node.line d text] = List.replicate d '\t' ++ '(' :: text.toList ++ [')', '\n'] := by
  simp [spell, Node.line]

theorem spell_wrapped (d : Nat) (heading : String) (body : List OutlineLine) :
    spell (Node.wrapped d heading body) =
      List.replicate d '\t' ++ '(' :: heading.toList ++ '\n' :: spell body ++
        List.replicate d '\t' ++ [')', '\n'] := by
  simp [spell, Node.wrapped]

theorem toList_words (word : String) (words : List String) :
    (String.intercalate " " (word :: words)).toList =
      word.toList ++ words.flatMap fun w => ' ' :: w.toList := by
  induction words generalizing word with
  | nil => simp
  | cons next rest ih =>
    rw [String.intercalate_cons_cons, String.toList_append, String.toList_append, ih]
    simp

/-! ## Headings -/

/-- The kinds of literals. -/
inductive LiteralKind
  | number | string | boolean

def Literal.kind : Literal → LiteralKind
  | .number _ => .number
  | .string _ => .string
  | .boolean _ => .boolean

/-- What the first line of a node starts with. -/
inductive Heading
  | literal (kind : LiteralKind)
  | arithmetic | comparison | condition
  | sequence | definition
  | identifier | importing | binding | array | program

/-- The word of a heading. -/
def Heading.text : Heading → String
  | literal .number => "NUMBER_LITERAL"
  | literal .string => "STRING_LITERAL"
  | literal .boolean => "BOOLEAN_LITERAL"
  | arithmetic => "BINARY_OPERATOR"
  | comparison => "COMPARISON"
  | condition => "CONDITION"
  | sequence => "SEQUENCE"
  | definition => "DEF"
  | identifier => "IDENTIFIER"
  | importing => "IMPORT"
  | binding => "LET"
  | array => "ARRAY"
  | program => "PROGRAM"

def Heading.all : List Heading :=
  [literal .number, literal .string, literal .boolean, arithmetic, comparison, condition, sequence,
    definition, identifier, importing, binding, array, program]

theorem Heading.text_injective : Function.Injective text := by
  have found : ∀ h : Heading, all.find? (·.text == h.text) = some h := by
    intro h
    cases h with
    | literal kind => cases kind <;> rfl
    | _ => rfl
  intro h k heq
  have hfound := found h
  rw [heq, found k] at hfound
  exact (Option.some.inj hfound).symm

theorem Heading.unbroken (h : Heading) : Unbroken h.text := by
  refine unbroken_of_all ?_
  cases h with
  | literal kind => cases kind <;> rfl
  | _ => rfl

namespace Node

variable {ι : Type}

def heading : Node ι → Heading
  | literal _ value => .literal value.kind
  | arithmetic _ _ => .arithmetic
  | comparison _ _ => .comparison
  | condition _ _ => .condition
  | sequence _ _ _ => .sequence
  | definition _ _ _ => .definition
  | identifier _ _ _ => .identifier
  | importing _ _ => .importing
  | binding _ _ _ => .binding
  | array _ _ => .array
  | program _ _ _ => .program

/-- A name with what stands in front of it. -/
def pathText (qualifier : Option Token) (name : String) : List Char :=
  match qualifier with
  | some token => token.lexeme.toList ++ '.' :: name.toList
  | none => name.toList

/-- What stands after the first word of a node, up to its closing parenthesis. -/
def inside (d : Nat) : Node ι → List Char
  | literal m value => ' ' :: (literalText m.token value).toList
  | arithmetic _ op => ' ' :: op.symbol.name.toList ++ ' ' :: op.symbol.text.toList
  | comparison _ op => ' ' :: '(' :: op.symbol.name.toList ++ ' ' :: op.symbol.text.toList ++ [')']
  | condition _ form => ' ' :: form.symbol.name.toList
  | sequence _ _ body =>
    ' ' :: Symbol.leftBrace.name.toList ++ '\n' :: spell (outlineAll (d + 1) body) ++
      List.replicate d '\t'
  | definition _ signature body =>
    '\n' :: spell [line (d + 1) ("IDENTIFIER " ++ signature.name)] ++
      spell (outlineAll (d + 2) body) ++ List.replicate d '\t'
  | identifier _ qualifier name => ' ' :: pathText qualifier name
  | importing _ request => '\n' :: spell (importLines (d + 1) request) ++ List.replicate d '\t'
  | binding _ name _ => ' ' :: name.toList
  | array _ items => items.flatMap fun item => ' ' :: item.outline.toList
  | program _ _ _ => []

/-- The first word of a node, what stands after it, and the closing parenthesis. -/
theorem spell_outline {n : Node ι} (h : n.Textual) (d : Nat) (rest : List Char) :
    spell (outline d n) ++ rest =
      List.replicate d '\t' ++ '(' :: (n.heading.text.toList ++ (n.inside d ++ ')' :: '\n' :: rest)) := by
  cases n with
  | literal m value =>
    rw [outline, spell_line, h.kind_eq]
    cases value <;> simp [heading, Heading.text, inside, Literal.kind, TokenKind.name]
  | arithmetic m op =>
    rw [outline, spell_line, h.kind_eq, h.lexeme_symbol]
    simp [heading, Heading.text, inside, TokenKind.name]
  | comparison m op =>
    rw [outline, spell_line, h.kind_eq, h.lexeme_symbol]
    simp [heading, Heading.text, inside, TokenKind.name]
  | condition m form =>
    rw [outline, spell_line, h.kind_eq]
    simp [heading, Heading.text, inside, TokenKind.name]
  | sequence m block body =>
    rw [outline, spell_wrapped, h.kind_eq]
    simp [heading, Heading.text, inside, TokenKind.name]
  | definition m signature body =>
    have hbody : spell (line (d + 1) ("IDENTIFIER " ++ signature.name) :: outlineAll (d + 2) body) =
        spell [line (d + 1) ("IDENTIFIER " ++ signature.name)] ++ spell (outlineAll (d + 2) body) :=
      spell_append [_] _
    rw [outline, spell_wrapped, hbody]
    simp [heading, Heading.text, inside]
  | identifier m qualifier name =>
    cases qualifier with
    | none =>
      rw [outline, spell_line, h.1.kind_eq]
      simp [heading, Heading.text, inside, TokenKind.name, pathText]
    | some token =>
      rw [outline, spell_line, h.1.kind_eq]
      simp [heading, Heading.text, inside, TokenKind.name, pathText]
  | importing m request =>
    rw [outline, spell_wrapped]
    simp [heading, Heading.text, inside]
  | binding m name isPublic =>
    rw [outline, spell_line]
    simp [heading, Heading.text, inside]
  | array m items =>
    rw [outline, spell_line, toList_words]
    simp [heading, Heading.text, inside, List.flatMap_map]
  | program m info nodes => exact h.elim

/-- The first word ends at a mark. -/
theorem exists_mark {n : Node ι} (h : n.Textual) (d : Nat) (rest : List Char) :
    ∃ c more, isMark c = true ∧ n.inside d ++ ')' :: '\n' :: rest = c :: more := by
  cases n with
  | array m items => cases items <;> exact ⟨_, _, rfl, rfl⟩
  | program m info nodes => exact h.elim
  | _ => exact ⟨_, _, rfl, rfl⟩

/-- Nodes that are spelled the same start with the same word and go on the same. -/
theorem heading_of_spell {ι' : Type} {n : Node ι} {n' : Node ι'} (h : n.Textual)
    (h' : n'.Textual) {d : Nat} {rest rest' : List Char}
    (heq : spell (outline d n) ++ rest = spell (outline d n') ++ rest') :
    n.heading = n'.heading ∧
      n.inside d ++ ')' :: '\n' :: rest = n'.inside d ++ ')' :: '\n' :: rest' := by
  rw [spell_outline h, spell_outline h'] at heq
  have hwords := (List.cons.inj (List.append_cancel_left heq)).2
  obtain ⟨c, more, hc, hmore⟩ := exists_mark h d rest
  obtain ⟨c', more', hc', hmore'⟩ := exists_mark h' d rest'
  rw [hmore, hmore'] at hwords ⊢
  obtain ⟨hheading, rfl, rfl⟩ :=
    n.heading.unbroken.eq_of_append n'.heading.unbroken hc hc' hwords
  exact ⟨Heading.text_injective hheading, rfl⟩

end Node

/-! ## Nodes that are shown the same -/

/-- Nodes that are equal but for their tags, their positions, what is public, conditions, and numbers
that are shown the same. -/
inductive Node.ShownLike {ι ι' : Type} : Node ι → Node ι' → Prop
  | number {m m'} {a b : Float} (kind : m.token.kind = .literal (.number a))
    (kind' : m'.token.kind = .literal (.number b)) (shown : Number.display a = Number.display b) :
    ShownLike (.literal m (.number a)) (.literal m' (.number b))
  | literal {m m'} (token : Source.core m.token = Source.core m'.token) (value : Literal) :
    ShownLike (.literal m value) (.literal m' value)
  | arithmetic {m m'} (token : Source.core m.token = Source.core m'.token) (op : ArithmeticOp) :
    ShownLike (.arithmetic m op) (.arithmetic m' op)
  | comparison {m m'} (token : Source.core m.token = Source.core m'.token) (op : ComparisonOp) :
    ShownLike (.comparison m op) (.comparison m' op)
  | condition {m m'} (token : Source.core m.token = Source.core m'.token) (form : Condition) :
    ShownLike (.condition m form) (.condition m' form)
  | sequence {m m' block block'} (token : Source.core m.token = Source.core m'.token)
    {body body'} (hbody : List.Forall₂ ShownLike body body') :
    ShownLike (.sequence m block body) (.sequence m' block' body')
  | definition {m m'} (token : Source.core m.token = Source.core m'.token)
    {signature signature' : Signature} (hname : signature.name = signature'.name)
    {body body'} (hbody : List.Forall₂ ShownLike body body') :
    ShownLike (.definition m signature body) (.definition m' signature' body')
  | identifier {m m'} (token : Source.core m.token = Source.core m'.token)
    {qualifier qualifier' : Option Token}
    (hqualifier : qualifier.map Source.core = qualifier'.map Source.core) (name : String) :
    ShownLike (.identifier m qualifier name) (.identifier m' qualifier' name)
  | importing {m m'} (token : Source.core m.token = Source.core m'.token) (request : Import) :
    ShownLike (.importing m request) (.importing m' request)
  | binding {m m'} (token : Source.core m.token = Source.core m'.token) (name : String)
    (isPublic isPublic' : Bool) : ShownLike (.binding m name isPublic) (.binding m' name isPublic')
  | array {m m'} (token : Source.core m.token = Source.core m'.token) {items items'}
    (hitems : List.Forall₂ Literal.ShownLike items items') :
    ShownLike (.array m items) (.array m' items')

/-! ## Tokens and names -/

/-- A lexeme tells what its token is. -/
theorem Token.Spells.core_eq {t t' : Token} {kind kind' : TokenKind} (h : t.Spells kind)
    (h' : t'.Spells kind') (heq : t.lexeme = t'.lexeme) :
    Source.core t = Source.core t' ∧ kind = kind' := by
  have hclass := h.inClass
  rw [heq] at hclass
  obtain rfl := hclass.unique h'.inClass
  exact ⟨Prod.ext (h.kind_eq.trans h'.kind_eq.symm) heq, rfl⟩

theorem Token.Spells.core_symbol {t t' : Token} {s : Symbol} (h : t.Spells (.symbol s))
    (h' : t'.Spells (.symbol s)) : Source.core t = Source.core t' :=
  (h.core_eq h' (h.lexeme_symbol.trans h'.lexeme_symbol.symm)).1

theorem unbroken_symbol_name (s : Symbol) : Unbroken s.name :=
  unbroken_of_all (by cases s <;> rfl)

/-- The name of a symbol tells which one it is. -/
theorem symbol_name_injective : Function.Injective Symbol.name := by
  have found : ∀ s : Symbol, Symbol.all.find? (·.name == s.name) = some s := by
    intro s
    cases s <;> rfl
  intro s s' h
  have hfound := found s
  rw [h, found s'] at hfound
  exact (Option.some.inj hfound).symm

/-- A name ends at a parenthesis; a qualifier ends at a dot. -/
theorem eq_of_pathText {qualifier qualifier' : Option Token} {name name' : String}
    {rest rest' : List Char} (hname : IsName name) (hname' : IsName name')
    (hqualifier : ∀ t ∈ qualifier, t.Spells .identifier)
    (hqualifier' : ∀ t ∈ qualifier', t.Spells .identifier)
    (h : Node.pathText qualifier name ++ ')' :: rest = Node.pathText qualifier' name' ++ ')' :: rest') :
    qualifier.map Source.core = qualifier'.map Source.core ∧ name = name' ∧ rest = rest' := by
  let mark : Char → Bool := fun c => c == '.' || c == ')'
  have hclear : ∀ {s : String}, IsName s → ∀ c ∈ s.toList, mark c = false := by
    intro s hs c hc
    by_contra hmark
    rcases (by simpa [mark, or_iff_not_imp_left] using hmark : c = '.' ∨ c = ')') with rfl | rfl
    · exact hs.noDot hc
    · exact absurd (hs.unbroken _ hc) (by decide)
  cases qualifier with
  | none =>
    cases qualifier' with
    | none =>
      obtain ⟨hnames, -, hrest⟩ := eq_of_marks (hclear hname) (hclear hname') rfl rfl h
      exact ⟨rfl, String.toList_inj.1 hnames, hrest⟩
    | some t' =>
      simp only [Node.pathText, List.append_assoc, List.cons_append] at h
      obtain ⟨-, hmarks, -⟩ :=
        eq_of_marks (hclear hname) (hclear (hqualifier' t' rfl).isName) rfl rfl h
      cases hmarks
  | some t =>
    cases qualifier' with
    | none =>
      simp only [Node.pathText, List.append_assoc, List.cons_append] at h
      obtain ⟨-, hmarks, -⟩ :=
        eq_of_marks (hclear (hqualifier t rfl).isName) (hclear hname') rfl rfl h
      cases hmarks
    | some t' =>
      simp only [Node.pathText, List.append_assoc, List.cons_append] at h
      obtain ⟨hlexemes, -, hmembers⟩ := eq_of_marks (hclear (hqualifier t rfl).isName)
        (hclear (hqualifier' t' rfl).isName) rfl rfl h
      obtain ⟨hnames, -, hrest⟩ := eq_of_marks (hclear hname) (hclear hname') rfl rfl hmembers
      have hcore := ((hqualifier t rfl).core_eq (hqualifier' t' rfl) (String.toList_inj.1 hlexemes)).1
      exact ⟨congrArg some hcore, String.toList_inj.1 hnames, hrest⟩

/-! ## Blocks -/

/-- The text ends here, or with the parenthesis that closes a block further out. -/
def Closes (d : Nat) (cs : List Char) : Prop :=
  cs = [] ∨ ∃ e < d, ∃ more, cs = List.replicate e '\t' ++ ')' :: more

/-- Where a block is closed no node of it starts. -/
theorem Closes.ne_open {d : Nat} {cs more : List Char} (h : Closes d cs) :
    cs ≠ List.replicate d '\t' ++ '(' :: more := by
  rintro rfl
  rcases h with h | ⟨e, he, rest, h⟩
  · simp at h
  · obtain ⟨k, rfl⟩ := Nat.exists_eq_add_of_lt he
    rw [Nat.add_assoc, ← List.replicate_append_replicate, List.append_assoc] at h
    exact absurd (List.cons.inj (List.append_cancel_left h)).1 (by decide)

theorem Closes.of_lt {d e : Nat} (h : e < d) (more : List Char) :
    Closes d (List.replicate e '\t' ++ ')' :: more) :=
  .inr ⟨e, h, more, rfl⟩

/-! ## Imports -/

/-- The line that tells what an import takes. -/
def targetLines (d : Nat) (targets : List String) : List OutlineLine :=
  if targets.isEmpty then [] else [Node.line d ("TARGET " ++ String.intercalate " " targets)]

/-- The line that tells under which name. -/
def aliasLines (d : Nat) : Option String → List OutlineLine
  | some name => [Node.line d ("AS " ++ name)]
  | none => []

theorem importLines_eq (d : Nat) (i : Import) : Node.importLines d i =
    targetLines d i.targets ++ [Node.line d ("FROM " ++ i.source)] ++ aliasLines d i.rename := by
  obtain ⟨source, targets, rename⟩ := i
  cases rename <;> rfl

theorem spell_targetLines (d : Nat) (target : String) (targets : List String) (rest : List Char) :
    spell (targetLines d (target :: targets)) ++ rest = List.replicate d '\t' ++ '(' ::
      ("TARGET".toList ++ (((target :: targets).flatMap fun w => ' ' :: w.toList) ++
        ')' :: '\n' :: rest)) := by
  show spell [Node.line d ("TARGET " ++ String.intercalate " " (target :: targets))] ++ rest = _
  rw [spell_line, String.toList_append, toList_words]
  simp

theorem eq_of_targetLines {d : Nat} {targets targets' : List String} {rest rest' : List Char}
    (ht : ∀ t ∈ targets, Unbroken t) (ht' : ∀ t ∈ targets', Unbroken t)
    (h : spell (targetLines d targets) ++ (List.replicate d '\t' ++ '(' :: 'F' :: rest) =
      spell (targetLines d targets') ++ (List.replicate d '\t' ++ '(' :: 'F' :: rest')) :
    targets = targets' ∧ rest = rest' := by
  cases targets with
  | nil =>
    cases targets' with
    | nil => exact ⟨rfl, by simpa [targetLines, spell] using h⟩
    | cons t' ts' =>
      rw [spell_targetLines] at h
      exact absurd (List.cons.inj (List.append_cancel_left h)).2 (by simp)
  | cons t ts =>
    cases targets' with
    | nil =>
      rw [spell_targetLines] at h
      exact absurd (List.cons.inj (List.append_cancel_left h)).2 (by simp)
    | cons t' ts' =>
      rw [spell_targetLines, spell_targetLines] at h
      have hwords := List.append_cancel_left (List.cons.inj (List.append_cancel_left h)).2
      obtain ⟨htargets, hrest⟩ := eq_of_spaced ht ht' hwords
      exact ⟨htargets, by simpa using hrest⟩

theorem eq_of_aliasLines {d : Nat} {rename rename' : Option String} {rest rest' : List Char}
    (hr : ∀ name ∈ rename, Unbroken name) (hr' : ∀ name ∈ rename', Unbroken name)
    (h : spell (aliasLines (d + 1) rename) ++ (List.replicate d '\t' ++ ')' :: rest) =
      spell (aliasLines (d + 1) rename') ++ (List.replicate d '\t' ++ ')' :: rest')) :
    rename = rename' ∧ rest = rest' := by
  have halias : ∀ (name : String) (rest : List Char), spell (aliasLines (d + 1) (some name)) ++ rest =
      List.replicate (d + 1) '\t' ++ '(' :: ("AS ".toList ++ (name.toList ++ ')' :: '\n' :: rest)) := by
    intro name rest
    show spell [Node.line (d + 1) ("AS " ++ name)] ++ rest = _
    rw [spell_line]
    simp
  cases rename with
  | none =>
    cases rename' with
    | none => exact ⟨rfl, by simpa [aliasLines, spell] using h⟩
    | some name' =>
      rw [halias] at h
      exact absurd h (Closes.of_lt (Nat.lt_succ_self d) rest).ne_open
  | some name =>
    cases rename' with
    | none =>
      rw [halias] at h
      exact absurd h.symm (Closes.of_lt (Nat.lt_succ_self d) rest').ne_open
    | some name' =>
      rw [halias, halias] at h
      have hnames := List.append_cancel_left (List.cons.inj (List.append_cancel_left h)).2
      obtain ⟨hname, -, hrest⟩ := (hr name rfl).eq_of_append (hr' name' rfl) rfl rfl hnames
      exact ⟨congrArg some hname, by simpa using hrest⟩

theorem eq_of_importLines {d : Nat} {i i' : Import} {rest rest' : List Char} (hi : i.Unbroken)
    (hi' : i'.Unbroken)
    (h : spell (Node.importLines (d + 1) i) ++ (List.replicate d '\t' ++ ')' :: rest) =
      spell (Node.importLines (d + 1) i') ++ (List.replicate d '\t' ++ ')' :: rest')) :
    i = i' ∧ rest = rest' := by
  have hfrom : ∀ (source : String) (rest : List Char),
      spell [Node.line (d + 1) ("FROM " ++ source)] ++ rest = List.replicate (d + 1) '\t' ++ '(' ::
        'F' :: ("ROM ".toList ++ (source.toList ++ ')' :: '\n' :: rest)) := by
    intro source rest
    rw [spell_line]
    simp
  rw [importLines_eq, importLines_eq, spell_append, spell_append, spell_append, spell_append] at h
  simp only [List.append_assoc] at h
  rw [hfrom, hfrom] at h
  obtain ⟨htargets, h⟩ := eq_of_targetLines hi.targets hi'.targets h
  obtain ⟨hsource, -, h⟩ := hi.source.eq_of_append hi'.source rfl rfl (List.append_cancel_left h)
  obtain ⟨hrename, hrest⟩ := eq_of_aliasLines hi.rename hi'.rename (List.cons.inj h).2
  obtain ⟨source, targets, rename⟩ := i
  obtain ⟨source', targets', rename'⟩ := i'
  obtain rfl : source = source' := hsource
  obtain rfl : targets = targets' := htargets
  obtain rfl : rename = rename' := hrename
  exact ⟨rfl, hrest⟩

variable {ι ι' : Type}

namespace Node

/-- An operator is told by the name of its symbol. -/
theorem symbol_of_inside {s s' : Symbol} {rest rest' : List Char}
    (h : s.name.toList ++ (' ' :: (s.text.toList ++ rest)) =
      s'.name.toList ++ (' ' :: (s'.text.toList ++ rest'))) : s = s' ∧ rest = rest' := by
  obtain ⟨hname, -, hrest⟩ :=
    (unbroken_symbol_name s).eq_of_append (unbroken_symbol_name s') rfl rfl h
  obtain rfl := symbol_name_injective hname
  exact ⟨rfl, List.append_cancel_left hrest⟩

theorem literal_of_inside {m : Mark ι} {m' : Mark ι'} {v v' : Literal} {d : Nat}
    {rest rest' : List Char} (h : m.token.Spells (.literal v)) (h' : m'.token.Spells (.literal v'))
    (hkind : v.kind = v'.kind)
    (heq : inside d (literal m v) ++ ')' :: rest = inside d (literal m' v') ++ ')' :: rest') :
    ShownLike (literal m v) (literal m' v') ∧ rest = rest' := by
  have htext := (List.cons.inj heq).2
  cases v with
  | number a =>
    cases v' with
    | number b =>
      obtain ⟨hshown, -, hrest⟩ :=
        (Number.unbroken_display a).eq_of_append (Number.unbroken_display b) rfl rfl htext
      exact ⟨.number h.kind_eq h'.kind_eq hshown, hrest⟩
    | _ => cases hkind
  | string s =>
    cases v' with
    | string s' =>
      obtain ⟨content, hlexeme, hcontent⟩ := h.lexeme_string
      obtain ⟨content', hlexeme', hcontent'⟩ := h'.lexeme_string
      change m.token.lexeme.toList ++ _ = m'.token.lexeme.toList ++ _ at htext
      rw [hlexeme, hlexeme'] at htext
      simp only [List.cons_append, List.append_assoc, List.nil_append, List.cons.injEq,
        true_and] at htext
      obtain ⟨rfl, hrest⟩ := eq_of_mark '"' hcontent hcontent' htext
      obtain ⟨hcore, hspells⟩ := h.core_eq h' (String.toList_inj.1 (hlexeme.trans hlexeme'.symm))
      cases hspells
      exact ⟨.literal hcore _, (List.cons.inj hrest).2⟩
    | _ => cases hkind
  | boolean b =>
    cases v' with
    | boolean b' =>
      obtain ⟨hshown, -, hrest⟩ :=
        (unbroken_booleanText b).eq_of_append (unbroken_booleanText b') rfl rfl htext
      obtain rfl := booleanText_injective hshown
      exact ⟨.literal (h.core_eq h' (h.lexeme_boolean.trans h'.lexeme_boolean.symm)).1 _, hrest⟩
    | _ => cases hkind

mutual

/-- **What a text starts with tells the node that is printed there**, whatever follows. -/
theorem shownLike_of_spell : (n : Node ι) → n.All Textual → ∀ {n' : Node ι'} {d : Nat}
    {rest rest' : List Char}, n'.All Textual →
    spell (outline d n) ++ rest = spell (outline d n') ++ rest' → n.ShownLike n' ∧ rest = rest'
  | .literal m v, h, n', d, rest, rest', h', heq => by
    obtain ⟨hheading, htext⟩ := heading_of_spell h.self h'.self heq
    cases n' with
    | literal m' v' =>
      obtain ⟨hlike, hrest⟩ := literal_of_inside h h' (Heading.literal.inj hheading) htext
      exact ⟨hlike, (List.cons.inj hrest).2⟩
    | _ => cases hheading
  | .arithmetic m op, h, n', d, rest, rest', h', heq => by
    obtain ⟨hheading, htext⟩ := heading_of_spell h.self h'.self heq
    cases n' with
    | arithmetic m' op' =>
      simp only [inside, List.cons_append, List.append_assoc, List.cons.injEq, true_and] at htext
      obtain ⟨hop, hrest⟩ := symbol_of_inside htext
      obtain rfl := Tree.arithmetic_symbol_injective (congrArg TokenKind.symbol hop)
      exact ⟨.arithmetic (h.core_symbol h') op, by simpa using hrest⟩
    | _ => cases hheading
  | .comparison m op, h, n', d, rest, rest', h', heq => by
    obtain ⟨hheading, htext⟩ := heading_of_spell h.self h'.self heq
    cases n' with
    | comparison m' op' =>
      simp only [inside, List.cons_append, List.append_assoc, List.cons.injEq, true_and] at htext
      obtain ⟨hop, hrest⟩ := symbol_of_inside htext
      obtain rfl := Tree.comparison_symbol_injective (congrArg TokenKind.symbol hop)
      exact ⟨.comparison (h.core_symbol h') op, by simpa using hrest⟩
    | _ => cases hheading
  | .condition m form, h, n', d, rest, rest', h', heq => by
    obtain ⟨hheading, htext⟩ := heading_of_spell h.self h'.self heq
    cases n' with
    | condition m' form' =>
      obtain ⟨hname, -, hrest⟩ := (unbroken_symbol_name form.symbol).eq_of_append
        (unbroken_symbol_name form'.symbol) rfl rfl (List.cons.inj htext).2
      have hform := symbol_name_injective hname
      obtain rfl := Tree.condition_symbol_injective (congrArg TokenKind.symbol hform)
      exact ⟨.condition (h.core_symbol h') form, (List.cons.inj hrest).2⟩
    | _ => cases hheading
  | .sequence m block body, h, n', d, rest, rest', h', heq => by
    obtain ⟨hheading, htext⟩ := heading_of_spell h.self h'.self heq
    cases n' with
    | sequence m' block' body' =>
      simp only [inside, List.cons_append, List.append_assoc, List.append_cancel_left_eq,
        List.cons.injEq, true_and] at htext
      obtain ⟨hbody, hrest⟩ := shownLike_of_spellAll body h.2 h'.2
        (Closes.of_lt (Nat.lt_succ_self d) _) (Closes.of_lt (Nat.lt_succ_self d) _) htext
      exact ⟨.sequence (h.1.core_symbol h'.1) hbody, by simpa using hrest⟩
    | _ => cases hheading
  | .definition m signature body, h, n', d, rest, rest', h', heq => by
    obtain ⟨hheading, htext⟩ := heading_of_spell h.self h'.self heq
    cases n' with
    | definition m' signature' body' =>
      obtain ⟨⟨hspells, hname⟩, hcode⟩ := h
      obtain ⟨⟨hspells', hname'⟩, hcode'⟩ := h'
      simp only [inside, spell_line, String.toList_append, List.cons_append, List.append_assoc,
        List.append_cancel_left_eq, List.nil_append, List.cons.injEq, true_and] at htext
      rw [hname, hname'] at htext
      obtain ⟨hlexeme, -, htext⟩ :=
        hspells.isName.unbroken.eq_of_append hspells'.isName.unbroken rfl rfl htext
      obtain ⟨hbody, hrest⟩ := shownLike_of_spellAll body hcode hcode' (Closes.of_lt (by omega) _)
        (Closes.of_lt (by omega) _) (List.cons.inj htext).2
      refine ⟨.definition (hspells.core_eq hspells' hlexeme).1 ?_ hbody, by simpa using hrest⟩
      rw [hname, hname', hlexeme]
    | _ => cases hheading
  | .identifier m qualifier name, h, n', d, rest, rest', h', heq => by
    obtain ⟨hheading, htext⟩ := heading_of_spell h.self h'.self heq
    cases n' with
    | identifier m' qualifier' name' =>
      obtain ⟨hspells, rfl, hqualifier⟩ := h
      obtain ⟨hspells', rfl, hqualifier'⟩ := h'
      obtain ⟨hcore, hname, hrest⟩ := eq_of_pathText hspells.isName hspells'.isName hqualifier
        hqualifier' (List.cons.inj htext).2
      have htoken := (hspells.core_eq hspells' hname).1
      rw [hname]
      exact ⟨.identifier htoken hcore _, (List.cons.inj hrest).2⟩
    | _ => cases hheading
  | .importing m request, h, n', d, rest, rest', h', heq => by
    obtain ⟨hheading, htext⟩ := heading_of_spell h.self h'.self heq
    cases n' with
    | importing m' request' =>
      simp only [inside, List.cons_append, List.append_assoc, List.cons.injEq, true_and] at htext
      obtain ⟨rfl, hrest⟩ := eq_of_importLines h.2 h'.2 htext
      have hkeyword : m.token.lexeme = m'.token.lexeme :=
        String.toList_inj.1 (h.1.inClass.trans h'.1.inClass.symm)
      exact ⟨.importing (h.1.core_eq h'.1 hkeyword).1 request, (List.cons.inj hrest).2⟩
    | _ => cases hheading
  | .binding m name isPublic, h, n', d, rest, rest', h', heq => by
    obtain ⟨hheading, htext⟩ := heading_of_spell h.self h'.self heq
    cases n' with
    | binding m' name' isPublic' =>
      obtain ⟨hspells, rfl⟩ := h
      obtain ⟨hspells', rfl⟩ := h'
      obtain ⟨hlexeme, -, hrest⟩ := hspells.isName.unbroken.eq_of_append
        hspells'.isName.unbroken rfl rfl (List.cons.inj htext).2
      have htoken := (hspells.core_eq hspells' hlexeme).1
      rw [hlexeme]
      exact ⟨.binding htoken _ _ _, (List.cons.inj hrest).2⟩
    | _ => cases hheading
  | .array m items, h, n', d, rest, rest', h', heq => by
    obtain ⟨hheading, htext⟩ := heading_of_spell h.self h'.self heq
    cases n' with
    | array m' items' =>
      obtain ⟨hitems, hrest⟩ := forall₂_of_spaced
        (fun a _ a' _ _ _ _ _ hc hc' => Literal.shownLike_of_outline hc hc') htext
      exact ⟨.array (h.core_symbol h') hitems, (List.cons.inj hrest).2⟩
    | _ => cases hheading
  | .program m info nodes, h, n', d, rest, rest', h', heq => h.1.elim

/-- The same for the nodes of a block, up to where it is closed. -/
theorem shownLike_of_spellAll : (code : List (Node ι)) → AllIn Textual code →
    ∀ {code' : List (Node ι')} {d : Nat} {rest rest' : List Char}, AllIn Textual code' →
    Closes d rest → Closes d rest' →
    spell (outlineAll d code) ++ rest = spell (outlineAll d code') ++ rest' →
    List.Forall₂ ShownLike code code' ∧ rest = rest'
  | [], _, code', d, rest, rest', h', hrest, hrest', heq => by
    cases code' with
    | nil => exact ⟨.nil, heq⟩
    | cons n' code' =>
      rw [outlineAll, outlineAll, spell_append, List.append_assoc, spell_outline h'.1.self] at heq
      exact absurd heq hrest.ne_open
  | n :: code, h, code', d, rest, rest', h', hrest, hrest', heq => by
    cases code' with
    | nil =>
      rw [outlineAll, outlineAll, spell_append, List.append_assoc, spell_outline h.1.self] at heq
      exact absurd heq.symm hrest'.ne_open
    | cons n' code' =>
      rw [outlineAll, outlineAll, spell_append, spell_append, List.append_assoc,
        List.append_assoc] at heq
      obtain ⟨hlike, heq⟩ := shownLike_of_spell n h.1 h'.1 heq
      obtain ⟨hall, heq⟩ := shownLike_of_spellAll code h.2 h'.2 hrest hrest' heq
      exact ⟨.cons hlike hall, heq⟩

end

end Node

end Catena

import Catena.Proofs.Tree.Heads

/-!
# What the tokens of nodes spell

A node that was read has its tokens from the text, each of the kind that the node asks for and with a
lexeme of that kind (`Node.Textual`, `Tree.allIn_textual_of_ofSource`). So names are words, and the
source of an import is a word or the path of a file: none of them has a space, a closing parenthesis or
a line feed in it, which end the words of an outline.
-/

namespace Catena

/-! ## Texts without marks -/

/-- The characters that end a word of an outline. -/
def isMark (c : Char) : Bool :=
  c == ' ' || c == ')' || c == '\n'

/-- No character of the text ends a word of an outline. -/
def Unbroken (s : String) : Prop :=
  ∀ c ∈ s.toList, isMark c = false

theorem unbroken_of_all {s : String} (h : (s.toList.all fun c => !isMark c) = true) : Unbroken s :=
  fun c hc => by simpa using List.all_eq_true.1 h c hc

/-- A text starts with one unbroken word only, up to the mark after it. -/
theorem Unbroken.eq_of_append {s s' : String} (h : Unbroken s) (h' : Unbroken s') {c c' : Char}
    {rest rest' : List Char} (hc : isMark c = true) (hc' : isMark c' = true)
    (heq : s.toList ++ c :: rest = s'.toList ++ c' :: rest') : s = s' ∧ c = c' ∧ rest = rest' := by
  obtain ⟨hword, hmark, hrest⟩ := Source.eq_of_marks h h' hc hc' heq
  exact ⟨String.toList_inj.1 hword, hmark, hrest⟩

theorem mark_cases {c : Char} (h : ¬isMark c = false) : c = ' ' ∨ c = ')' ∨ c = '\n' := by
  simpa only [isMark, Bool.not_eq_false, Bool.or_eq_true, beq_iff_eq, or_assoc] using h

theorem unbroken_of_importChars {s : String} (h : ∀ c ∈ s.toList, Tree.isImportChar c) :
    Unbroken s := by
  intro c hc
  by_contra hmark
  have hchar := h c hc
  rcases mark_cases hmark with rfl | rfl | rfl <;> exact absurd hchar (by decide)

/-- A name as an outline shows it: it has no mark in it and no dot. -/
structure IsName (s : String) : Prop where
  unbroken : Unbroken s
  noDot : '.' ∉ s.toList

theorem IsName.of_isWord {s : String} (h : Source.isWord s.toList) : IsName s := by
  have hchars : ∀ c ∈ s.toList, Source.isWordChar c := fun _ => Source.isWordChar_of_mem h
  refine ⟨fun c hc => ?_, fun hdot => absurd (hchars '.' hdot) (by decide)⟩
  by_contra hmark
  have hchar := hchars c hc
  rcases mark_cases hmark with rfl | rfl | rfl <;> exact absurd hchar (by decide)

/-- The texts of an import can be told from what stands around them. -/
structure Import.Unbroken (i : Import) : Prop where
  source : Catena.Unbroken i.source
  targets : ∀ target ∈ i.targets, Catena.Unbroken target
  rename : ∀ name ∈ i.rename, Catena.Unbroken name

/-! ## Nodes of a text -/

/-- A token of the given kind, with a lexeme of its class. -/
structure Token.Spells (t : Token) (kind : TokenKind) : Prop where
  kind_eq : t.kind = kind
  inClass : Source.InClass kind t.lexeme.toList

/-- A node whose tokens spell what it is. -/
def Node.Textual {ι : Type} : Node ι → Prop
  | .literal m value => m.token.Spells (.literal value)
  | .arithmetic m op => m.token.Spells (.symbol op.symbol)
  | .comparison m op => m.token.Spells (.symbol op.symbol)
  | .condition m form => m.token.Spells (.symbol form.symbol)
  | .sequence m _ _ => m.token.Spells (.symbol .leftBrace)
  | .definition m signature _ => m.token.Spells .identifier ∧ signature.name = m.token.lexeme
  | .identifier m qualifier name =>
    m.token.Spells .identifier ∧ name = m.token.lexeme ∧ ∀ t ∈ qualifier, t.Spells .identifier
  | .importing m request => m.token.Spells (.keyword .importWord) ∧ request.Unbroken
  | .binding m name _ => m.token.Spells .identifier ∧ name = m.token.lexeme
  | .array m _ => m.token.Spells (.symbol .leftBracket)
  | .program _ _ _ => False

namespace Token.Spells

variable {t : Token}

theorem isName (h : t.Spells .identifier) : IsName t.lexeme :=
  .of_isWord h.inClass.1

theorem lexeme_symbol {s : Symbol} (h : t.Spells (.symbol s)) : t.lexeme = s.text :=
  String.toList_inj.1 h.inClass

theorem lexeme_boolean {b : Bool} (h : t.Spells (.literal (.boolean b))) :
    t.lexeme = booleanText b :=
  String.toList_inj.1 h.inClass

theorem lexeme_string {s : String} (h : t.Spells (.literal (.string s))) :
    ∃ content, t.lexeme.toList = '"' :: content ++ ['"'] ∧ '"' ∉ content := by
  obtain ⟨content, hlexeme, hcontent, _⟩ := h.inClass
  exact ⟨content, hlexeme, hcontent⟩

end Token.Spells

namespace Tree

section Lexemes

variable {tokens : List Token}
  (h : ∀ t ∈ tokens, Source.InClass t.kind t.lexeme.toList)

include h

theorem spells {α : Type} {kind : α → TokenKind} (s : Spelled kind) (hs : s.token ∈ tokens) :
    s.token.Spells (kind s.value) :=
  ⟨s.spelled, s.spelled ▸ h s.token hs⟩

theorem Place.unbroken_source (p : Place) (hp : p.tokens ⊆ tokens) : Unbroken p.source := by
  cases p with
  | bare less name greater => exact (spells h name (hp (by simp [Place.tokens]))).isName.unbroken
  | file path => exact unbroken_of_importChars path.value.2.2

theorem Targets.unbroken_texts (t : Targets) (ht : t.tokens ⊆ tokens) :
    ∀ target ∈ t.texts, Unbroken target := by
  cases t with
  | star token =>
    intro target htarget
    obtain rfl := List.mem_singleton.1 htarget
    exact unbroken_of_all (by decide)
  | names list =>
    intro target htarget
    obtain ⟨item, hitem, rfl⟩ := List.mem_map.1 htarget
    refine (spells h item (ht (List.mem_append_left _ ?_))).isName.unbroken
    rcases List.mem_cons.1 hitem with rfl | hitem
    · exact List.mem_cons_self
    · obtain ⟨⟨comma, item⟩, hmore, rfl⟩ := List.mem_map.1 hitem
      exact List.mem_cons_of_mem _ (List.mem_flatMap.2 ⟨_, hmore, by simp⟩)

theorem Request.unbroken_import (r : Request) (hr : r.tokens ⊆ tokens) : r.import.Unbroken := by
  cases r with
  | whole place =>
    exact ⟨place.unbroken_source h hr, by simp [Request.import], by simp [Request.import]⟩
  | taking targets word place rename single =>
    refine ⟨place.unbroken_source h fun t ht => hr (by simp [Request.tokens, ht]),
      targets.unbroken_texts h fun t ht => hr (by simp [Request.tokens, ht]), ?_⟩
    intro name hname
    obtain ⟨r, rfl, rfl⟩ := Option.map_eq_some_iff.1 hname
    exact (spells h r.name (hr (by simp [Request.tokens, Renaming.tokens]))).isName.unbroken

theorem Phrase.textual (p : Phrase) (hp : p.tokens ⊆ tokens) : p.node.Textual := by
  cases p with
  | binding visibility word name =>
    exact ⟨spells h name (hp (by simp [Phrase.tokens])), rfl⟩
  | literal value => exact spells h value (hp (by simp [Phrase.tokens]))
  | arithmetic op => exact spells h op (hp (by simp [Phrase.tokens]))
  | condition form => exact spells h form (hp (by simp [Phrase.tokens]))
  | comparison op => exact spells h op (hp (by simp [Phrase.tokens]))
  | name name =>
    exact ⟨spells h name (hp (by simp [Phrase.tokens])), rfl, fun t ht => by cases ht⟩
  | member qualifier dot name =>
    refine ⟨spells h name (hp (by simp [Phrase.tokens])), rfl, ?_⟩
    rintro t ht
    cases ht
    exact spells h qualifier (hp (by simp [Phrase.tokens]))
  | importing word request =>
    exact ⟨spells h word (hp (by simp [Phrase.tokens])),
      request.unbroken_import h fun t ht => hp (by simp [Phrase.tokens, ht])⟩
  | array opening items closing => exact spells h opening (hp (by simp [Phrase.tokens]))

theorem Head.textual (head : Head) (body : List (Node Unit)) (hhead : head.tokens ⊆ tokens) :
    (head.node body).Textual := by
  cases head with
  | sequence brace => exact spells h brace (hhead (by simp [Head.tokens]))
  | function visibility word name conditions brace =>
    exact ⟨spells h name (hhead (by simp [Head.tokens])), rfl⟩

end Lexemes

/-- **The tokens of what was read spell what it is.** -/
theorem allIn_textual_of_ofSource {name source : String} {p : Program Unit}
    (h : ofSource name source = .ok p) : Node.AllIn Node.Textual p.nodes := by
  let P : List Token → Node Unit → Prop := fun tokens node =>
    (∀ t ∈ tokens, Source.InClass t.kind t.lexeme.toList) → node.Textual
  obtain ⟨scanned, hscan, hall⟩ := allIn_of_ofSource h (P := P)
    (fun tokens p hp hclass => p.textual hclass hp.subset)
    (fun tokens head body hhead hclass => head.textual hclass body hhead.subset)
  exact hall.mono fun node hnode => hnode fun t ht => Source.inClass_of_mem_scan hscan ht

end Tree

end Catena

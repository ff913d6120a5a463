import Catena.Proofs.Source.Seam
import Catena.Proofs.Tree.Likeness
import Catena.Proofs.Tree.Recognition

/-!
# Trees of texts one after the other

A derivation says nothing about what comes before and after it, so the nodes of two texts one after the
other are those of the first and those of the second (`Derivation.append`). The tokens of the second are
further down in the whole, which changes its nodes in nothing but places (`Derivation.down`).

So a text, a line feed and another text are read as the trees of both (`ofSource_seam`), unless the
first ends inside a comment.
-/

namespace Catena

/-! ## Further down -/

/-- The same place in a text that has `k` more lines above it. -/
def Position.down (k : Nat) (p : Position) : Position :=
  ⟨p.line + k, p.character⟩

/-- The same token in a text that has `k` more lines above it. -/
def Token.down (k : Nat) (t : Token) : Token :=
  { t with position := t.position.down k }

namespace Source

/-- Places after a line feed, counted from there. -/
theorem placeAfter_seam (before cs : List Char) :
    placeAfter (before ++ '\n' :: cs) = (placeAfter cs).down (before.count '\n' + 1) := by
  unfold placeAfter Position.down
  have hline : 1 + (before ++ '\n' :: cs).count '\n' =
      1 + cs.count '\n' + (before.count '\n' + 1) := by
    rw [List.count_append, List.count_cons_self]
    omega
  have hcharacter : (before ++ '\n' :: cs).reverse.takeWhile (· != '\n') =
      cs.reverse.takeWhile (· != '\n') := by
    rw [List.reverse_append, List.reverse_cons, List.append_assoc, List.singleton_append,
      List.takeWhile_append]
    split
    · next hwhole =>
      have hnone := (List.takeWhile_prefix _).eq_of_length hwhole
      rw [hnone, List.takeWhile_cons_of_neg (by decide), List.append_nil]
    · rfl
  rw [hline, hcharacter]

theorem tokens_placed_seam (before cs : List Char) (ps : List Piece) :
    (placed (before ++ '\n' :: cs) ps).filterMap token? =
      ((placed cs ps).filterMap token?).map (Token.down (before.count '\n' + 1)) := by
  induction ps generalizing cs with
  | nil => rfl
  | cons p ps ih =>
    have hrest := ih (cs ++ p.text)
    rw [placed, placed, List.append_assoc, List.cons_append, placeAfter_seam]
    cases p with
    | token kind text => exact congrArg (List.cons _) hrest
    | gap | malformed | stray | openString => exact hrest

theorem placed_append (before : List Char) (ps qs : List Piece) :
    placed before (ps ++ qs) = placed before ps ++ placed (before ++ textOf ps) qs := by
  induction ps generalizing before with
  | nil => simp [placed, textOf]
  | cons p ps ih =>
    rw [List.cons_append, placed, placed, ih, List.append_assoc]
    rfl

/-- A comment between marks has its closing mark. -/
def Piece.Closed : Piece → Prop
  | .gap text => ['/', '*'] <+: text → ['*', '/'] <:+: text.drop 2
  | _ => True

instance : DecidablePred Piece.Closed
  | .gap text => inferInstanceAs (Decidable (['/', '*'] <+: text → ['*', '/'] <:+: text.drop 2))
  | .token .. | .malformed _ | .stray _ | .openString _ => isTrue trivial

/-- No comment of a text is left open at its end. -/
def ClosesComments (source : String) : Prop :=
  ∀ p ∈ pieces source.toList, p.Closed

instance (source : String) : Decidable (ClosesComments source) :=
  inferInstanceAs (Decidable (∀ p ∈ pieces source.toList, p.Closed))

/-- **Two texts with a line feed between them are scanned one after the other.** -/
theorem scan_seam {a b : String} {scanned scanned' : Scanned} (ha : scan a = .ok scanned)
    (hclosed : ClosesComments a) (hb : scan b = .ok scanned') :
    ∃ whole, scan (a ++ "\n" ++ b) = .ok whole ∧ whole.tokens =
      scanned.tokens ++ scanned'.tokens.map (Token.down (a.toList.count '\n' + 1)) := by
  obtain ⟨ps, hps, htext, hsound, htokens⟩ := laid_of_scan ha
  obtain ⟨qs, hqs, htext', hsound', htokens'⟩ := laid_of_scan hb
  have hpieces : ps = pieces a.toList :=
    hps.unique (laid_pieces a.toList) (htext.trans (pieces_text _).symm)
  have hends : ∀ p ∈ ps, p.EndsBefore '\n' := by
    intro p hp
    cases p with
    | gap text => exact ⟨fun _ => rfl, hclosed (.gap text) (hpieces ▸ hp)⟩
    | token => exact trivial
    | malformed | stray | openString => exact hsound _ hp
  have hwhole : textOf (ps ++ .gap ['\n'] :: qs) = (a ++ "\n" ++ b).toList := by
    rw [textOf_append, htext, String.toList_append, String.toList_append, List.append_assoc, ← htext']
    rfl
  refine ⟨_, scan_of_laid (hps.seam (by decide) hends hqs) hwhole ?_, ?_⟩
  · exact List.forall_mem_append.2 ⟨hsound, List.forall_mem_cons.2 ⟨trivial, hsound'⟩⟩
  · dsimp only
    rw [placed_append, List.filterMap_append, htokens, htokens', List.nil_append, htext]
    exact congrArg (List.append _) (tokens_placed_seam a.toList [] qs)

end Source

namespace Tree

/-! ## Derivations further down -/

section Leaves

variable {α : Type} {kind : α → TokenKind} (k : Nat)

def Spelled.down (s : Spelled kind) : Spelled kind :=
  { s with token := s.token.down k }

def Separated.down (s : Separated kind) : Separated kind where
  first := s.first.down k
  more := s.more.map fun (comma, item) => (comma.down k, item.down k)

def Listed.down (l : Listed kind) : Listed kind where
  list := l.list.down k
  dangling := l.dangling.map (Spelled.down k)

theorem optional_down {kind : TokenKind} (o : Option (Terminal kind)) :
    optional (o.map (Spelled.down k)) = (optional o).map (Token.down k) := by
  cases o <;> rfl

theorem Separated.tokens_down (s : Separated kind) :
    (s.down k).tokens = s.tokens.map (Token.down k) := by
  obtain ⟨first, more⟩ := s
  refine congrArg (List.cons (first.token.down k)) ?_
  show (more.map _).flatMap _ = (more.flatMap _).map _
  rw [List.flatMap_map, List.map_flatMap]
  rfl

theorem Separated.items_down (s : Separated kind) :
    (s.down k).items = s.items.map (Spelled.down k) := by
  obtain ⟨first, more⟩ := s
  refine congrArg (List.cons (first.down k)) ?_
  show (more.map _).map _ = (more.map _).map _
  rw [List.map_map, List.map_map]
  rfl

theorem Listed.tokens_down (l : Listed kind) : (l.down k).tokens = l.tokens.map (Token.down k) := by
  unfold Listed.tokens Listed.down
  rw [List.map_append, Separated.tokens_down, optional_down]

theorem Separated.values_down (s : Separated kind) :
    (s.down k).items.map (·.value) = s.items.map (·.value) := by
  rw [Separated.items_down, List.map_map]
  rfl

theorem Separated.lexemes_down (s : Separated kind) :
    (s.down k).items.map (·.token.lexeme) = s.items.map (·.token.lexeme) := by
  rw [Separated.items_down, List.map_map]
  rfl

end Leaves

section Parts

variable (k : Nat)

def Types.down : Types → Types
  | void word => .void (word.down k)
  | list types => .list (types.down k)

theorem Types.tokens_down (t : Types) : (t.down k).tokens = t.tokens.map (Token.down k) := by
  cases t with
  | void word => rfl
  | list types => exact types.tokens_down k

theorem Types.conditions_down (t : Types) : (t.down k).conditions = t.conditions := by
  cases t with
  | void word => rfl
  | list types => exact congrArg List.reverse (types.values_down k)

def Conditions.down (c : Conditions) : Conditions where
  opening := c.opening.down k
  pre := c.pre.down k
  arrow := c.arrow.down k
  post := c.post.down k
  closing := c.closing.down k

theorem Conditions.tokens_down (c : Conditions) :
    (c.down k).tokens = c.tokens.map (Token.down k) := by
  unfold Conditions.tokens Conditions.down
  simp only [Types.tokens_down, List.map_append, List.map_cons, List.map_nil]
  rfl

theorem signature_down (name : Ident) (isPublic : Bool) (conditions : Option Conditions) :
    signature (name.down k) isPublic (conditions.map (Conditions.down k)) =
      signature name isPublic conditions := by
  cases conditions with
  | none => rfl
  | some c =>
    unfold signature
    simp only [Option.map_some, Option.getD_some, Conditions.down, Types.conditions_down]
    rfl

def Head.down : Head → Head
  | sequence brace => .sequence (brace.down k)
  | function visibility word name conditions brace =>
    .function (visibility.map (Spelled.down k)) (word.down k) (name.down k)
      (conditions.map (Conditions.down k)) (brace.down k)

theorem Head.tokens_down (h : Head) : (h.down k).tokens = h.tokens.map (Token.down k) := by
  cases h with
  | sequence brace => rfl
  | function visibility word name conditions brace =>
    have hconditions : ((conditions.map (Conditions.down k)).map (·.tokens)).getD [] =
        ((conditions.map (·.tokens)).getD []).map (Token.down k) := by
      cases conditions with
      | none => rfl
      | some c => exact c.tokens_down k
    simp only [Head.down, Head.tokens, optional_down, hconditions, List.map_append, List.map_cons,
      List.map_nil]
    rfl

def Place.down : Place → Place
  | bare less name greater => .bare (less.down k) (name.down k) (greater.down k)
  | file path => .file (path.down k)

theorem Place.tokens_down (p : Place) : (p.down k).tokens = p.tokens.map (Token.down k) := by
  cases p <;> rfl

theorem Place.source_down (p : Place) : (p.down k).source = p.source := by
  cases p <;> rfl

def Targets.down : Targets → Targets
  | star token => .star (token.down k)
  | names list => .names (list.down k)

theorem Targets.tokens_down (t : Targets) : (t.down k).tokens = t.tokens.map (Token.down k) := by
  cases t with
  | star token => rfl
  | names list => exact list.tokens_down k

theorem Targets.texts_down (t : Targets) : (t.down k).texts = t.texts := by
  cases t with
  | star token => rfl
  | names list => exact list.list.lexemes_down k

def Renaming.down (r : Renaming) : Renaming where
  word := r.word.down k
  name := r.name.down k

def Request.down : Request → Request
  | whole place => .whole (place.down k)
  | taking targets word place rename single =>
    .taking (targets.down k) (word.down k) (place.down k) (rename.map (Renaming.down k)) (by
      intro hrename
      rw [Option.isSome_map] at hrename
      unfold Targets.IsSingle
      rw [Targets.texts_down]
      exact single hrename)

theorem Request.tokens_down (r : Request) : (r.down k).tokens = r.tokens.map (Token.down k) := by
  cases r with
  | whole place => exact place.tokens_down k
  | taking targets word place rename single =>
    have hrename : ((rename.map (Renaming.down k)).map (·.tokens)).getD [] =
        ((rename.map (·.tokens)).getD []).map (Token.down k) := by
      cases rename <;> rfl
    simp only [Request.down, Request.tokens, Targets.tokens_down, Place.tokens_down, hrename,
      List.map_append, List.map_cons]
    rfl

theorem Request.import_down (r : Request) : (r.down k).import = r.import := by
  cases r with
  | whole place => exact congrArg (fun source => Import.mk source [] none) (place.source_down k)
  | taking targets word place rename single =>
    simp only [Request.down, Request.import, Place.source_down, Targets.texts_down, Option.map_map]
    rfl

end Parts

section Nodes

variable (k : Nat)

def Phrase.down : Phrase → Phrase
  | binding visibility word ident =>
    .binding (visibility.map (Spelled.down k)) (word.down k) (ident.down k)
  | literal value => .literal (value.down k)
  | arithmetic op => .arithmetic (op.down k)
  | condition form => .condition (form.down k)
  | comparison op => .comparison (op.down k)
  | name ident => .name (ident.down k)
  | member qualifier dot ident => .member (qualifier.down k) (dot.down k) (ident.down k)
  | importing word request => .importing (word.down k) (request.down k)
  | array opening items closing =>
    .array (opening.down k) (items.map (Listed.down k)) (closing.down k)

theorem Phrase.tokens_down (p : Phrase) : (p.down k).tokens = p.tokens.map (Token.down k) := by
  cases p with
  | binding visibility word name =>
    simp only [Phrase.down, Phrase.tokens, optional_down, List.map_append, List.map_cons,
      List.map_nil]
    rfl
  | importing word request =>
    exact congrArg (List.cons (word.token.down k)) (request.tokens_down k)
  | array opening items closing =>
    have hitems : ((items.map (Listed.down k)).map (·.tokens)).getD [] =
        ((items.map (·.tokens)).getD []).map (Token.down k) := by
      cases items with
      | none => rfl
      | some list => exact list.tokens_down k
    simp only [Phrase.down, Phrase.tokens, hitems, List.map_append, List.map_cons, List.map_nil]
    rfl
  | literal | arithmetic | condition | comparison | name | member => rfl

theorem like_down (m : Mark Unit) :
    Mark.Like (.spelling : Likeness Unit Unit) m ⟨(), m.token.down k⟩ :=
  ⟨trivial, trivial, rfl⟩

/-- The node of a phrase changes in nothing but places. -/
theorem Phrase.same_down (p : Phrase) : p.node.Same (p.down k).node := by
  cases p with
  | binding visibility word name =>
    have hpublic : (visibility.map (Spelled.down k)).isSome = visibility.isSome := Option.isSome_map
    simp only [Phrase.down, Phrase.node, hpublic]
    exact .binding (like_down k _) _ rfl
  | literal value => exact .literal (like_down k _) _
  | arithmetic op => exact .arithmetic (like_down k _) _
  | condition form => exact .condition (like_down k _) _
  | comparison op => exact .comparison (like_down k _) _
  | name ident => exact .use (like_down k _) rfl
  | member qualifier dot name =>
    have hlexeme : (qualifier.token.down k).lexeme = qualifier.token.lexeme := rfl
    exact .member (like_down k _) hlexeme trivial rfl
  | importing word request =>
    simp only [Phrase.down, Phrase.node, Request.import_down]
    exact .importing (like_down k _) _
  | array opening items closing =>
    have hitems : ((items.map (Listed.down k)).map (·.list.items.map (·.value))).getD [] =
        (items.map (·.list.items.map (·.value))).getD [] := by
      cases items with
      | none => rfl
      | some list => exact list.list.values_down k
    simp only [Phrase.down, Phrase.node, hitems]
    exact .array (like_down k _) _

theorem Head.same_down (h : Head) {body body' : List (Node Unit)}
    (hbody : List.Forall₂ Node.Same body body') : (h.node body).Same ((h.down k).node body') := by
  cases h with
  | sequence brace => exact .sequence (like_down k _) trivial hbody
  | function visibility word name conditions brace =>
    have hpublic : (visibility.map (Spelled.down k)).isSome = visibility.isSome := Option.isSome_map
    simp only [Head.down, Head.node, hpublic, signature_down]
    exact .definition (like_down k _) _ hbody

def Derivation.down : Derivation → Derivation
  | nil => .nil
  | phrase first rest => .phrase (first.down k) (Derivation.down rest)
  | block head body brace rest =>
    .block (head.down k) (Derivation.down body) (brace.down k) (Derivation.down rest)

theorem Derivation.tokens_down (d : Derivation) :
    (d.down k).tokens = d.tokens.map (Token.down k) := by
  induction d with
  | nil => rfl
  | phrase first rest ih =>
    simp only [Derivation.down, Derivation.tokens, Phrase.tokens_down, ih, List.map_append]
  | block head body brace rest ihbody ihrest =>
    simp only [Derivation.down, Derivation.tokens, Head.tokens_down, ihbody, ihrest, List.map_append,
      List.map_cons]
    rfl

theorem Derivation.same_down (d : Derivation) : List.Forall₂ Node.Same d.nodes (d.down k).nodes := by
  induction d with
  | nil => exact .nil
  | phrase first rest ih => exact .cons (first.same_down k) ih
  | block head body brace rest ihbody ihrest => exact .cons (head.same_down k ihbody) ihrest

end Nodes

/-! ## One after the other -/

def Derivation.append : Derivation → Derivation → Derivation
  | nil, e => e
  | phrase first rest, e => .phrase first (rest.append e)
  | block head body brace rest, e => .block head body brace (rest.append e)

theorem Derivation.tokens_append (d e : Derivation) : (d.append e).tokens = d.tokens ++ e.tokens := by
  induction d with
  | nil => rfl
  | phrase first rest ih =>
    simp only [Derivation.append, Derivation.tokens, ih, List.append_assoc]
  | block head body brace rest _ ih =>
    simp only [Derivation.append, Derivation.tokens, ih, List.append_assoc, List.cons_append]

theorem Derivation.nodes_append (d e : Derivation) : (d.append e).nodes = d.nodes ++ e.nodes := by
  induction d with
  | nil => rfl
  | phrase first rest ih => exact congrArg (List.cons _) ih
  | block head body brace rest _ ih => exact congrArg (List.cons _) ih

/-- **Two texts with a line feed between them are read one after the other**: the nodes of the second
change in nothing but places. -/
theorem ofSource_seam {name a b : String} {p q : Program Unit} (ha : ofSource name a = .ok p)
    (hclosed : Source.ClosesComments a) (hb : ofSource name b = .ok q) :
    ∃ nodes, ofSource name (a ++ "\n" ++ b) = .ok { p with nodes := p.nodes ++ nodes } ∧
      List.Forall₂ Node.Same q.nodes nodes := by
  obtain ⟨scanned, d, hscan, htokens, rfl⟩ := derivation_of_ofSource ha
  obtain ⟨scanned', e, hscan', htokens', rfl⟩ := derivation_of_ofSource hb
  obtain ⟨whole, hwhole, hall⟩ := Source.scan_seam hscan hclosed hscan'
  let k := a.toList.count '\n' + 1
  have hderived : (d.append (e.down k)).tokens = whole.tokens := by
    rw [Derivation.tokens_append, Derivation.tokens_down, htokens, htokens', hall]
  refine ⟨(e.down k).nodes, ?_, e.same_down k⟩
  rw [ofSource_of_derivation hwhole hderived, Derivation.nodes_append]

end Tree

end Catena

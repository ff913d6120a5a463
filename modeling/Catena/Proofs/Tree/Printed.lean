import Catena.Proofs.Tree.Outline

/-!
# The printed form of a program

Every node ends with a closing parenthesis at the end of its line, so of the lines of a program only the
last line feed is trimmed (`Program.printed_eq_render`), and the printed forms of two lists of nodes go
together with a line feed between them (`Program.render_append`). What is trimmed can be put back, so
two programs that were read are printed the same exactly if their nodes are alike
(`Tree.render_determines`).
-/

namespace Catena

open Catena.Text

variable {ι ι' : Type}

namespace Node

/-! ## The end of an outline -/

/-- What is printed of some nodes, before it is trimmed. -/
def printed (tab : String) (nodes : List (Node ι)) : String :=
  String.join ((outlineAll 0 nodes).map (OutlineLine.render tab))

/-- The node is no program whose nodes are printed in its place. Neither reading nor linking puts such a
program into a tree. -/
def IsPrinted : Node ι → Prop
  | .program _ info _ => info.isRoot = false
  | _ => True

theorem outlineAll_append (d : Nat) (a b : List (Node ι)) :
    outlineAll d (a ++ b) = outlineAll d a ++ outlineAll d b := by
  induction a with
  | nil => rfl
  | cons n a ih => rw [List.cons_append, outlineAll, outlineAll, ih, List.append_assoc]

theorem printed_append (tab : String) (a b : List (Node ι)) :
    printed tab (a ++ b) = printed tab a ++ printed tab b := by
  rw [printed, outlineAll_append, List.map_append, String.join_append]
  rfl

/-- The last line of a node ends with a closing parenthesis. -/
theorem exists_last_outline (d : Nat) {n : Node ι} (h : n.IsPrinted) :
    ∃ lines text, outline d n = lines ++ [⟨d, text ++ ")"⟩] := by
  have hwrapped : ∀ heading body, ∃ lines text,
      wrapped d heading body = lines ++ [⟨d, text ++ ")"⟩] := fun _ _ => ⟨_, "", rfl⟩
  have hline : ∀ text, ∃ lines text', [line d text] = lines ++ [⟨d, text' ++ ")"⟩] :=
    fun text => ⟨[], "(" ++ text, rfl⟩
  cases n with
  | sequence m block body => exact hwrapped _ _
  | definition m signature body => exact hwrapped _ _
  | importing m request => exact hwrapped _ _
  | program m info nodes =>
    have hmodule : ¬info.isRoot = true := Bool.not_eq_true _ ▸ h
    rw [outline, if_neg hmodule]
    exact hwrapped _ _
  | identifier m qualifier name => cases qualifier <;> exact hline _
  | _ => exact hline _

theorem exists_printed (tab : String) {nodes : List (Node ι)} (hne : nodes ≠ [])
    (h : ∀ n ∈ nodes, n.IsPrinted) : ∃ text, printed tab nodes = text ++ ")" ++ "\n" := by
  rcases List.eq_nil_or_concat nodes with rfl | ⟨init, last, rfl⟩
  · exact absurd rfl hne
  rw [List.concat_eq_append] at h ⊢
  obtain ⟨lines, text, hlast⟩ := exists_last_outline 0 (h last (by simp))
  refine ⟨printed tab init ++ String.join (lines.map (OutlineLine.render tab)) ++ text, ?_⟩
  rw [printed_append, printed, printed, outlineAll, outlineAll, List.append_nil, hlast]
  simp [OutlineLine.render, String.join_append, String.append_assoc]

end Node

/-- Of a text that ends with a closing parenthesis and a line feed only the line feed is trimmed. -/
theorem trimEnd_line (text : String) : trimEnd (text ++ ")" ++ "\n") = text ++ ")" := by
  have hline : isBlank '\n' = true := by decide
  have hparen : isBlank ')' = false := by decide
  apply String.toList_inj.1
  simp [trimEnd, dropEndWhile, hline, hparen]

namespace Program

theorem render_root (tab : String) {info : ProgramInfo} (h : info.isRoot = true)
    (nodes : List (Node ι)) : render tab ⟨info, nodes⟩ = trimEnd (Node.printed tab nodes) := by
  rw [render, outline, if_pos h]
  rfl

variable {tab : String} {info : ProgramInfo} (hroot : info.isRoot = true)

include hroot

/-- **Nothing but the final line feed is trimmed.** -/
theorem printed_eq_render {nodes : List (Node ι)} (hne : nodes ≠ [])
    (h : ∀ n ∈ nodes, n.IsPrinted) :
    Node.printed tab nodes = render tab ⟨info, nodes⟩ ++ "\n" := by
  obtain ⟨text, htext⟩ := Node.exists_printed tab hne h
  rw [render_root tab hroot, htext, trimEnd_line]

theorem render_append {a b : List (Node ι)} (ha : a ≠ []) (hb : b ≠ [])
    (hprinted : ∀ n ∈ a ++ b, n.IsPrinted) :
    render tab ⟨info, a ++ b⟩ = render tab ⟨info, a⟩ ++ "\n" ++ render tab ⟨info, b⟩ := by
  obtain ⟨hprinted, hprinted'⟩ := List.forall_mem_append.1 hprinted
  obtain ⟨text, htext⟩ := Node.exists_printed tab hb hprinted'
  rw [← printed_eq_render hroot ha hprinted, render_root tab hroot, render_root tab hroot b,
    Node.printed_append, htext, trimEnd_line, ← String.append_assoc, ← String.append_assoc,
    trimEnd_line, String.append_assoc]

end Program

namespace Node

/-! ## Nodes that are alike are printed the same -/

theorem outline_literal_eq {v v' : Literal} (h : v.ShownLike v') : v.outline = v'.outline := by
  cases h with
  | number shown => exact shown
  | string | boolean => rfl

theorem outlines_eq {items items' : List Literal} (h : List.Forall₂ Literal.ShownLike items items') :
    items.map Literal.outline = items'.map Literal.outline := by
  induction h with
  | nil => rfl
  | cons hfirst _ ih => rw [List.map_cons, List.map_cons, outline_literal_eq hfirst, ih]

mutual

theorem outline_eq_of_shownLike (d : Nat) : {n : Node ι} → {n' : Node ι'} → n.ShownLike n' →
    outline d n = outline d n'
  | _, _, .number kind kind' shown => by
    rw [outline, outline, kind, kind']
    exact congrArg (fun text => [line d ("NUMBER_LITERAL" ++ " " ++ text)]) shown
  | _, _, .literal token value => by
    obtain ⟨hkind, hlexeme⟩ := Prod.mk.inj token
    rw [outline, outline, hkind]
    cases value with
    | string s => rw [literalText, literalText, hlexeme]
    | number | boolean => rfl
  | _, _, .arithmetic token _ | _, _, .comparison token _ => by
    obtain ⟨hkind, hlexeme⟩ := Prod.mk.inj token
    rw [outline, outline, hkind, hlexeme]
  | _, _, .condition token _ => by rw [outline, outline, (Prod.mk.inj token).1]
  | _, _, .sequence token hbody => by
    rw [outline, outline, (Prod.mk.inj token).1, outlineAll_eq_of_shownLike (d + 1) hbody]
  | _, _, .definition _ hname hbody => by
    rw [outline, outline, hname, outlineAll_eq_of_shownLike (d + 2) hbody]
  | _, _, @ShownLike.identifier _ _ _ _ token qualifier qualifier' hqualifier _ => by
    cases qualifier with
    | none =>
      obtain rfl := Option.map_eq_none_iff.1 hqualifier.symm
      rw [outline, outline, (Prod.mk.inj token).1]
    | some t =>
      obtain ⟨t', rfl, ht⟩ := Option.map_eq_some_iff.1 hqualifier.symm
      rw [outline, outline, (Prod.mk.inj token).1, (Prod.mk.inj ht).2]
  | _, _, .importing _ _ | _, _, .binding _ _ _ _ => by rw [outline, outline]
  | _, _, .array _ hitems => by rw [outline, outline, outlines_eq hitems]

theorem outlineAll_eq_of_shownLike (d : Nat) : {code : List (Node ι)} → {code' : List (Node ι')} →
    List.Forall₂ ShownLike code code' → outlineAll d code = outlineAll d code'
  | _, _, .nil => rfl
  | _, _, .cons hfirst hrest => by
    rw [outlineAll, outlineAll, outline_eq_of_shownLike d hfirst, outlineAll_eq_of_shownLike d hrest]

end

end Node

/-! ## Programs -/

theorem Tree.isPrinted_of_ofSource {name source : String} {p : Program Unit}
    (h : ofSource name source = .ok p) : ∀ n ∈ p.nodes, n.IsPrinted := by
  intro n hn
  have htextual := ((allIn_textual_of_ofSource h).of_mem hn).self
  cases n with
  | program => exact htextual.elim
  | _ => trivial

theorem Tree.isRoot_of_ofSource {name source : String} {p : Program Unit}
    (h : ofSource name source = .ok p) : p.info.isRoot = true := by
  obtain ⟨scanned, d, -, -, rfl⟩ := derivation_of_ofSource h
  rfl

namespace Program

variable {tab : String} {info info' : ProgramInfo} {a : List (Node ι)} {b : List (Node ι')}

theorem render_eq_empty_iff (h : info.isRoot = true) (ha : ∀ n ∈ a, n.IsPrinted) :
    render tab ⟨info, a⟩ = "" ↔ a = [] := by
  constructor
  · intro hempty
    by_contra hne
    obtain ⟨text, htext⟩ := Node.exists_printed tab hne ha
    rw [render_root tab h, htext, trimEnd_line] at hempty
    simp at hempty
  · rintro rfl
    rw [render_root tab h]
    rfl

/-- The printed text tells what it was before it was trimmed. -/
theorem printed_eq_of_render_eq (h : info.isRoot = true) (h' : info'.isRoot = true)
    (ha : ∀ n ∈ a, n.IsPrinted) (hb : ∀ n ∈ b, n.IsPrinted)
    (heq : render tab ⟨info, a⟩ = render tab ⟨info', b⟩) :
    Node.printed tab a = Node.printed tab b := by
  by_cases hnil : a = []
  · have hempty := heq.symm.trans ((render_eq_empty_iff h ha).2 hnil)
    rw [hnil, (render_eq_empty_iff h' hb).1 hempty]
    rfl
  · have hne : b ≠ [] := by
      intro hnil'
      exact hnil ((render_eq_empty_iff h ha).1 (heq.trans ((render_eq_empty_iff h' hb).2 hnil')))
    rw [printed_eq_render h hnil ha, printed_eq_render h' hne hb, heq]

end Program

namespace Tree

/-- **The printed form of a program determines it**, up to tags, places, what is public, conditions, and
numbers that are shown the same: two texts are printed the same exactly if their nodes are alike. The
printed form of two lists of nodes is that of the first, a line feed, and that of the second; so nothing
but the final line feed is trimmed. -/
theorem render_determines :
    (∀ name name' source source' p p', ofSource name source = .ok p → ofSource name' source' = .ok p' →
      (p.render "\t" = p'.render "\t" ↔ List.Forall₂ Node.ShownLike p.nodes p'.nodes)) ∧
    ∀ (ι : Type) (tab : String) (info : ProgramInfo) (a b : List (Node ι)), info.isRoot = true →
      a ≠ [] → b ≠ [] → (∀ n ∈ a ++ b, n.IsPrinted) →
      Program.render tab ⟨info, a ++ b⟩ =
        Program.render tab ⟨info, a⟩ ++ "\n" ++ Program.render tab ⟨info, b⟩ ∧
      Node.printed tab (a ++ b) = Program.render tab ⟨info, a ++ b⟩ ++ "\n" := by
  refine ⟨fun name name' source source' p p' h h' => ⟨fun heq => ?_, fun hlike => ?_⟩, ?_⟩
  · have hprinted := Program.printed_eq_of_render_eq (isRoot_of_ofSource h) (isRoot_of_ofSource h')
      (isPrinted_of_ofSource h) (isPrinted_of_ofSource h') heq
    have hspell :
        spell (Node.outlineAll 0 p.nodes) ++ [] = spell (Node.outlineAll 0 p'.nodes) ++ [] := by
      rw [← toList_join_render, ← toList_join_render]
      exact congrArg (·.toList ++ []) hprinted
    exact (Node.shownLike_of_spellAll p.nodes (allIn_textual_of_ofSource h) (allIn_textual_of_ofSource h')
      (.inl rfl) (.inl rfl) hspell).1
  · have hlines := Node.outlineAll_eq_of_shownLike 0 hlike
    obtain ⟨info, nodes⟩ := p
    obtain ⟨info', nodes'⟩ := p'
    rw [Program.render_root _ (isRoot_of_ofSource h), Program.render_root _ (isRoot_of_ofSource h'),
      Node.printed, Node.printed, hlines]
  · intro ι tab info a b hroot ha hb hprinted
    have hne : a ++ b ≠ [] := fun hnil => ha (List.append_eq_nil_iff.1 hnil).1
    exact ⟨Program.render_append hroot ha hb hprinted, Program.printed_eq_render hroot hne hprinted⟩

/-- A text with a string that looks like the end of its block, and an array. -/
def decorated : String :=
  "public def f (num -> str) \x7b \")\n)\" [true, \"q\"] \x7d"

/-- The same without what is not printed, laid out differently. -/
def plain : String :=
  "def f\x7b\")\n)\"[true,\"q\",]\x7d//"

/-- What is printed of both. -/
def decoratedOutline : String :=
  "(DEF\n\t(IDENTIFIER f)\n\t\t(STRING_LITERAL \")\n)\")\n\t\t(ARRAY true \"q\")\n)"

theorem exists_of_render (name source : String) {text : String}
    (h : (ofSource name source).toOption.map (·.render "\t") = some text) :
    ∃ p, ofSource name source = .ok p ∧ p.render "\t" = text := by
  cases hread : ofSource name source with
  | error errors => rw [hread] at h; cases h
  | ok p =>
    rw [hread] at h
    exact ⟨p, rfl, Option.some.inj h⟩

theorem render_determines_decorated : ∃ p p', ofSource "main" decorated = .ok p ∧
    ofSource "other" plain = .ok p' ∧ p.render "\t" = p'.render "\t" ∧
    List.Forall₂ Node.ShownLike p.nodes p'.nodes ∧
    Program.render "\t" ⟨p.info, p.nodes ++ p'.nodes⟩ =
      Program.render "\t" ⟨p.info, p.nodes⟩ ++ "\n" ++ Program.render "\t" ⟨p.info, p'.nodes⟩ := by
  obtain ⟨p, hread, htext⟩ : ∃ p, ofSource "main" decorated = .ok p ∧
      p.render "\t" = decoratedOutline := exists_of_render _ _ (by decide +kernel)
  obtain ⟨p', hread', htext'⟩ : ∃ p', ofSource "other" plain = .ok p' ∧
      p'.render "\t" = decoratedOutline := exists_of_render _ _ (by decide +kernel)
  have hsame : p.render "\t" = p'.render "\t" := htext.trans htext'.symm
  have hne : ∀ {q : Program Unit} {name source : String}, ofSource name source = .ok q →
      q.render "\t" = decoratedOutline → q.nodes ≠ [] := by
    intro q name source hq htext hnil
    have hempty : q.render "\t" = "" :=
      (Program.render_eq_empty_iff (isRoot_of_ofSource hq) (isPrinted_of_ofSource hq)).2 hnil
    rw [htext] at hempty
    exact absurd hempty (by decide)
  have hprinted : ∀ n ∈ p.nodes ++ p'.nodes, n.IsPrinted :=
    List.forall_mem_append.2 ⟨isPrinted_of_ofSource hread, isPrinted_of_ofSource hread'⟩
  exact ⟨p, p', hread, hread', hsame,
    (render_determines.1 "main" "other" decorated plain p p' hread hread').1 hsame,
    (render_determines.2 Unit "\t" p.info p.nodes p'.nodes (isRoot_of_ofSource hread)
      (hne hread htext) (hne hread' htext') hprinted).1⟩

end Tree

end Catena

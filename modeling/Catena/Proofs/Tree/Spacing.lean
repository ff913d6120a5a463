import Catena.Proofs.Source.Seam
import Catena.Proofs.Tree.Places

/-!
# Layout is insignificant

No lexeme needs or gains meaning from what stands after it, as long as that is a blank. So the lexemes
of a text with single spaces between them are scanned as they were (`scan_spaced`), whatever stood
between them before; a string keeps the line feeds and the comment marks inside it.

A lexeme also tells what kind of token it is, so that texts with the same lexemes have the same tokens
but for their places. Since reading only hands places on, it either builds the same tree or refuses
both for the same reason (`sameReading_of_lexemes`).
-/

namespace Catena

namespace Source

open Catena.Text

/-- The lexemes of some tokens, with a space between each two. -/
def spaced (ts : List Token) : String :=
  String.intercalate " " (ts.map (·.lexeme))

/-- Lexemes with single spaces between them are laid out, and a space can follow each of them. -/
theorem exists_laid_intercalate {ls : List (TokenKind × String)}
    (h : ∀ l ∈ ls, InClass l.1 l.2.toList) :
    ∃ ps, Laid ps ∧ textOf ps = (String.intercalate " " (ls.map (·.2))).toList ∧
      (∀ p ∈ ps, p.IsSound ∧ p.EndsBefore ' ') ∧ ps.filterMap Piece.core? = ls := by
  induction ls with
  | nil => exact ⟨[], trivial, rfl, by simp, rfl⟩
  | cons l ls ih =>
    obtain ⟨hl, hls⟩ := List.forall_mem_cons.1 h
    obtain ⟨kind, text⟩ := l
    have hcore : ∀ ps : List Piece, (Piece.token kind text.toList :: ps).filterMap Piece.core? =
        (kind, text) :: ps.filterMap Piece.core? := by
      simp [Piece.core?, String.ofList_toList]
    cases ls with
    | nil =>
      refine ⟨[.token kind text.toList], hl.laid, by simp [textOf, Piece.text], ?_, hcore []⟩
      exact List.forall_mem_singleton.2 ⟨trivial, trivial⟩
    | cons next more =>
      obtain ⟨ps, hlaid, htext, hends, hps⟩ := ih hls
      have hspace : (Piece.gap [' ']).IsSound ∧ (Piece.gap [' ']).EndsBefore ' ' := by
        simp [Piece.IsSound, Piece.EndsBefore]
      refine ⟨.token kind text.toList :: .gap [' '] :: ps,
        hl.laid.seam (by decide) (by simp [Piece.EndsBefore]) hlaid, ?_, ?_, ?_⟩
      · rw [List.map_cons, List.map_cons, String.intercalate_cons_cons, String.toList_append,
          String.toList_append, List.append_assoc, ← List.map_cons, ← htext]
        rfl
      · exact List.forall_mem_cons.2 ⟨⟨trivial, trivial⟩, List.forall_mem_cons.2 ⟨hspace, hends⟩⟩
      · rw [hcore]
        exact congrArg (List.cons _) hps

variable {source : String} {scanned : Scanned}

theorem inClass_of_mem_core (h : scan source = .ok scanned) :
    ∀ l ∈ scanned.tokens.map core, InClass l.1 l.2.toList := by
  intro l hl
  obtain ⟨t, ht, rfl⟩ := List.mem_map.1 hl
  exact inClass_of_mem_scan h ht

theorem map_core_all (s : Scanned) : s.all.map core = s.tokens.map core ++ [(.endOfInput, "")] := by
  simp [Scanned.all, Scanned.endToken, Token.endOfInput, core]

/-- **Lexemes with single spaces between them are scanned as they were.** -/
theorem scan_spaced (h : scan source = .ok scanned) :
    ∃ again, scan (spaced scanned.tokens) = .ok again ∧ again.all.map core = scanned.all.map core := by
  obtain ⟨ps, hlaid, htext, hends, hcore⟩ := exists_laid_intercalate (inClass_of_mem_core h)
  have htext' : textOf ps = (spaced scanned.tokens).toList := by
    rw [htext, List.map_map]
    rfl
  refine ⟨_, scan_of_laid hlaid htext' fun p hp => (hends p hp).1, ?_⟩
  rw [map_core_all, map_core_all, map_core_placed, hcore]

/-- The token that ends a text has an empty lexeme, so that with it a space is left at the end. -/
theorem spaced_all {ts : List Token} (finish : Position) (h : ts ≠ []) :
    spaced (ts ++ [Token.endOfInput finish]) = spaced ts ++ " " := by
  unfold spaced
  rw [List.map_append, String.intercalate_append_of_ne_nil (by simpa using h) (by simp)]
  simp [Token.endOfInput]

theorem scan_spaced_all (h : scan source = .ok scanned) :
    ∃ again, scan (spaced scanned.all) = .ok again ∧ again.all.map core = scanned.all.map core := by
  by_cases hnil : scanned.tokens = []
  · have hspaced : spaced scanned.all = spaced scanned.tokens := by
      simp [spaced, Scanned.all, hnil, Scanned.endToken, Token.endOfInput]
    rw [hspaced]
    exact scan_spaced h
  · obtain ⟨ps, hlaid, htext, hends, hcore⟩ := exists_laid_intercalate (inClass_of_mem_core h)
    have hwhole : textOf (ps ++ [.gap [' ']]) = (spaced scanned.all).toList := by
      rw [Scanned.all, Scanned.endToken, spaced_all _ hnil, textOf_append, htext, List.map_map]
      simp [spaced, core, textOf, Piece.text, Function.comp_def]
    have hlaid' : Laid (ps ++ [.gap [' ']]) :=
      hlaid.seam (by decide) (fun p hp => (hends p hp).2) (show Laid [] from trivial)
    refine ⟨_, scan_of_laid hlaid' hwhole ?_, ?_⟩
    · exact List.forall_mem_append.2
        ⟨fun p hp => (hends p hp).1, List.forall_mem_singleton.2 trivial⟩
    · rw [map_core_all, map_core_all, map_core_placed, List.filterMap_append, hcore]
      simp [Piece.core?]

/-- **Texts with the same lexemes have the same tokens**, wherever these stand: a lexeme tells what
its token is. -/
theorem map_core_of_lexemes {ts us : List Token} (hts : ∀ t ∈ ts, InClass t.kind t.lexeme.toList)
    (hus : ∀ u ∈ us, InClass u.kind u.lexeme.toList)
    (h : ts.map (·.lexeme) = us.map (·.lexeme)) : ts.map core = us.map core := by
  induction ts generalizing us with
  | nil =>
    obtain rfl := List.map_eq_nil_iff.1 h.symm
    rfl
  | cons t ts ih =>
    obtain ⟨u, us, rfl, hlexeme, hrest⟩ := List.map_eq_cons_iff.1 h.symm
    obtain ⟨ht, hts⟩ := List.forall_mem_cons.1 hts
    obtain ⟨hu, hus⟩ := List.forall_mem_cons.1 hus
    rw [hlexeme] at hu
    rw [List.map_cons, List.map_cons, ih hts hus hrest.symm]
    exact congrArg (· :: _) (Prod.ext (ht.unique hu) hlexeme.symm)

end Source

namespace Tree

open Catena.Source

/-- Two readings that build programs that differ in nothing but places, or that both refuse for the
same reason. -/
inductive SameReading :
    Except (List Diagnostic) (Program Unit) → Except (List Diagnostic) (Program Unit) → Prop
  | refused (error : ParseError) (position position' : Position) :
    SameReading (.error [Diagnostic.located (.parse error) position])
      (.error [Diagnostic.located (.parse error) position'])
  | read {p p' : Program Unit} (same : p.unplaced = p'.unplaced) : SameReading (.ok p) (.ok p')

/-- The token that is and spells the given, at the start of a text. -/
def ofCore (l : TokenKind × String) : Token :=
  ⟨l.1, l.2, .start⟩

theorem map_unplaced (ts : List Token) :
    ts.map (Token.moved fun _ => .start) = (ts.map core).map ofCore := by
  rw [List.map_map]
  rfl

/-- Without places, blocks are read by what their tokens are and spell. -/
theorem movedNodes_readNodes_congr {sa sb : Scanned} (h : sa.tokens.map core = sb.tokens.map core) :
    movedNodes (fun _ => .start) (readNodes sa.finish [] [] sa.tokens) =
      movedNodes (fun _ => .start) (readNodes sb.finish [] [] sb.tokens) := by
  rw [← readNodes_moved, ← readNodes_moved, map_unplaced, map_unplaced, h]

theorem sameReading_of_lexemes (name : String) {a b : String} {sa sb : Scanned}
    (ha : scan a = .ok sa) (hb : scan b = .ok sb)
    (h : sa.tokens.map (·.lexeme) = sb.tokens.map (·.lexeme)) :
    SameReading (ofSource name a) (ofSource name b) := by
  have hcore : sa.tokens.map core = sb.tokens.map core :=
    map_core_of_lexemes (fun _ => inClass_of_mem_scan ha) (fun _ => inClass_of_mem_scan hb) h
  have hnodes := movedNodes_readNodes_congr hcore
  unfold ofSource
  rw [ha, hb]
  dsimp only [ofScanned]
  cases hreada : readNodes sa.finish [] [] sa.tokens with
  | error refusal =>
    cases hreadb : readNodes sb.finish [] [] sb.tokens with
    | error refusal' =>
      rw [hreada, hreadb] at hnodes
      obtain ⟨error, position⟩ := refusal
      obtain ⟨error', position'⟩ := refusal'
      obtain ⟨rfl, -⟩ := Refusal.mk.inj (Except.error.inj hnodes)
      exact .refused _ _ _
    | ok nodes' => rw [hreada, hreadb] at hnodes; cases hnodes
  | ok nodes =>
    cases hreadb : readNodes sb.finish [] [] sb.tokens with
    | error refusal' => rw [hreada, hreadb] at hnodes; cases hnodes
    | ok nodes' =>
      rw [hreada, hreadb] at hnodes
      refine .read ?_
      unfold Program.unplaced Program.moved
      dsimp only
      rw [Node.movedAll_eq_map, Node.movedAll_eq_map, Except.ok.inj hnodes]

/-- **Layout is insignificant.** The lexemes of a text, joined by single spaces, are scanned as they
were, with or without that of the token that ends the text; and texts with the same lexemes are read
the same, up to places. -/
theorem layout_insignificant :
    (∀ source scanned, scan source = .ok scanned →
      (∃ again, scan (spaced scanned.tokens) = .ok again ∧
        again.all.map core = scanned.all.map core) ∧
      ∃ again, scan (spaced scanned.all) = .ok again ∧
        again.all.map core = scanned.all.map core) ∧
    ∀ name a b sa sb, scan a = .ok sa → scan b = .ok sb →
      sa.tokens.map (·.lexeme) = sb.tokens.map (·.lexeme) →
      SameReading (ofSource name a) (ofSource name b) :=
  ⟨fun _ _ h => ⟨scan_spaced h, scan_spaced_all h⟩,
    fun name _ _ _ _ => sameReading_of_lexemes name⟩

theorem exists_scan_of_lexemes (source : String) {lexemes : List String}
    (h : (scan source).toOption.map (·.tokens.map (·.lexeme)) = some lexemes) :
    ∃ scanned, scan source = .ok scanned ∧ scanned.tokens.map (·.lexeme) = lexemes := by
  cases hscan : scan source with
  | error errors => rw [hscan] at h; cases h
  | ok scanned =>
    rw [hscan] at h
    exact ⟨scanned, rfl, Option.some.inj h⟩

/-- No blank stands where none has to, and a comment ends the text. -/
def crowded : String :=
  "def f\x7b\"a //\n\"??b.c\x7d//end"

/-- The same lexemes further apart. -/
def spread : String :=
  "def /* // */ f \x7b \"a //\n\" ?? b\n. c \x7d"

theorem layout_insignificant_crowded : ∃ sa sb, scan crowded = .ok sa ∧ scan spread = .ok sb ∧
    sa.tokens.map (·.lexeme) = ["def", "f", "\x7b", "\"a //\n\"", "??", "b", ".", "c", "\x7d"] ∧
    (∃ again, scan (spaced sa.tokens) = .ok again ∧ again.all.map core = sa.all.map core) ∧
    SameReading (ofSource "main" crowded) (ofSource "main" spread) := by
  have hcrowded : (scan crowded).toOption.map (·.tokens.map (·.lexeme)) =
      some ["def", "f", "\x7b", "\"a //\n\"", "??", "b", ".", "c", "\x7d"] := by decide +kernel
  have hspread : (scan spread).toOption.map (·.tokens.map (·.lexeme)) =
      some ["def", "f", "\x7b", "\"a //\n\"", "??", "b", ".", "c", "\x7d"] := by decide +kernel
  obtain ⟨sa, ha, hlexemes⟩ := exists_scan_of_lexemes crowded hcrowded
  obtain ⟨sb, hb, hlexemes'⟩ := exists_scan_of_lexemes spread hspread
  exact ⟨sa, sb, ha, hb, hlexemes, (layout_insignificant.1 crowded sa ha).1,
    layout_insignificant.2 "main" crowded spread sa sb ha hb (hlexemes.trans hlexemes'.symm)⟩

end Tree

end Catena

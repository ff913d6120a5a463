import Catena.Proofs.Evaluation.Locals
import Catena.Proofs.Linking.Alone
import Catena.Proofs.Source.Seam
import Catena.Session

/-!
# Sequences that leave their function

A sequence that is made in a function uses the function's locals under the names that carry the name
of the function, and these are looked up when the sequence is run, in the namespace that is current
then. Where that is the namespace of the function, the sequence finds the locals as the function left
them, however often it is run, and the names of the file itself are not disturbed
(`sequence_keeps_local`). In another file it finds what that file has bound under the same name, if
anything (`sequence_uses_current`): a sequence is code, and not a closure.
-/

namespace Catena

open Catena.Eval Linking

namespace Evaluation

/-! ## Code that is run node by node -/

section Nodes

variable {fuel : Nat} {n : Node NodeId} {rest : Code} {s t : Interpreter}

theorem exec_cons_done (h : (node fuel (exec fuel) n).run s = .done () t) :
    (exec (fuel + 1) (n :: rest)).run s = (exec (fuel + 1) rest).run t := by
  rw [exec_cons, Action.run_bind, step_of_done h]

theorem exec_nil : (exec (fuel + 1) []).run s = .done () s := rfl

theorem run_literal (m : Mark NodeId) (value : Literal) :
    (node fuel (exec fuel) (.literal m value)).run s =
      .done () { s with stack := s.stack.push (.literal value) } := rfl

theorem run_sequence (m : Mark NodeId) (block : NodeId) (body : Code) :
    (node fuel (exec fuel) (.sequence m block body)).run s =
      .done () { s with stack := s.stack.push (.sequence { block, body }) } := rfl

/-- A function without conditions can be called if there is room. -/
theorem callee?_of_lookUp {m : Mark NodeId} {qualifier : Option Token} {name : String} {f : Function}
    (hf : lookUp s qualifier (s.scopes.nameOf m.tag name) = .ok f) (hpre : f.pre = [])
    (hdepth : s.depth < s.maxDepth) : callee? s m qualifier name = some f := by
  rw [callee?_eq hf, hpre, requireShape_nil]
  simp only [Nat.not_le.2 hdepth, if_false]

/-- Runs code a number of times. -/
def execTimes (fuel : Nat) (code : Code) : Nat → Eval Unit
  | 0 => pure ()
  | k + 1 => do
    exec fuel code
    execTimes fuel code k

section Constant

variable {m : Mark NodeId} {x : String} {value : Value} {home : NamespaceId}

theorem exec_constant (hvalue : (s.spaces.get s.current).function? (s.scopes.nameOf m.tag x) =
      some (.constant value home)) (hdepth : s.depth < s.maxDepth) (fuel : Nat) :
    (exec (fuel + 1) [.identifier m none x]).run s =
      .done () { s with stack := s.stack.push value } := by
  have hpush : (node fuel (exec fuel) (.identifier m none x)).run s = _ :=
    run_constant (lookUp_of_bound hvalue)
  rw [if_neg (Nat.not_le.2 hdepth)] at hpush
  rw [exec_cons_done hpush, exec_nil]

/-- A name that stands for a value pushes it each time. -/
theorem execTimes_constant (hvalue : (s.spaces.get s.current).function? (s.scopes.nameOf m.tag x) =
      some (.constant value home)) (hdepth : s.depth < s.maxDepth) (fuel k : Nat) :
    (execTimes (fuel + 1) [.identifier m none x] k).run s =
      .done () { s with stack := ⟨List.replicate k value ++ s.stack.items⟩ } := by
  induction k generalizing s with
  | zero => rfl
  | succ k ih =>
    rw [execTimes, Action.run_bind, exec_constant hvalue hdepth]
    refine (ih (s := { s with stack := s.stack.push value }) hvalue hdepth).trans ?_
    rw [List.replicate_succ', List.append_assoc]
    rfl

end Constant

/-- What the run of a root program comes to. -/
theorem interpret_of_exec {p : Program NodeId} {scopes : ScopeTable} (hroot : p.info.isRoot = true)
    (h : (exec fuel p.nodes).run
      { s with
        scopes := s.scopes.extend scopes
        depth := 0
        file := p.info.file.or s.file } = .done () t) :
    (interpret fuel scopes p).run s =
      .done t.stack.peek? { t with current := s.current, file := s.file } := by
  have hbegun : begun scopes p s =
      { s with scopes := s.scopes.extend scopes, depth := 0, file := p.info.file.or s.file } := by
    unfold begun opened
    rw [hroot]
    rfl
  rw [run_interpret, hbegun, h]
  unfold closed
  rw [hroot]
  rfl

end Nodes

/-! ## A function that returns a sequence with its local -/

/-- The code of `v let x { x }`. -/
def returning (a b c e : Mark NodeId) (block : NodeId) (value : Literal) (x : String) : Code :=
  [.literal a value, .binding b x false, .sequence c block [.identifier e none x]]

section Returning

variable {a b c e : Mark NodeId} {block : NodeId} {value : Literal} {x : String} {fuel : Nat}
  {s : Interpreter}

/-- The value is bound, and the sequence is left on the stack. -/
theorem exec_returning :
    (exec (fuel + 1) (returning a b c e block value x)).run s =
      .done ()
        { s with
          stack := s.stack.push (.sequence ⟨block, [.identifier e none x]⟩)
          spaces := s.spaces.define s.current (s.scopes.nameOf b.tag x)
            (.function (.constant (.literal value) s.current)) false } := by
  unfold returning
  rw [exec_cons_done (run_literal a value)]
  have hbind : (node fuel (exec fuel) (.binding b x false)).run
      { s with stack := s.stack.push (.literal value) } = _ := run_bindValue b.tag x false
  rw [exec_cons_done hbind, exec_cons_done (run_sequence c block _)]
  rfl

/-- A call of the function does this in the namespace that the function belongs to. -/
theorem run_returning {m : Mark NodeId} {qualifier : Option Token} {name : String} {d : Definition}
    (hbody : d.body = returning a b c e block value x) (hpre : d.pre = []) (hpost : d.post = [])
    (hcall : callee? s m qualifier name = some (.defined d)) :
    (node (fuel + 1) (exec (fuel + 1)) (.identifier m qualifier name)).run s =
      .done ()
        { s with
          stack := s.stack.push (.sequence ⟨block, [.identifier e none x]⟩)
          spaces := s.spaces.define d.home (s.scopes.nameOf b.tag x)
            (.function (.constant (.literal value) d.home)) false } := by
  obtain ⟨hlookUp, hdepth⟩ := lookUp_of_callee? hcall
  rw [node, run_callName, hlookUp]
  dsimp only
  unfold onFailure
  dsimp only
  rw [run_invoke, Function.pre, hpre, requireShape_nil]
  simp only [Nat.not_le.2 hdepth, if_false, perform, hbody]
  rw [exec_returning]
  unfold goOn moved
  simp only [run_requireShape, Function.post, hpost, requireShape_nil]
  rfl

end Returning

/-! ## Within a file -/

/-- The lexemes of `w let x def f { v let x { x } } f`, where `v` and `w` are given with the literals
that they spell. -/
def keeping (f x : String) (v w : String × Literal) : List (TokenKind × String) :=
  [(.literal w.2, w.1), (.keyword .letWord, "let"), (.identifier, x),
    (.keyword .defWord, "def"), (.identifier, f), (.symbol .leftBrace, "\x7b"),
    (.literal v.2, v.1), (.keyword .letWord, "let"), (.identifier, x),
    (.symbol .leftBrace, "\x7b"), (.identifier, x), (.symbol .rightBrace, "\x7d"),
    (.symbol .rightBrace, "\x7d"), (.identifier, f)]

/-- The tree of `w let x def f { v let x { x } } f`, with the tokens of its nodes. -/
def keepingTree (m : Nat → Mark Unit) (f x : String) (v w : Literal) : List (Node Unit) :=
  [.literal (m 0) w, .binding (m 1) x false,
    .definition (m 2) { name := f, isPublic := false, pre := [], post := [] }
      [.literal (m 3) v, .binding (m 4) x false, .sequence (m 5) () [.identifier (m 6) none x]],
    .identifier (m 7) none f]

theorem ofSource_keeping {f x : String} {v w : String × Literal} {source : String}
    (hsource : Source.Spaced (keeping f x v w) source.toList) :
    ∃ m, Tree.ofSource "" source =
      .ok { info := { name := "" }, nodes := keepingTree m f x v.2 w.2 } := by
  obtain ⟨scanned, hscan, hcore⟩ := hsource.scan
  -- the tokens one by one, each with what it is and spells
  simp only [keeping, List.map_eq_cons_iff, List.map_eq_nil_iff] at hcore
  obtain ⟨t₁, _, htokens, h₁, t₂, _, rfl, h₂, t₃, _, rfl, h₃, t₄, _, rfl, h₄, t₅, _, rfl, h₅, t₆, _,
    rfl, h₆, t₇, _, rfl, h₇, t₈, _, rfl, h₈, t₉, _, rfl, h₉, t₁₀, _, rfl, h₁₀, t₁₁, _, rfl, h₁₁, t₁₂, _,
    rfl, h₁₂, t₁₃, _, rfl, h₁₃, t₁₄, _, rfl, h₁₄, rfl⟩ := hcore
  have kind : ∀ {t : Token} {k : TokenKind} {text : String}, Source.core t = (k, text) → t.kind = k :=
    fun h => congrArg Prod.fst h
  let body : Tree.Derivation :=
    .phrase (.literal ⟨v.2, t₇, kind h₇⟩) (.phrase (.binding none ⟨(), t₈, kind h₈⟩ ⟨(), t₉, kind h₉⟩)
      (.block (.sequence ⟨(), t₁₀, kind h₁₀⟩) (.phrase (.name ⟨(), t₁₁, kind h₁₁⟩) .nil)
        ⟨(), t₁₂, kind h₁₂⟩ .nil))
  let d : Tree.Derivation :=
    .phrase (.literal ⟨w.2, t₁, kind h₁⟩) (.phrase (.binding none ⟨(), t₂, kind h₂⟩ ⟨(), t₃, kind h₃⟩)
      (.block (.function none ⟨(), t₄, kind h₄⟩ ⟨(), t₅, kind h₅⟩ none ⟨(), t₆, kind h₆⟩) body
        ⟨(), t₁₃, kind h₁₃⟩ (.phrase (.name ⟨(), t₁₄, kind h₁₄⟩) .nil)))
  have lexeme : ∀ {t : Token} {k : TokenKind} {text : String}, Source.core t = (k, text) →
    t.lexeme = text := fun h => congrArg Prod.snd h
  refine ⟨fun k => ⟨(), [t₁, t₃, t₅, t₇, t₉, t₁₀, t₁₁, t₁₄].getD k t₁⟩, ?_⟩
  rw [Tree.ofSource_of_derivation (d := d) hscan htokens.symm]
  simp [d, body, keepingTree, Tree.Derivation.nodes, Tree.Phrase.node, Tree.Head.node, Tree.signature,
    lexeme h₃, lexeme h₅, lexeme h₉, lexeme h₁₁, lexeme h₁₄]

/-- The code of `w let x def f { v let x { x } } f`, numbered from `n` on. -/
def keepingCode (n : NodeId) (m : Nat → Mark Unit) (f x : String) (v w : Literal) : Code :=
  [.literal ((m 0).number n) w, .binding ((m 1).number (n + 1)) x false,
    .definition ((m 2).number (n + 6)) { name := f, isPublic := false, pre := [], post := [] }
      (returning ((m 3).number (n + 2)) ((m 4).number (n + 3)) ((m 5).number (n + 5))
        ((m 6).number (n + 4)) (n + 5) v x),
    .identifier ((m 7).number (n + 7)) none f]

/-- The names that the scopes of that code give: both inside the function, and none outside. -/
def keptTable (n : NodeId) (f x : String) : ScopeTable :=
  ⟨[(n + 4, localName f x), (n + 3, localName f x)]⟩

theorem analyse_keepingCode (info : ProgramInfo) (n : NodeId) (m : Nat → Mark Unit) (f x : String)
    (v w : Literal) :
    (Scope.analyse ⟨info, keepingCode n m f x v w⟩).failed = false ∧
      (Scope.analyse ⟨info, keepingCode n m f x v w⟩).table = keptTable n f x := by
  refine ⟨Scope.failed_eq_false_iff_nil.2 ⟨?_, ?_⟩, ?_⟩
  · simp [keepingCode, returning, Scope.visitAll, Scope.visit, Scope.Resolver.enter,
      Scope.Resolver.bind, Scope.Resolver.use, Scope.Resolver.rename, Scope.Resolver.leave]
  · simp [keepingCode, returning, Scope.lateImportsAll, Scope.lateImports]
  · simp [Scope.analyse, keptTable, keepingCode, returning, Scope.visitAll, Scope.visit, Scope.Resolver.enter,
      Scope.Resolver.bind, Scope.Resolver.use, Scope.Resolver.rename, Scope.Resolver.leave,
      Mark.number]

theorem link_keeping {f x : String} {v w : String × Literal} {source : String}
    (hsource : Source.Spaced (keeping f x v w) source.toList) (fs : FileSystem) (library : String)
    (unit : SourceUnit) (l : Linker) :
    ∃ m log, (linkSource fs library unit source).run l =
      .done { info := unit.info, nodes := keepingCode l.nextId m f x v.2 w.2 }
        { l with
          log, nextId := l.nextId + 8, scopes := l.scopes.extend (keptTable l.nextId f x) } := by
  obtain ⟨m, hread⟩ := ofSource_keeping hsource
  obtain ⟨hpass, htable⟩ := analyse_keepingCode { name := "" } l.nextId m f x v.2 w.2
  have hnumber : Program.number l.nextId ⟨{ name := "" }, keepingTree m f x v.2 w.2⟩ =
      (⟨{ name := "" }, keepingCode l.nextId m f x v.2 w.2⟩, l.nextId + 8) := rfl
  have hplain : Node.AllIn Node.Plain (keepingCode l.nextId m f x v.2 w.2) := by
    simp [keepingCode, returning, Node.AllIn, Node.All, Node.Plain]
  obtain ⟨log, hlink⟩ := run_linkText_plain fs library (linkFile fs library (fuelFor fs)) unit hread
    (by rw [hnumber]; exact hpass) hplain
  rw [hnumber, htable] at hlink
  exact ⟨m, log, hlink⟩

/-- The function that is defined, where its file is `file` and its namespace `home`. -/
def keptFunction (n : NodeId) (m : Nat → Mark Unit) (f x : String) (v : Literal) (home : NamespaceId)
    (file : Option String) : Definition where
  name := f
  body := returning ((m 3).number (n + 2)) ((m 4).number (n + 3)) ((m 5).number (n + 5))
    ((m 6).number (n + 4)) (n + 5) v x
  pre := []
  post := []
  home := home
  file := file

/-- The namespaces in which `x`, then `f` and then the local of `f` have been bound in `home`. -/
def keptSpaces (spaces : Namespaces) (home : NamespaceId) (x : String) (w : Literal) (d : Definition)
    (v : Literal) : Namespaces :=
  ((spaces.define home x (.function (.constant (.literal w) home)) false).define home d.name
    (.function (.defined d)) false).define home (localName d.name x)
    (.function (.constant (.literal v) home)) false

theorem exec_keepingCode (fuel : Nat) {n : NodeId} (m : Nat → Mark Unit) {f x : String} (v w : Literal)
    {s : Interpreter} (hne : f ≠ x) (hcurrent : s.current < s.spaces.spaces.size)
    (hunbound : (s.spaces.get s.current).isDefined f = false) (hdepth : s.depth < s.maxDepth)
    (hx : s.scopes.nameOf (n + 1) x = x) (hlocal : s.scopes.nameOf (n + 3) x = localName f x)
    (hf : s.scopes.nameOf (n + 7) f = f) :
    (exec (fuel + 2) (keepingCode n m f x v w)).run s =
      .done ()
        { s with
          stack := s.stack.push (.sequence ⟨n + 5, [.identifier ((m 6).number (n + 4)) none x]⟩)
          spaces := keptSpaces s.spaces s.current x w (keptFunction n m f x v s.current s.file) v } := by
  unfold keepingCode
  rw [exec_cons_done (run_literal _ w)]
  let s₁ : Interpreter :=
    { s with spaces := s.spaces.define s.current x (.function (.constant (.literal w) s.current)) false }
  have hbind : (node (fuel + 1) (exec (fuel + 1)) (.binding ((m 1).number (n + 1)) x false)).run
      { s with stack := s.stack.push (.literal w) } = .done () s₁ := by
    rw [node, run_bindValue]
    show Outcome.done () { s with spaces := s.spaces.define s.current (s.scopes.nameOf (n + 1) x) _ _ } = _
    rw [hx]
  let d := keptFunction n m f x v s.current s.file
  let s₂ : Interpreter :=
    { s₁ with spaces := s₁.spaces.define s.current f (.function (.defined d)) false }
  have hdefine : (node (fuel + 1) (exec (fuel + 1)) (.definition ((m 2).number (n + 6))
      { name := f, isPublic := false, pre := [], post := [] } d.body)).run s₁ = .done () s₂ := by
    have hfree : ((s₁.spaces.get s.current).get? f).isSome = false := by
      rw [Namespaces.get_define_self _ hcurrent, Namespace.get?_define, if_neg (by simpa using hne)]
      exact hunbound
    rw [node, run_defineFunction]
    exact if_neg (Bool.eq_false_iff.1 hfree)
  have hcall : callee? s₂ ((m 7).number (n + 7)) none f = some (.defined d) := by
    refine callee?_of_lookUp ?_ rfl hdepth
    have hbound : (s₂.spaces.get s.current).function? f = some (.defined d) := by
      have hsize : s.current < s₁.spaces.spaces.size := by
        rw [Namespaces.size_define]
        exact hcurrent
      rw [Namespace.function?_eq_some_iff, Namespaces.get_define_self _ hsize, Namespace.get?_define,
        if_pos (beq_self_eq_true f)]
    show lookUp s₂ none (s.scopes.nameOf (n + 7) f) = _
    rw [hf]
    exact lookUp_of_bound hbound
  refine (exec_cons_done hbind).trans ((exec_cons_done hdefine).trans
    ((exec_cons_done (run_returning rfl rfl rfl hcall)).trans ?_))
  show Outcome.done () { s with
    stack := _, spaces := s₂.spaces.define s.current (s.scopes.nameOf (n + 3) x) _ _ } = _
  rw [hlocal]
  rfl

/-- What the names stand for afterwards. -/
theorem function?_keptSpaces {spaces : Namespaces} {home : NamespaceId}
    (hhome : home < spaces.spaces.size) (x : String) (w : Literal) (d : Definition) (v : Literal) :
    ((keptSpaces spaces home x w d v).get home).function? (localName d.name x) =
        some (.constant (.literal v) home) ∧
      (d.name ≠ x → '$' ∉ x.toList →
        ((keptSpaces spaces home x w d v).get home).function? x =
          some (.constant (.literal w) home)) := by
  unfold keptSpaces
  have hlocal : '$' ∈ (localName d.name x).toList := Scope.mark_mem_localName d.name x
  constructor
  · rw [Namespace.function?_eq_some_iff, Namespaces.get_define_self _ (by simpa using hhome)]
    simp
  · intro hne hmark
    have hother : x ≠ localName d.name x := by
      intro heq
      rw [← heq] at hlocal
      exact hmark hlocal
    rw [Namespace.function?_eq_some_iff, Namespaces.get_define_self _ (by simpa using hhome),
      Namespaces.get_define_self _ (by simpa using hhome), Namespaces.get_define_self _ hhome]
    simp [hother, Ne.symm hne]

/-- The sequence that the function returns. -/
def keptSequence (n : NodeId) (m : Nat → Mark Unit) (x : String) : Sequence :=
  ⟨n + 5, [.identifier ((m 6).number (n + 4)) none x]⟩

/-- A name by itself is linked to its use. -/
theorem link_name {x source : String} (hsource : Source.Spaced [(.identifier, x)] source.toList)
    (fs : FileSystem) (library : String) (unit : SourceUnit) (l : Linker) :
    ∃ t : Mark Unit, ∃ log, (linkSource fs library unit source).run l =
      .done { info := unit.info, nodes := [.identifier (t.number l.nextId) none x] }
        { l with log, nextId := l.nextId + 1, scopes := l.scopes.extend {} } := by
  obtain ⟨scanned, hscan, hcore⟩ := hsource.scan
  obtain ⟨t, htokens, ht⟩ := List.map_eq_singleton_iff.1 hcore
  have hkind : t.kind = .identifier := congrArg Prod.fst ht
  obtain rfl : t.lexeme = x := congrArg Prod.snd ht
  have hread : Tree.ofSource "" source =
      .ok { info := { name := "" }, nodes := [.identifier ⟨(), t⟩ none t.lexeme] } :=
    Tree.ofSource_of_derivation (d := .phrase (.name ⟨(), t, hkind⟩) .nil) hscan htokens.symm
  obtain ⟨log, hlink⟩ := run_linkText_plain fs library (linkFile fs library (fuelFor fs)) unit hread
    (Scope.failed_eq_false_iff_nil.2 ⟨rfl, rfl⟩) ⟨trivial, trivial⟩
  exact ⟨⟨(), t⟩, log, hlink⟩

/-- The names of numbers that had none before. -/
theorem nameOf_keptTable {t : ScopeTable} {n : NodeId} (ht : ∀ id, n ≤ id → t.names.lookup id = none)
    (f x : String) {id : NodeId} (hid : n ≤ id) (written : String) :
    (t.extend (keptTable n f x)).nameOf id written =
      if id = n + 4 ∨ id = n + 3 then localName f x else written := by
  unfold ScopeTable.nameOf ScopeTable.extend keptTable
  dsimp only
  rw [List.lookup_append, ht id hid, Option.or_none, List.lookup_cons, List.lookup_cons]
  by_cases hfour : id = n + 4
  · simp [hfour]
  · rw [beq_false_of_ne hfour]
    by_cases hthree : id = n + 3
    · simp [hthree]
    · simp [hfour, hthree, beq_false_of_ne hthree]

/-- Names stand for the same things in two states. -/
structure SameNames (t u : Interpreter) : Prop where
  current : u.current = t.current
  spaces : u.spaces = t.spaces
  scopes : u.scopes = t.scopes

/-- States in which the function has been called: the local stands for `v` and `x` for `w` in the
current namespace, and of the numbers from `n` on two have the name of the local. -/
structure Kept (n : NodeId) (f x : String) (v w : Literal) (t : Interpreter) : Prop where
  localValue : ∃ home, (t.spaces.get t.current).function? (localName f x) =
    some (.constant (.literal v) home)
  value : '$' ∉ x.toList → ∃ home, (t.spaces.get t.current).function? x =
    some (.constant (.literal w) home)
  names : ∀ id, n ≤ id → ∀ written, t.scopes.nameOf id written =
    if id = n + 4 ∨ id = n + 3 then localName f x else written

theorem Kept.of_sameNames {n : NodeId} {f x : String} {v w : Literal} {t u : Interpreter}
    (h : Kept n f x v w t) (hu : SameNames t u) : Kept n f x v w u := by
  constructor
  · rw [hu.spaces, hu.current]
    exact h.localValue
  · rw [hu.spaces, hu.current]
    exact h.value
  · rw [hu.scopes]
    exact h.names

/-- The sequence finds the local as often as it is run. -/
theorem Kept.execTimes {n : NodeId} {f x : String} {v w : Literal} {u : Interpreter}
    (h : Kept n f x v w u) (hroom : u.depth < u.maxDepth) (m : Nat → Mark Unit) (fuel k : Nat) :
    (execTimes (fuel + 1) (keptSequence n m x).body k).run u =
      .done () { u with stack := ⟨List.replicate k (.literal v) ++ u.stack.items⟩ } := by
  obtain ⟨home, hvalue⟩ := h.localValue
  have hname : u.scopes.nameOf (n + 4) x = localName f x :=
    (h.names _ (Nat.le_add_right n 4) x).trans (if_pos (.inl rfl))
  rw [← hname] at hvalue
  exact execTimes_constant (m := (m 6).number (n + 4)) hvalue hroom fuel k

/-- Numbers that are drawn after those of the code keep their names. -/
theorem Kept.nameOf_later {n : NodeId} {f x : String} {v w : Literal} {t : Interpreter}
    (h : Kept n f x v w t) {id : NodeId} (hid : n + 8 ≤ id) (written : String) :
    t.scopes.nameOf id written = written := by
  have hlater : ∀ k, k < 8 → id ≠ n + k := fun k hk =>
    Nat.ne_of_gt (Nat.lt_of_lt_of_le (Nat.add_lt_add_left hk n) hid)
  refine (h.names id (Nat.le_trans (Nat.le_add_right n 8) hid) written).trans (if_neg ?_)
  exact not_or.2 ⟨hlater 4 (by decide), hlater 3 (by decide)⟩

/-- Where no number from `n` on has a name yet, the code pushes the sequence and leaves such a state. -/
theorem interpret_keeping {f x : String} (hne : f ≠ x) {n : NodeId} (m : Nat → Mark Unit)
    (v w : Literal) {s : Interpreter} (hscopes : ∀ id, n ≤ id → s.scopes.names.lookup id = none)
    (hcurrent : s.current < s.spaces.spaces.size)
    (hunbound : (s.spaces.get s.current).isDefined f = false) (hdepth : 1 ≤ s.maxDepth)
    (info : ProgramInfo) (hroot : info.isRoot = true) (fuel : Nat) : ∃ t,
      (interpret (fuel + 2) (keptTable n f x) ⟨info, keepingCode n m f x v w⟩).run s =
        .done (some (.sequence (keptSequence n m x))) t ∧
      t.stack.items = .sequence (keptSequence n m x) :: s.stack.items ∧ t.current = s.current ∧
      t.depth = 0 ∧ t.maxDepth = s.maxDepth ∧ t.nextId = s.nextId ∧ Kept n f x v w t := by
  have hnames := @nameOf_keptTable s.scopes n hscopes f x
  let s₀ : Interpreter :=
    { s with scopes := s.scopes.extend (keptTable n f x), depth := 0, file := info.file.or s.file }
  have hx : s₀.scopes.nameOf (n + 1) x = x := (hnames (Nat.le_add_right n 1) x).trans (by simp)
  have hlet : s₀.scopes.nameOf (n + 3) x = localName f x :=
    (hnames (Nat.le_add_right n 3) x).trans (by simp)
  have hf : s₀.scopes.nameOf (n + 7) f = f := (hnames (Nat.le_add_right n 7) f).trans (by simp)
  have hexec := exec_keepingCode fuel m v w (s := s₀) hne hcurrent hunbound hdepth hx hlet hf
  have hkept := function?_keptSpaces hcurrent x w (keptFunction n m f x v s.current s₀.file) v
  refine ⟨_, interpret_of_exec (p := ⟨info, keepingCode n m f x v w⟩) hroot hexec, rfl, rfl, rfl, rfl,
    rfl, ⟨_, hkept.1⟩, fun hmark => ⟨_, hkept.2 hne hmark⟩, fun id hid => hnames hid⟩

/-- A text that is linked by itself and run in `s` goes well and pushes a value. -/
def Pushes (fs : FileSystem) (library : String) (unit : SourceUnit) (l : Linker) (source : String)
    (fuel : Nat) (s : Interpreter) (value : Value) : Prop :=
  ∃ p l' t, (linkSource fs library unit source).run l = .done p l' ∧
    (interpret fuel l'.scopes p).run s = .done (some value) t ∧
    t.stack.items = value :: s.stack.items

/-- A name in a file pushes the value that it was bound to. -/
theorem pushes_name {x source : String} (hsource : Source.Spaced [(.identifier, x)] source.toList)
    (fs : FileSystem) (library : String) (unit : SourceUnit) {l : Linker} (hl : l.scopes = {})
    {s : Interpreter} (hname : s.scopes.nameOf l.nextId x = x) {value : Value} {home : NamespaceId}
    (hvalue : (s.spaces.get s.current).function? x = some (.constant value home))
    (hdepth : 1 ≤ s.maxDepth) (fuel : Nat) :
    Pushes fs library unit l source (fuel + 1) s value := by
  obtain ⟨t, log, hlink⟩ := link_name hsource fs library unit l
  let u : Interpreter :=
    { s with
      scopes := s.scopes.extend (l.scopes.extend {})
      depth := 0
      file := unit.info.file.or s.file }
  have hscopes : u.scopes = s.scopes := by
    show s.scopes.extend (l.scopes.extend {}) = s.scopes
    rw [hl]
    rfl
  have hused : (u.spaces.get u.current).function? (u.scopes.nameOf l.nextId x) =
      some (.constant value home) := by
    rw [hscopes, hname]
    exact hvalue
  have hexec : (exec (fuel + 1) [.identifier (t.number l.nextId) none x]).run u =
      .done () { u with stack := u.stack.push value } :=
    exec_constant (s := u) hused hdepth fuel
  let p : Program NodeId :=
    { info := unit.info, nodes := [.identifier (t.number l.nextId) none x] }
  exact ⟨p, _, _, hlink, interpret_of_exec (p := p) rfl hexec, rfl⟩

/-- A text of this kind, with two blanks at some places. -/
theorem spaced_keeping :
    Source.Spaced (keeping "f" "x" ("true", .boolean true) ("false", .boolean false))
      "false let x  def f { true let x { x } }  f".toList := by
  have hf : Source.InClass .identifier "f".toList :=
    ⟨by decide, fun k => by cases k <;> decide, by decide⟩
  have hx : Source.InClass .identifier "x".toList :=
    ⟨by decide, fun k => by cases k <;> decide, by decide⟩
  exact .cons rfl rfl (.cons rfl rfl (.cons hx rfl (.blank rfl (.cons rfl rfl (.cons hf rfl
    (.cons rfl rfl (.cons rfl rfl (.cons rfl rfl (.cons hx rfl (.cons rfl rfl (.cons hx rfl
    (.cons rfl rfl (.cons rfl rfl (.blank rfl (.last hf)))))))))))))))

/-- A linker for a text of its own, which numbers its nodes from `n` on. -/
def linkerFrom (n : NodeId) : Linker :=
  { graph := { root := "" }, log := {}, loaded := [], nextId := n }

/-- A name that the current namespace does not bind to a function cannot be called. -/
theorem outcome_of_unbound {v : Visit} {m : Mark NodeId} {x : String}
    (hnode : v.node = .identifier m none x)
    (h : (v.state.spaces.get v.state.current).function? (v.state.scopes.nameOf m.tag x) = none) :
    ∃ d, v.outcome = .stopped (.failed d) v.state ∧
      d.cause = .runtime (.unknownIdentifier (v.state.scopes.nameOf m.tag x)) := by
  have hrun : (node v.fuel (exec v.fuel) (.identifier m none x)).run v.state =
      .stopped (.failed (.ofRuntime (.unknownIdentifier (v.state.scopes.nameOf m.tag x)))) v.state := by
    rw [node, run_callName, lookUp_bare, h]
    rfl
  unfold Visit.outcome step onFailure
  dsimp only
  rw [hnode, hrun]
  exact ⟨_, rfl, rfl⟩

/-- **A sequence uses what it finds where it is run.** A call of a function `v let x { x }` binds its
local where the function is defined, and in no other namespace. Whenever the `x` of the sequence that
it returns is evaluated, the local is looked up in the namespace that is current then: the value that
it is bound to there is pushed, whoever bound it, and without such a binding the run fails. -/
theorem sequence_uses_current {fs : FileSystem} {library : String} {start : Linking.Start}
    {log : FileLog} {nextId : NodeId} {p : Program NodeId} {l : Linker}
    (hlink : (start.link fs library).run (start.linker log nextId) = .done p l)
    {fuel : Nat} {s : Interpreter} (hs : Fresh s) {v : Visit} (hv : v ∈ visited fuel l.scopes p s)
    (hfuel : 0 < v.fuel) {d : Definition} (hcall : Calls v.state v.node (.defined d))
    {a b c e : Mark NodeId} {block : NodeId} {value : Literal} {x : String}
    (hbody : d.body = returning a b c e block value x) (hpre : d.pre = []) (hpost : d.post = []) :
    v.outcome = .done ()
      { v.state with
        stack := v.state.stack.push (.sequence ⟨block, [.identifier e none x]⟩)
        spaces := v.state.spaces.define d.home (localName d.name x)
          (.function (.constant (.literal value) d.home)) false } ∧
    ∀ w ∈ visited fuel l.scopes p s, w.node = .identifier e none x →
      (∀ found home, (w.state.spaces.get w.state.current).function? (localName d.name x) =
          some (.constant found home) →
        (w.state.depth < w.state.maxDepth →
          w.outcome = .done () { w.state with stack := w.state.stack.push found }) ∧
        (w.state.maxDepth ≤ w.state.depth → ∃ error, w.outcome = .stopped (.failed error) w.state ∧
          error.cause = .runtime (.depthExceeded w.state.maxDepth))) ∧
      ((w.state.spaces.get w.state.current).function? (localName d.name x) = none →
        ∃ error, w.outcome = .stopped (.failed error) w.state ∧
          error.cause = .runtime (.unknownIdentifier (localName d.name x))) := by
  obtain ⟨requests, es, hlinked⟩ := (meets_link_linked start log nextId).of_done hlink
  have hnames := (meets_link_localizes start log nextId).of_done hlink
  have hlayered := layered_of_linked hlinked (hnames.mono fun _ hn => hn.named)
  obtain ⟨-, -, hlocalized, hscopes⟩ := callable_of_calls hlayered hnames hs hv hcall
  have hspread : Node.spreadAll d.body =
      [.literal a value] ++ .binding b x false :: [.sequence c block [.identifier e none x]] ++
        .identifier e none x :: [] := by
    rw [hbody]
    simp [returning, Node.spreadAll, Node.spread]
  obtain ⟨hbound, hused⟩ := nameOf_of_localized hlocalized hspread
  constructor
  · obtain ⟨k, hk⟩ := Nat.exists_eq_succ_of_ne_zero (Nat.pos_iff_ne_zero.1 hfuel)
    obtain ⟨m, qualifier, name, hnode, hcallee⟩ := hcall
    have hlet : v.state.scopes.nameOf b.tag x = localName d.name x := by rw [hscopes, hbound]
    have hrun : (node (k + 1) (exec (k + 1)) (.identifier m qualifier name)).run v.state = _ :=
      run_returning hbody hpre hpost hcallee
    rw [hlet] at hrun
    unfold Visit.outcome
    rw [hk, hnode]
    exact step_of_done hrun
  · intro w hw hnode
    have hname : w.state.scopes.nameOf e.tag x = localName d.name x := by
      rw [scopes_visits w hw, scopes_begun hs, hused]
    rw [← hname]
    exact ⟨fun _ _ hfound => outcome_of_constant hnode (lookUp_of_bound hfound),
      outcome_of_unbound hnode⟩

/-- A file with such a function, a file that runs the sequence, and one that runs it after it has
called a function of its own by the same name. -/
def parted : FileSystem where
  workingDirectory := []
  entries :=
    [(["m.twl"], .file "public def f { true let x { x } }".toUTF8.toList),
      (["main.twl"],
        .file "import f from \"m.twl\"\nimport * from <sequences>\nf exec".toUTF8.toList),
      (["own.twl"],
        .file ("import \"m.twl\"\nimport * from <sequences>\n" ++
          "def f { false let x } f m.f exec").toUTF8.toList)]

/-- The name for lack of which a program failed. -/
def unknown? (r : RunReport) : Option String :=
  match r.result with
  | .error (.diagnostic { cause := .runtime (.unknownIdentifier name), .. }) => some name
  | _ => none

/-- **Where another file runs the sequence, the local of its function is lost**: the file does not know
it, or it has one of its own for it. -/
theorem sequence_loses_local :
    unknown? ((Session.new {} {}).runFile parted "main.twl" {}) = some "f$x" ∧
      ((Session.new {} {}).runFile parted "own.twl" {}).session.interpreter.stack.items.map
        Value.boolean? = [some false] := by
  decide +kernel

/-- Whether a node is the use of `x` with the mark `e`. -/
def isUse (e : Mark NodeId) (x : String) : Node NodeId → Bool
  | .identifier m none y =>
    y == x && m.tag == e.tag && m.token.lexeme == e.token.lexeme &&
      m.token.position == e.token.position && m.token.kind.isIdentifier && e.token.kind.isIdentifier
  | _ => false

theorem eq_of_isUse {e : Mark NodeId} {x : String} {n : Node NodeId} (h : isUse e x n = true) :
    n = .identifier e none x := by
  unfold isUse at h
  split at h
  · next m y =>
    obtain ⟨tag, kind, lexeme, position⟩ := m
    obtain ⟨tag', kind', lexeme', position'⟩ := e
    simp only [Bool.and_eq_true, beq_iff_eq, TokenKind.isIdentifier_iff] at h
    obtain ⟨⟨⟨⟨⟨rfl, rfl⟩, rfl⟩, rfl⟩, rfl⟩, rfl⟩ := h
    rfl
  · cases h

/-- The parts of `v let x { x }`. -/
def returned? : Code → Option (Mark NodeId × Mark NodeId × Mark NodeId × Mark NodeId × NodeId ×
    Literal × String)
  | [.literal a value, .binding b x false, .sequence c block [.identifier e none y]] =>
    if y = x then some (a, b, c, e, block, value, x) else none
  | _ => none

theorem eq_returning {code : Code} {a b c e : Mark NodeId} {block : NodeId} {value : Literal}
    {x : String} (h : returned? code = some (a, b, c, e, block, value, x)) :
    code = returning a b c e block value x := by
  unfold returned? at h
  split at h
  · split at h
    · next hname =>
      cases h
      rw [hname]
      rfl
    · cases h
  · cases h

/-- The second file as it is linked, and the first call of a function of another file in its run. -/
def lent? : Option (Program NodeId × Linker × Visit × Definition) :=
  match (Start.link parted "std" (.file ["own.twl"])).run (Start.linker (.file ["own.twl"]) {} 1) with
  | .done p l =>
    (visited 10 l.scopes p (.withNatives {})).findSome? fun v =>
      ((called? v).filter fun d => d.home != v.state.current).map fun d => (p, l, v, d)
  | .stopped _ _ => none

theorem lent?_eq_some {p : Program NodeId} {l : Linker} {v : Visit} {d : Definition}
    (h : lent? = some (p, l, v, d)) :
    (Start.link parted "std" (.file ["own.twl"])).run (Start.linker (.file ["own.twl"]) {} 1) =
        .done p l ∧
      v ∈ visited 10 l.scopes p (.withNatives {}) ∧ Calls v.state v.node (.defined d) ∧
      d.home ≠ v.state.current := by
  unfold lent? at h
  split at h
  · next hlink =>
    obtain ⟨w, hw, hfound⟩ := List.exists_of_findSome?_eq_some h
    obtain ⟨d', hd', heq⟩ := Option.map_eq_some_iff.1 hfound
    obtain ⟨hcalled, hhome⟩ := Option.filter_eq_some_iff.1 hd'
    cases heq
    exact ⟨hlink, hw, calls_of_called? hcalled, by simpa using hhome⟩
  · cases h

/-- Whether the use of a local finds the given truth value. -/
def finds (w : Visit) (name : String) (b : Bool) : Bool :=
  decide (w.state.depth < w.state.maxDepth) &&
    match (w.state.spaces.get w.state.current).function? name with
    | some (.constant (.literal (.boolean b')) _) => b' == b
    | _ => false

theorem exists_of_finds {w : Visit} {name : String} {b : Bool} (h : finds w name b = true) :
    w.state.depth < w.state.maxDepth ∧ ∃ home,
      (w.state.spaces.get w.state.current).function? name = some (.constant (.boolean b) home) := by
  unfold finds at h
  rw [Bool.and_eq_true, decide_eq_true_eq] at h
  refine ⟨h.1, ?_⟩
  have hfound := h.2
  split at hfound
  · next home hbound =>
    rw [← eq_of_beq hfound]
    exact ⟨home, hbound⟩
  · cases hfound

/-- Whether the call returns a sequence that is run later and then finds the given truth value. -/
def runsLent (p : Program NodeId) (l : Linker) (v : Visit) (d : Definition) (b : Bool) : Bool :=
  decide (0 < v.fuel ∧ d.pre = [] ∧ d.post = []) &&
    match returned? d.body with
    | some (_, _, _, e, _, _, x) =>
      (visited 10 l.scopes p (.withNatives {})).any fun w =>
        isUse e x w.node && finds w (localName d.name x) b
    | none => false

/-- The other file calls the function and runs its sequence, and gets the value of its own local. -/
theorem sequence_uses_current_own : ∃ p l v d w t,
    (Start.link parted "std" (.file ["own.twl"])).run (Start.linker (.file ["own.twl"]) {} 1) =
      .done p l ∧
    v ∈ visited 10 l.scopes p (.withNatives {}) ∧ Calls v.state v.node (.defined d) ∧
    d.home ≠ v.state.current ∧ v.outcome = .done () t ∧
    t.spaces.get v.state.current = v.state.spaces.get v.state.current ∧
    w ∈ visited 10 l.scopes p (.withNatives {}) ∧
    w.outcome = .done () { w.state with stack := w.state.stack.push (.boolean false) } := by
  have hcheck : (lent?.any fun (p, l, v, d) => runsLent p l v d false) = true := by decide +kernel
  cases hlent : lent? with
  | none => rw [hlent] at hcheck; cases hcheck
  | some found =>
    obtain ⟨p, l, v, d⟩ := found
    obtain ⟨hlink, hv, hcall, hhome⟩ := lent?_eq_some hlent
    rw [hlent, Option.any_some] at hcheck
    unfold runsLent at hcheck
    rw [Bool.and_eq_true, decide_eq_true_eq] at hcheck
    obtain ⟨⟨hfuel, hpre, hpost⟩, hruns⟩ := hcheck
    split at hruns
    · next e block value x hreturned =>
      obtain ⟨w, hw, hchecked⟩ := List.any_eq_true.1 hruns
      rw [Bool.and_eq_true] at hchecked
      obtain ⟨hroom, home, hfinds⟩ := exists_of_finds hchecked.2
      obtain ⟨hdone, huses⟩ := sequence_uses_current hlink (Fresh.withNatives {}) hv hfuel hcall
        (eq_returning hreturned) hpre hpost
      refine ⟨p, l, v, d, w, _, hlink, hv, hcall, hhome, hdone,
        Namespaces.get_define_ne _ (Ne.symm hhome) .., hw, ?_⟩
      exact ((huses w hw (eq_of_isUse hchecked.1)).1 _ _ hfinds).1 hroom
    · cases hruns

end Evaluation

end Catena

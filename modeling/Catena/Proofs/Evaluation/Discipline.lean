import Catena.Evaluation
import Catena.Proofs.Namespace
import Catena.Proofs.Tree.Node

/-!
# What a run keeps

Three things are followed through every step of a run.

**The frame** (`Frame`): the namespace, the file, the depth and its limit, and the scopes are
afterwards what they were before; loaders are only ever added on top. Under a discipline that allows
no modules there are no new loaders at all (`Discipline.Keeps`).

**The contents** (`Discipline.Holds`): a predicate on nodes and one on arrays that hold of all code
and all arrays in a state, wherever they are: on the stack, in a function of a namespace, in a
function that a loader serves.

**The reasons to stop** (`Discipline.AllowsHalt`): every failure is a run-time error, and one of those
that the discipline allows.

`Discipline.Alike` puts the three together, and says it of two steps at once: from every state that
the discipline allows they have the same outcome. A step beside itself gives the plain statement; two
different steps are compared where code may be run with another meaning of imports.
-/

namespace Catena

/-- What a run gives back as it found it: everything but the values, the bindings and the streams.
Loaders may have been added. -/
structure Frame (s t : Interpreter) : Prop where
  current : t.current = s.current
  file : t.file = s.file
  depth : t.depth = s.depth
  maxDepth : t.maxDepth = s.maxDepth
  scopes : t.scopes = s.scopes
  loaders : s.loaders.loaders <:+ t.loaders.loaders

namespace Frame

theorem refl (s : Interpreter) : Frame s s :=
  ⟨rfl, rfl, rfl, rfl, rfl, List.suffix_rfl⟩

theorem trans {s t u : Interpreter} (h : Frame s t) (k : Frame t u) : Frame s u where
  current := k.current.trans h.current
  file := k.file.trans h.file
  depth := k.depth.trans h.depth
  maxDepth := k.maxDepth.trans h.maxDepth
  scopes := k.scopes.trans h.scopes
  loaders := h.loaders.trans k.loaders

end Frame

/-! ## Disciplines -/

/-- What is required of the nodes and the arrays in a state, which errors may be raised, and whether
modules may be put in and namespaces imported. Nodes that push a value are always allowed, since
currying makes them, and arrays stay allowed under the operations on arrays. Only the error of an
unknown namespace may be ruled out. -/
structure Discipline where
  node : Node NodeId → Prop
  array : TypedArray → Prop
  error : RuntimeError → Prop
  modules : Prop
  node_literal : ∀ m value, node (.literal m value)
  node_sequence : ∀ m block body, node (.sequence m block body)
  node_array : ∀ {a} m, array a → node (.array m a.items.toList)
  node_program : ∀ {m info nodes}, node (.program m info nodes) → modules
  array_ofLiterals : ∀ {items a}, TypedArray.ofLiterals items = .ok a → array a
  array_push : ∀ {a b value}, array a → a.push value = .ok b → array b
  array_set : ∀ {a b index value}, array a → a.set index value = .ok b → array b
  array_pop : ∀ {a}, array a → array a.pop.2
  error_of : ∀ {e}, (∀ source, e ≠ .unknownNamespace source) → error e

namespace Discipline

variable (D : Discipline)

/-- Code all of whose nodes are allowed. -/
def AllowsCode (code : Code) : Prop :=
  Node.AllIn D.node code

/-- An allowed value. -/
def AllowsValue : Value → Prop
  | .literal _ => True
  | .sequence s => D.AllowsCode s.body
  | .array a => D.array a

/-- An allowed function. -/
def AllowsFunction : Function → Prop
  | .native _ _ => True
  | .defined definition => D.AllowsCode definition.body
  | .constant value _ => D.AllowsValue value

/-- An allowed binding. -/
def AllowsBinding : Binding → Prop
  | .function f => D.AllowsFunction f
  | .child _ => True

/-- A namespace all of whose bindings are allowed. -/
def AllowsSpace (n : Namespace) : Prop :=
  ∀ entry ∈ n.bindings.entries, D.AllowsBinding entry.2

/-- Namespaces that are all allowed. -/
def AllowsSpaces (spaces : Namespaces) : Prop :=
  ∀ id, D.AllowsSpace (spaces.get id)

/-- An allowed loader. -/
def AllowsLoader : Loader → Prop
  | .natives => True
  | .module m => D.AllowsSpace m.exports

/-- A state all of whose contents are allowed. -/
structure Holds (s : Interpreter) : Prop where
  stack : ∀ value ∈ s.stack.items, D.AllowsValue value
  spaces : D.AllowsSpaces s.spaces
  loaders : ∀ l ∈ s.loaders.loaders, D.AllowsLoader l

/-- An allowed reason to stop: no more fuel, or an allowed run-time error. -/
def AllowsHalt : Halt → Prop
  | .exhausted => True
  | .failed d => ∃ e, d.cause = .runtime e ∧ D.error e

/-- What a run under the discipline gives back as it found it. Namespaces are never unmade. Without
modules and imports there are no new loaders either, and no namespace is mounted. -/
structure Keeps (s t : Interpreter) : Prop extends Frame s t where
  size : s.spaces.spaces.size ≤ t.spaces.spaces.size
  quiet : ¬D.modules → t.loaders = s.loaders
  nested : ¬D.modules → s.spaces.Nested → t.spaces.Nested

/-- An outcome of a start at `s` whose state, and result or reason to stop, are allowed. -/
def Ends {α : Type} (s : Interpreter) (Q : α → Prop) : Outcome Interpreter Halt α → Prop
  | .done a t => D.Holds t ∧ D.Keeps s t ∧ Q a
  | .stopped halt t => D.Holds t ∧ D.Keeps s t ∧ D.AllowsHalt halt

/-- Two steps that have the same outcome from every allowed state, and an allowed one. -/
def Alike {α : Type} (m m' : Eval α) (Q : α → Prop) : Prop :=
  ∀ s, D.Holds s → m.run s = m'.run s ∧ D.Ends s Q (m.run s)

variable {D}

namespace Keeps

theorem refl (s : Interpreter) : D.Keeps s s :=
  ⟨Frame.refl s, Nat.le_refl _, fun _ => rfl, fun _ => id⟩

theorem trans {s t u : Interpreter} (h : D.Keeps s t) (k : D.Keeps t u) : D.Keeps s u :=
  ⟨h.toFrame.trans k.toFrame, Nat.le_trans h.size k.size,
    fun hquiet => (k.quiet hquiet).trans (h.quiet hquiet),
    fun hquiet hs => k.nested hquiet (h.nested hquiet hs)⟩

/-- A step that touches neither the frame nor the loaders. -/
theorem of_eq {s t : Interpreter} (current : t.current = s.current) (file : t.file = s.file)
    (depth : t.depth = s.depth) (maxDepth : t.maxDepth = s.maxDepth) (scopes : t.scopes = s.scopes)
    (loaders : t.loaders = s.loaders) (spaces : s.spaces.Grows t.spaces) : D.Keeps s t :=
  ⟨⟨current, file, depth, maxDepth, scopes, loaders ▸ List.suffix_rfl⟩, spaces.size,
    fun _ => loaders, fun _ => spaces.nested⟩

end Keeps

/-! ## Steps one after the other -/

section Rules

variable {α β : Type} {Q : α → Prop} {Q' : β → Prop}

theorem Ends.holds {s : Interpreter} {o : Outcome Interpreter Halt α} (h : D.Ends s Q o) :
    D.Holds o.state := by
  cases o with
  | done a t => exact h.1
  | stopped halt t => exact h.1

theorem Ends.keeps {s : Interpreter} {o : Outcome Interpreter Halt α} (h : D.Ends s Q o) :
    D.Keeps s o.state := by
  cases o with
  | done a t => exact h.2.1
  | stopped halt t => exact h.2.1

theorem Alike.pure {a : α} (h : Q a) : D.Alike (Pure.pure a) (Pure.pure a) Q :=
  fun s hs => ⟨rfl, hs, Keeps.refl s, h⟩

theorem Alike.bind {m m' : Eval α} {f f' : α → Eval β} (hm : D.Alike m m' Q)
    (hf : ∀ a, Q a → D.Alike (f a) (f' a) Q') : D.Alike (m >>= f) (m' >>= f') Q' := by
  intro s hs
  obtain ⟨same, ends⟩ := hm s hs
  rw [Action.run_bind, Action.run_bind, ← same]
  cases h : m.run s with
  | stopped halt t =>
    rw [h] at ends
    exact ⟨rfl, ends⟩
  | done a t =>
    rw [h] at ends
    obtain ⟨ht, frame, ha⟩ := ends
    obtain ⟨same', ends'⟩ := hf a ha t ht
    refine ⟨same', ?_⟩
    dsimp only
    cases k : (f a).run t with
    | done b u =>
      rw [k] at ends'
      exact ⟨ends'.1, frame.trans ends'.2.1, ends'.2.2⟩
    | stopped halt u =>
      rw [k] at ends'
      exact ⟨ends'.1, frame.trans ends'.2.1, ends'.2.2⟩

/-- A step that reads the state may rely on its contents. -/
theorem Alike.state : D.Alike Action.state Action.state D.Holds :=
  fun s hs => ⟨rfl, hs, Keeps.refl s, hs⟩

/-- A step that changes neither frame nor the kind of contents. -/
theorem Alike.change {f : Interpreter → Interpreter} (hf : ∀ s, D.Holds s → D.Holds (f s))
    (keeps : ∀ s, D.Keeps s (f s)) : D.Alike (Action.change f) (Action.change f) fun _ => True :=
  fun s hs => ⟨rfl, hf s hs, keeps s, trivial⟩

theorem Alike.exhausted : D.Alike (Action.stop .exhausted) (Action.stop .exhausted) Q :=
  fun s hs => ⟨rfl, hs, Keeps.refl s, trivial⟩

theorem Alike.fail {e : RuntimeError} (h : D.error e) : D.Alike (Eval.fail e) (Eval.fail e) Q :=
  fun s hs => ⟨rfl, hs, Keeps.refl s, e, rfl, h⟩

theorem Alike.demand {x : Except RuntimeError α} (ok : ∀ a, x = .ok a → Q a)
    (error : ∀ e, x = .error e → D.error e) : D.Alike (Eval.demand x) (Eval.demand x) Q := by
  cases x with
  | ok a => exact Alike.pure (ok a rfl)
  | error e => exact Alike.fail (error e rfl)

theorem Alike.ite {c : Prop} [Decidable c] {m m' k k' : Eval α} (hm : c → D.Alike m m' Q)
    (hk : ¬c → D.Alike k k' Q) :
    D.Alike (if c then m else k) (if c then m' else k') Q := by
  split
  · next h => exact hm h
  · next h => exact hk h

end Rules

/-! ## The steps that a run is made of -/

section Steps

variable {α : Type} {Q : α → Prop}

/-- Contents do not depend on the namespace, the file, the depth, the streams and the numbers. -/
theorem Holds.of_eq {s t : Interpreter} (h : D.Holds s) (stack : t.stack = s.stack)
    (spaces : t.spaces = s.spaces) (loaders : t.loaders = s.loaders) : D.Holds t where
  stack := by rw [stack]; exact h.stack
  spaces := by rw [spaces]; exact h.spaces
  loaders := by rw [loaders]; exact h.loaders

/-- What an operation on the stack has to do with allowed values on it. -/
def AllowsStackOp (D : Discipline) (op : Stack → Except RuntimeError α × Stack) (Q : α → Prop) :
    Prop :=
  ∀ stack : Stack, (∀ value ∈ stack.items, D.AllowsValue value) →
    (∀ value ∈ (op stack).2.items, D.AllowsValue value) ∧
      (∀ a, (op stack).1 = .ok a → Q a) ∧ ∀ e, (op stack).1 = .error e → D.error e

theorem Alike.onStack {op : Stack → Except RuntimeError α × Stack} (hop : D.AllowsStackOp op Q) :
    D.Alike (Eval.onStack op) (Eval.onStack op) Q := by
  intro s hs
  refine ⟨rfl, ?_⟩
  obtain ⟨rest, ok, error⟩ := hop s.stack hs.stack
  unfold Eval.onStack
  dsimp only
  have keeps : ∀ stack : Stack, D.Keeps s { s with stack } := fun _ =>
    .of_eq rfl rfl rfl rfl rfl rfl (.refl _)
  split
  · next a stack h =>
    rw [h] at rest ok
    exact ⟨⟨rest, hs.spaces, hs.loaders⟩, keeps stack, ok a rfl⟩
  · next e stack h =>
    rw [h] at rest error
    exact ⟨⟨rest, hs.spaces, hs.loaders⟩, keeps stack, e, rfl, error e rfl⟩

theorem allowsStackOp_pop : D.AllowsStackOp Stack.pop D.AllowsValue := by
  intro stack hv
  unfold Stack.pop
  split
  · exact ⟨hv, by simp, fun e he => by cases he; exact D.error_of fun _ => nofun⟩
  · next value rest h =>
    rw [h] at hv
    refine ⟨fun v h => hv v (List.mem_cons_of_mem _ h), ?_, by simp⟩
    intro a ha
    cases ha
    exact hv value List.mem_cons_self

theorem allowsStackOp_popAs {expected : ValueType} {read? : Value → Option α}
    (hread : ∀ value a, D.AllowsValue value → read? value = some a → Q a) :
    D.AllowsStackOp (Stack.popAs expected read?) Q := by
  intro stack hv
  obtain ⟨rest, ok, error⟩ := allowsStackOp_pop stack hv
  unfold Stack.popAs
  split
  · next e _ h =>
    rw [h] at rest error
    exact ⟨rest, by simp, fun e' he' => by cases he'; exact error e rfl⟩
  · next value _ h =>
    rw [h] at rest ok
    split
    · next a ha =>
      refine ⟨rest, ?_, by simp⟩
      intro b hb
      cases hb
      exact hread value a (ok value rfl) ha
    · exact ⟨rest, by simp, fun e he => by cases he; exact D.error_of fun _ => nofun⟩

theorem Alike.pop : D.Alike (Eval.onStack Stack.pop) (Eval.onStack Stack.pop) D.AllowsValue :=
  Alike.onStack allowsStackOp_pop

theorem Alike.popNumber :
    D.Alike (Eval.onStack Stack.popNumber) (Eval.onStack Stack.popNumber) fun _ => True :=
  Alike.onStack (allowsStackOp_popAs fun _ _ _ _ => trivial)

theorem Alike.popBoolean :
    D.Alike (Eval.onStack Stack.popBoolean) (Eval.onStack Stack.popBoolean) fun _ => True :=
  Alike.onStack (allowsStackOp_popAs fun _ _ _ _ => trivial)

theorem Alike.popString :
    D.Alike (Eval.onStack Stack.popString) (Eval.onStack Stack.popString) fun _ => True :=
  Alike.onStack (allowsStackOp_popAs fun _ _ _ _ => trivial)

theorem Alike.popSequence :
    D.Alike (Eval.onStack Stack.popSequence) (Eval.onStack Stack.popSequence)
      fun sequence => D.AllowsCode sequence.body := by
  refine Alike.onStack (allowsStackOp_popAs ?_)
  intro value sequence hvalue hread
  cases value with
  | sequence s => cases hread; exact hvalue
  | literal l => cases hread
  | array a => cases hread

theorem Alike.popArray :
    D.Alike (Eval.onStack Stack.popArray) (Eval.onStack Stack.popArray) D.array := by
  refine Alike.onStack (allowsStackOp_popAs ?_)
  intro value array hvalue hread
  cases value with
  | array a => cases hread; exact hvalue
  | literal l => cases hread
  | sequence s => cases hread

theorem Alike.push {value : Value} (h : D.AllowsValue value) :
    D.Alike (Eval.push value) (Eval.push value) fun _ => True := by
  refine Alike.change (fun s hs => ⟨?_, hs.spaces, hs.loaders⟩)
    fun s => .of_eq rfl rfl rfl rfl rfl rfl (.refl _)
  intro v hv
  rcases List.mem_cons.1 hv with rfl | hv
  · exact h
  · exact hs.stack v hv

theorem Alike.requireShape {check : Check} {types : List ValueType} {lexeme : String} :
    D.Alike (Eval.requireShape check types lexeme) (Eval.requireShape check types lexeme)
      fun _ => True := by
  refine Alike.bind Alike.state fun _ _ => Alike.demand (fun _ _ => trivial) ?_
  intro e he
  refine D.error_of ?_
  unfold Stack.requireShape at he
  split at he
  · cases he; exact fun _ => nofun
  split at he
  · cases he; exact fun _ => nofun
  · cases he

theorem Alike.freshId : D.Alike Eval.freshId Eval.freshId fun _ => True :=
  fun _ hs =>
    ⟨rfl, hs.of_eq rfl rfl rfl, .of_eq rfl rfl rfl rfl rfl rfl (.refl _), trivial⟩

theorem Alike.nameOf {id : NodeId} {written : String} :
    D.Alike (Eval.nameOf id written) (Eval.nameOf id written) fun _ => True :=
  Alike.bind Alike.state fun _ _ => Alike.pure trivial

/-- Code that runs elsewhere comes back to where it started. -/
theorem Alike.within {home : NamespaceId} {file : Option String} {m m' : Eval α}
    (h : D.Alike m m' Q) : D.Alike (Eval.within home file m) (Eval.within home file m') Q := by
  intro s hs
  obtain ⟨same, ends⟩ := h { s with current := home, file } (hs.of_eq rfl rfl rfl)
  unfold Eval.within
  dsimp only
  rw [← same]
  refine ⟨rfl, ?_⟩
  have back : ∀ t : Interpreter, D.Keeps { s with current := home, file } t →
      D.Keeps s { t with current := s.current, file := s.file } := fun t f =>
    ⟨⟨rfl, rfl, f.depth, f.maxDepth, f.scopes, f.loaders⟩, f.size, f.quiet, f.nested⟩
  cases k : m.run { s with current := home, file } with
  | done a t =>
    rw [k] at ends
    exact ⟨ends.1.of_eq rfl rfl rfl, back t ends.2.1, ends.2.2⟩
  | stopped halt t =>
    rw [k] at ends
    exact ⟨ends.1.of_eq rfl rfl rfl, back t ends.2.1, ends.2.2⟩

/-- Code that runs one call deeper comes back to the depth where it started. -/
theorem Alike.deeper {m m' : Eval α} (h : D.Alike m m' Q) :
    D.Alike (Eval.deeper m) (Eval.deeper m') Q := by
  intro s hs
  obtain ⟨same, ends⟩ := h { s with depth := s.depth + 1 } (hs.of_eq rfl rfl rfl)
  unfold Eval.deeper
  dsimp only
  rw [← same]
  refine ⟨rfl, ?_⟩
  have back : ∀ t : Interpreter, D.Keeps { s with depth := s.depth + 1 } t →
      D.Keeps s { t with depth := t.depth - 1 } := by
    intro t f
    refine ⟨⟨f.current, f.file, ?_, f.maxDepth, f.scopes, f.loaders⟩, f.size, f.quiet, f.nested⟩
    show t.depth - 1 = s.depth
    rw [f.depth, Nat.add_sub_cancel]
  cases k : m.run { s with depth := s.depth + 1 } with
  | done a t =>
    rw [k] at ends
    exact ⟨ends.1.of_eq rfl rfl rfl, back t ends.2.1, ends.2.2⟩
  | stopped halt t =>
    rw [k] at ends
    exact ⟨ends.1.of_eq rfl rfl rfl, back t ends.2.1, ends.2.2⟩

/-- Placing an error does not change its cause. -/
theorem Alike.onFailure {f : Option String → Diagnostic → Diagnostic} {m m' : Eval α}
    (hf : ∀ file d, (f file d).cause = d.cause) (h : D.Alike m m' Q) :
    D.Alike (Eval.onFailure f m) (Eval.onFailure f m') Q := by
  intro s hs
  obtain ⟨same, ends⟩ := h s hs
  unfold Eval.onFailure
  dsimp only
  rw [← same]
  refine ⟨rfl, ?_⟩
  cases k : m.run s with
  | done a t => rw [k] at ends; exact ends
  | stopped halt t =>
    rw [k] at ends
    cases halt with
    | exhausted => exact ends
    | failed d =>
      obtain ⟨ht, frame, e, he, hd⟩ := ends
      exact ⟨ht, frame, e, (hf t.file d).trans he, hd⟩

theorem Alike.onConsole {op : Console → Except Fault α × Console} {error : Fault → RuntimeError}
    (herror : ∀ fault, D.error (error fault)) :
    D.Alike (Eval.onConsole op error) (Eval.onConsole op error) fun _ => True := by
  intro s hs
  refine ⟨rfl, ?_⟩
  unfold Eval.onConsole
  dsimp only
  have keeps : ∀ console : Console, D.Keeps s { s with console } := fun _ =>
    .of_eq rfl rfl rfl rfl rfl rfl (.refl _)
  split
  · next console _ => exact ⟨hs.of_eq rfl rfl rfl, keeps console, trivial⟩
  · next fault console _ => exact ⟨hs.of_eq rfl rfl rfl, keeps console, _, rfl, herror fault⟩

end Steps

end Discipline

end Catena

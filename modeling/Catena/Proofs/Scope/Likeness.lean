import Catena.Proofs.Scope.Names
import Catena.Proofs.Tree.Likeness

/-!
# The same names under other numbers

Names are kept by the numbers of nodes, and the numbers that a text gets depend on what was numbered
before. The names do not: two passes over the same text, each in the same function and with the same
locals, give the same names to the same nodes (`Abreast.visitAll`). So a text has the names that it has
on its own also when it comes after another one (`appended`).

What is known of numbers is kept in registers: which have been drawn, and which names they have. Code
is the same as other code, each with its register, if nodes that stand at the same place have the same
name (`Register.Same`).
-/

namespace Catena

/-- Numbers of nodes, from `first` on and before `next`, and the names that the nodes have. -/
structure Register where
  first : NodeId
  next : NodeId
  table : ScopeTable

theorem ScopeTable.lookup_extend (t later : ScopeTable) (id : NodeId) :
    (t.extend later).names.lookup id = (later.names.lookup id).or (t.names.lookup id) :=
  List.lookup_append

namespace Register

/-- Two nodes with the same name, by their numbers. -/
structure Shares (R R' : Register) (id id' : NodeId) (x x' : String) : Prop where
  drawn : R.first ≤ id ∧ id < R.next
  drawn' : R'.first ≤ id' ∧ id' < R'.next
  written : x' = x
  name : R'.table.nameOf id' x = R.table.nameOf id x

/-- Code that is the same but for its numbers and places. -/
abbrev Same (R R' : Register) : Code → Code → Prop :=
  List.Forall₂ (Node.Like .spelling (R.Shares R'))

/-- A register with more numbers, and the same names for those that it had. -/
structure Extends (R S : Register) : Prop where
  first : S.first ≤ R.first
  next : R.next ≤ S.next
  same : ∀ id, R.first ≤ id → id < R.next →
    S.table.names.lookup id = R.table.names.lookup id

variable {R R' S S' U : Register}

theorem Extends.refl (R : Register) : R.Extends R :=
  ⟨Nat.le_refl _, Nat.le_refl _, fun _ _ _ => rfl⟩

theorem Extends.trans (h : R.Extends S) (k : S.Extends U) : R.Extends U where
  first := Nat.le_trans k.first h.first
  next := Nat.le_trans h.next k.next
  same id hfirst hnext :=
    (k.same id (Nat.le_trans h.first hfirst) (Nat.lt_of_lt_of_le hnext h.next)).trans
      (h.same id hfirst hnext)

theorem extends_of_le {first first' next : NodeId} (h : first ≤ first') (table : ScopeTable) :
    (Register.mk first' next table).Extends ⟨first, next, table⟩ :=
  ⟨h, Nat.le_refl _, fun _ _ _ => rfl⟩

theorem extends_next {first next next' : NodeId} {table : ScopeTable} (h : next ≤ next') :
    (Register.mk first next table).Extends ⟨first, next', table⟩ :=
  ⟨Nat.le_refl _, h, fun _ _ _ => rfl⟩

theorem Shares.mono {id id' : NodeId} {x x' : String} (hR : R.Extends S) (hR' : R'.Extends S')
    (h : R.Shares R' id id' x x') : S.Shares S' id id' x x' where
  drawn := ⟨Nat.le_trans hR.first h.drawn.1, Nat.lt_of_lt_of_le h.drawn.2 hR.next⟩
  drawn' := ⟨Nat.le_trans hR'.first h.drawn'.1, Nat.lt_of_lt_of_le h.drawn'.2 hR'.next⟩
  written := h.written
  name := by
    have hname := h.name
    unfold ScopeTable.nameOf at hname ⊢
    rwa [hR.same id h.drawn.1 h.drawn.2, hR'.same id' h.drawn'.1 h.drawn'.2]

theorem Same.mono {c c' : Code} (hR : R.Extends S) (hR' : R'.Extends S') (h : R.Same R' c c') :
    S.Same S' c c' :=
  Node.Like.monoAll (.refl _) (fun _ _ _ _ _ => Shares.mono hR hR') h

end Register

theorem Mark.Like.number {m m' : Mark Unit} (h : Mark.Like (.spelling : Likeness Unit Unit) m m')
    (n n' : NodeId) : Mark.Like .spelling (m.number n) (m'.number n') :=
  ⟨trivial, trivial, h.word⟩

namespace Scope

/-! ## Two passes -/

/-- Two passes that have come to the same place: in the same function, with the same locals, both with
errors or both without. Numbers from `n` and from `n'` on have no names yet. -/
structure Abreast (n n' : NodeId) (r r' : Resolver) : Prop where
  function : r'.function = r.function
  locals : r'.locals = r.locals
  errors : r'.errors = [] ↔ r.errors = []
  unnamed : ∀ id, n ≤ id → r.given id = none
  unnamed' : ∀ id, n' ≤ id → r'.given id = none

namespace Abreast

variable {n n' k k' : NodeId} {r r' : Resolver}

theorem later (h : Abreast n n' r r') (hk : n ≤ k) (hk' : n' ≤ k') : Abreast k k' r r' :=
  { h with
    unnamed := fun id hid => h.unnamed id (Nat.le_trans hk hid)
    unnamed' := fun id hid => h.unnamed' id (Nat.le_trans hk' hid) }

theorem enter (h : Abreast n n' r r') (m m' : Mark NodeId) (signature : Signature) :
    Abreast n n' (r.enter m signature) (r'.enter m' signature) where
  function := rfl
  locals := h.locals
  errors := by
    unfold Resolver.enter
    rw [h.function]
    cases r.function with
    | none => exact h.errors
    | some f => simp
  unnamed := h.unnamed
  unnamed' := h.unnamed'

theorem leave (h : Abreast n n' r r') : Abreast n n' r.leave r'.leave :=
  { h with function := rfl, locals := rfl }

/-- Nodes with the next numbers share a name if the passes give them the same. -/
theorem shares_of_given {m m' : Mark NodeId} {x : String} (h : r'.given m'.tag = r.given m.tag) :
    (Register.mk m.tag (m.tag + 1) r.table).Shares ⟨m'.tag, m'.tag + 1, r'.table⟩ m.tag m'.tag x x where
  drawn := ⟨Nat.le_refl _, Nat.lt_succ_self _⟩
  drawn' := ⟨Nat.le_refl _, Nat.lt_succ_self _⟩
  written := rfl
  name := congrArg (Option.getD · x) h

theorem use (m m' : Mark NodeId) (h : Abreast m.tag m'.tag r r') (x : String) :
    Abreast (m.tag + 1) (m'.tag + 1) (r.use m x) (r'.use m' x) ∧
      (r'.use m' x).given m'.tag = (r.use m x).given m.tag := by
  have hrest : ∀ (r : Resolver) (m : Mark NodeId),
      (r.use m x).function = r.function ∧ (r.use m x).locals = r.locals := by
    intro r m
    unfold Resolver.use
    split <;> exact ⟨rfl, rfl⟩
  have hlater : ∀ {r : Resolver} {m : Mark NodeId}, (∀ id, m.tag ≤ id → r.given id = none) →
      ∀ id, m.tag + 1 ≤ id → (r.use m x).given id = none := by
    intro r m hr id hid
    rw [given_use, if_neg (Nat.ne_of_gt hid)]
    exact hr id (Nat.le_of_succ_le hid)
  refine ⟨⟨?_, ?_, ?_, hlater h.unnamed, hlater h.unnamed'⟩, ?_⟩
  · rw [(hrest r' m').1, (hrest r m).1, h.function]
  · rw [(hrest r' m').2, (hrest r m).2, h.locals]
  · rw [errors_use, errors_use, h.errors]
  · rw [given_use, given_use, if_pos rfl, if_pos rfl, h.locals, h.unnamed _ (Nat.le_refl _),
      h.unnamed' _ (Nat.le_refl _)]

theorem bind (m m' : Mark NodeId) (h : Abreast m.tag m'.tag r r') (x : String) :
    Abreast (m.tag + 1) (m'.tag + 1) (r.bind m x) (r'.bind m' x) ∧
      (r'.bind m' x).given m'.tag = (r.bind m x).given m.tag := by
  have hfunction : ∀ (r : Resolver) (m : Mark NodeId), (r.bind m x).function = r.function := by
    intro r m
    unfold Resolver.bind
    split <;> rfl
  have hlater : ∀ {r : Resolver} {m : Mark NodeId}, (∀ id, m.tag ≤ id → r.given id = none) →
      ∀ id, m.tag + 1 ≤ id → (r.bind m x).given id = none := by
    intro r m hr id hid
    rw [given_bind_of_ne r x (Nat.ne_of_gt hid)]
    exact hr id (Nat.le_of_succ_le hid)
  have hnow : r'.given m'.tag = r.given m.tag := by
    rw [h.unnamed _ (Nat.le_refl _), h.unnamed' _ (Nat.le_refl _)]
  refine ⟨⟨?_, ?_, ?_, hlater h.unnamed, hlater h.unnamed'⟩, ?_⟩
  · rw [hfunction, hfunction, h.function]
  · unfold Resolver.bind
    rw [h.function]
    cases r.function with
    | none => exact h.locals
    | some f => exact congrArg (List.cons _) h.locals
  · rw [errors_bind, errors_bind, h.errors]
  · cases hr : r.function with
    | none =>
      unfold Resolver.bind
      rw [hr, h.function.trans hr]
      exact hnow
    | some f => rw [given_bind hr, given_bind (h.function.trans hr), if_pos rfl, if_pos rfl]

end Abreast

section Pass

variable {r : Resolver}

/-- What is visited later does not change the names of earlier nodes. -/
theorem extends_visitAll (nodes : List (Node Unit)) (first n : NodeId) :
    (Register.mk first n r.table).Extends
      ⟨first, (Node.numberAll n nodes).2, (visitAll r (Node.numberAll n nodes).1).table⟩ := by
  have hdrawn := Node.drawn_numberAll n nodes
  refine ⟨Nat.le_refl _, hdrawn.le, fun id _ hid => ?_⟩
  exact given_visitAll r _ fun hmem => Nat.not_lt.2 (hdrawn.from_le id hmem) hid

end Pass

mutual

theorem Abreast.visit {n n' : NodeId} {r r' : Resolver} (hr : Abreast n n' r r')
    {node node' : Node Unit} (h : node.Same node') (hread : node.All Node.Read) :
    Abreast (node.number n).2 (node'.number n').2 (visit r (node.number n).1)
        (visit r' (node'.number n').1) ∧
      Node.Like .spelling
        (Register.Shares ⟨n, (node.number n).2, (Scope.visit r (node.number n).1).table⟩
          ⟨n', (node'.number n').2, (Scope.visit r' (node'.number n').1).table⟩)
        (node.number n).1 (node'.number n').1 := by
  have hnext := hr.later (Nat.le_succ n) (Nat.le_succ n')
  cases h with
  | literal mark value =>
    simp only [Node.number, Scope.visit]
    exact ⟨hnext, .literal (mark.number n n') value⟩
  | arithmetic mark op =>
    simp only [Node.number, Scope.visit]
    exact ⟨hnext, .arithmetic (mark.number n n') op⟩
  | comparison mark op =>
    simp only [Node.number, Scope.visit]
    exact ⟨hnext, .comparison (mark.number n n') op⟩
  | condition mark form =>
    simp only [Node.number, Scope.visit]
    exact ⟨hnext, .condition (mark.number n n') form⟩
  | importing mark request =>
    simp only [Node.number, Scope.visit]
    exact ⟨hnext, .importing (mark.number n n') request⟩
  | array mark items =>
    simp only [Node.number, Scope.visit]
    exact ⟨hnext, .array (mark.number n n') items⟩
  | program mark info hnodes => exact hread.1.elim
  | @use m m' mark x x' hx =>
    obtain rfl : x' = x := hx
    obtain ⟨hafter, hgiven⟩ := use (m.number n) (m'.number n') hr x'
    simp only [Node.number, Scope.visit]
    exact ⟨hafter, .use (mark.number n n') (shares_of_given hgiven)⟩
  | @member m m' mark token token' lexeme position x x' hx =>
    obtain rfl : x' = x := hx
    have hgiven : r'.given (m'.number n').tag = r.given (m.number n).tag := by
      show r'.given n' = r.given n
      rw [hr.unnamed n (Nat.le_refl n), hr.unnamed' n' (Nat.le_refl n')]
    simp only [Node.number, Scope.visit]
    exact ⟨hnext, .member (mark.number n n') lexeme trivial (shares_of_given hgiven)⟩
  | @binding m m' mark x x' isPublic hx =>
    obtain rfl : x' = x := hx
    obtain ⟨hafter, hgiven⟩ := bind (m.number n) (m'.number n') hr x'
    simp only [Node.number, Scope.visit]
    exact ⟨hafter, .binding (mark.number n n') isPublic (shares_of_given hgiven)⟩
  | sequence mark hblock hbody =>
    obtain ⟨hafter, hsame⟩ := hr.visitAll hbody hread.2
    simp only [Node.number, Scope.visit]
    refine ⟨hafter.later (Nat.le_succ _) (Nat.le_succ _),
      .sequence (mark.number _ _) trivial (hsame.mono ?_ ?_)⟩
    · exact Register.extends_next (Nat.le_succ _)
    · exact Register.extends_next (Nat.le_succ _)
  | @definition m m' mark signature body body' hbody =>
    let tag := (Node.numberAll n body).2
    let tag' := (Node.numberAll n' body').2
    have hinside := hr.enter (m.number tag) (m'.number tag') signature
    obtain ⟨hafter, hsame⟩ := hinside.visitAll hbody hread.2
    simp only [Node.number, Scope.visit]
    refine ⟨hafter.leave.later (Nat.le_succ _) (Nat.le_succ _),
      .definition (mark.number _ _) signature (hsame.mono ?_ ?_)⟩
    · exact Register.extends_next (Nat.le_succ _)
    · exact Register.extends_next (Nat.le_succ _)

/-- **Two passes over the same text give the same names**, whatever the numbers. -/
theorem Abreast.visitAll {n n' : NodeId} {r r' : Resolver} (hr : Abreast n n' r r')
    {nodes nodes' : List (Node Unit)} (h : List.Forall₂ Node.Same nodes nodes')
    (hread : Node.AllIn Node.Read nodes) :
    Abreast (Node.numberAll n nodes).2 (Node.numberAll n' nodes').2
        (visitAll r (Node.numberAll n nodes).1) (visitAll r' (Node.numberAll n' nodes').1) ∧
      Register.Same
        ⟨n, (Node.numberAll n nodes).2, (Scope.visitAll r (Node.numberAll n nodes).1).table⟩
        ⟨n', (Node.numberAll n' nodes').2, (Scope.visitAll r' (Node.numberAll n' nodes').1).table⟩
        (Node.numberAll n nodes).1 (Node.numberAll n' nodes').1 := by
  cases h with
  | nil =>
    simp only [Node.numberAll, Scope.visitAll]
    exact ⟨hr, .nil⟩
  | @cons node node' rest rest' hnode hrest =>
    obtain ⟨hfirst, hlike⟩ := hr.visit hnode hread.1
    obtain ⟨hafter, hsame⟩ := hfirst.visitAll hrest hread.2
    simp only [Node.numberAll, Scope.visitAll]
    refine ⟨hafter, .cons (hlike.mono (.refl _) fun _ _ _ _ _ => Register.Shares.mono ?_ ?_)
      (hsame.mono ?_ ?_)⟩
    · exact extends_visitAll rest n (node.number n).2
    · exact extends_visitAll rest' n' (node'.number n').2
    · exact Register.extends_of_le (Node.drawn_number n node).le _
    · exact Register.extends_of_le (Node.drawn_number n' node').le _

end

/-! ## One text after another -/

section Append

theorem numberAll_append (n : NodeId) (nodes more : List (Node Unit)) :
    Node.numberAll n (nodes ++ more) =
      ((Node.numberAll n nodes).1 ++ (Node.numberAll (Node.numberAll n nodes).2 more).1,
        (Node.numberAll (Node.numberAll n nodes).2 more).2) := by
  induction nodes generalizing n with
  | nil => simp only [List.nil_append, Node.numberAll]
  | cons node rest ih => simp only [List.cons_append, Node.numberAll, ih]

theorem visitAll_append (r : Resolver) (code more : Code) :
    visitAll r (code ++ more) = visitAll (visitAll r code) more := by
  induction code generalizing r with
  | nil => simp only [List.nil_append, visitAll]
  | cons node rest ih => simp only [List.cons_append, visitAll, ih]

theorem lateImportsAll_append (allowed : Bool) (code more : Code) :
    (lateImportsAll allowed (code ++ more)).2 = (lateImportsAll allowed code).2 ++
      (lateImportsAll (lateImportsAll allowed code).1 more).2 := by
  induction code generalizing allowed with
  | nil => simp only [List.nil_append, lateImportsAll]
  | cons node rest ih => simp only [List.cons_append, lateImportsAll, ih, List.append_assoc]

theorem abreast_start (n n' : NodeId) : Abreast n n' {} {} where
  function := rfl
  locals := rfl
  errors := Iff.rfl
  unnamed _ _ := rfl
  unnamed' _ _ := rfl

variable {p q : Program Unit} {nodes : List (Node Unit)}

/-- The names of a text numbered from `n` on. -/
def registered (p : Program Unit) (n : NodeId) : Register :=
  ⟨n, (Node.numberAll n p.nodes).2, (analyse (p.number n).1).table⟩

/-- A text has the same names whatever its numbers are. -/
theorem same_registered (hread : Node.AllIn Node.Read p.nodes) (n n' : NodeId) :
    (registered p n).Same (registered p n') (Node.numberAll n p.nodes).1
      (Node.numberAll n' p.nodes).1 :=
  ((abreast_start n n').visitAll (Node.Same.refl p.nodes) hread).2

/-- What is known of a text with `nodes` after it, which are those of `q`: it passes, its own nodes keep
their names, and `nodes` have the names that they have on their own. -/
structure Appended (p q : Program Unit) (nodes : List (Node Unit)) (n k : NodeId) : Prop where
  passes : (analyse (Program.number n { p with nodes := p.nodes ++ nodes }).1).failed = false
  plain : Node.AllIn Node.Plain (Node.numberAll (Node.numberAll n p.nodes).2 nodes).1
  first : (registered p n).Extends (registered { p with nodes := p.nodes ++ nodes } n)
  rest : (registered q k).Same (registered { p with nodes := p.nodes ++ nodes } n)
    (Node.numberAll k q.nodes).1 (Node.numberAll (Node.numberAll n p.nodes).2 nodes).1

/-- **A text after another one passes and keeps its names**, if both pass and it imports nothing. -/
theorem appended {n k : NodeId} (hp : (analyse (p.number n).1).failed = false)
    (hq : (analyse (q.number k).1).failed = false) (hread : Node.AllIn Node.Read q.nodes)
    (hplain : Node.AllIn Node.Plain (Node.numberAll k q.nodes).1)
    (hnodes : List.Forall₂ Node.Same q.nodes nodes) : Appended p q nodes n k := by
  let next := (Node.numberAll n p.nodes).2
  let first := visitAll {} (Node.numberAll n p.nodes).1
  have hwhole := numberAll_append n p.nodes nodes
  have hregistered : registered { p with nodes := p.nodes ++ nodes } n =
      ⟨n, (Node.numberAll next nodes).2, (visitAll first (Node.numberAll next nodes).1).table⟩ := by
    show Register.mk n (Node.numberAll n (p.nodes ++ nodes)).2
      (visitAll {} (Node.numberAll n (p.nodes ++ nodes)).1).table = _
    rw [hwhole, visitAll_append]
  obtain ⟨herrors, himports⟩ := failed_eq_false_iff_nil.1 hp
  -- after the first text the pass is outside functions again
  have houtside : first.Outside := by
    show (visitAll {} _).Outside
    rw [visitAll_eq_foldl]
    exact Resolver.Outside.foldl ⟨rfl, rfl⟩ _
  have hstart : Abreast k next {} first :=
    { function := houtside.1
      locals := houtside.2
      errors := iff_of_true herrors rfl
      unnamed := fun _ _ => rfl
      unnamed' := fun id hid => given_visitAll {} _ fun hmem =>
        Nat.not_lt.2 hid ((Node.drawn_numberAll n p.nodes).lt_next id hmem) }
  obtain ⟨hend, hsame⟩ := hstart.visitAll hnodes hread
  have hmore : Node.AllIn Node.Plain (Node.numberAll next nodes).1 := by
    refine Node.Like.allIn (fun m m' hlike hm => ?_) hsame hplain
    cases hlike <;> exact hm
  refine ⟨failed_eq_false_iff_nil.2 ⟨?_, ?_⟩, hmore, ?_, ?_⟩
  · show (visitAll {} (Node.numberAll n (p.nodes ++ nodes)).1).errors = []
    rw [hwhole, visitAll_append]
    exact hend.errors.2 (failed_eq_false_iff_nil.1 hq).1
  · show (lateImportsAll true (Node.numberAll n (p.nodes ++ nodes)).1).2 = []
    rw [hwhole, lateImportsAll_append, lateImportsAll_of_plain _ _ hmore, List.append_nil]
    exact himports
  · rw [hregistered]
    exact extends_visitAll nodes n next
  · rw [hregistered]
    exact Register.Same.mono (.refl _)
      (Register.extends_of_le (Node.drawn_numberAll n p.nodes).le _) hsame

end Append

end Scope

end Catena

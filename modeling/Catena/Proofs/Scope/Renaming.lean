import Catena.Proofs.Scope.Names
import Catena.Proofs.Tree.Likeness
import Mathlib.Data.List.Pairwise
import Mathlib.Logic.Equiv.Basic

/-!
# Renaming a local

`Node.renameLocalAll f x y` gives the local `x` of the function `f` the name `y`: every `let x` in
the body of `f`, and every bare `x` there that comes after one of them. Tokens may move when a name
gets longer or shorter, so trees are compared by `Node.Alike`, which leaves it open how names and
positions are compared.

The passes over the two programs are followed side by side, outside of `f` (`Beside`) and inside
(`Inside`). Both give names to the same nodes, and where the one gives the local name of `x`, the
other gives that of `y`; a node that was renamed is always one that was given a name (`Covers`). So
the names of all nodes correspond by an exchange of two names (`analyse_renameLocal`).
-/

namespace Catena

namespace Node

/-- Nodes with the same numbers that are the same but for the tokens that they are reported at and for
the names that they bind or use. Positions are compared by `R`, and names by `N`, which is given the
number of the node too. -/
abbrev Alike (R : Position → Position → Prop) (N : NodeId → String → String → Prop) :
    Node NodeId → Node NodeId → Prop :=
  Like { tag := fun id id' => id' = id, position := R, word := fun _ _ => True } fun id _ => N id

/-- Code is like itself. -/
theorem Alike.reflAll {N : NodeId → String → String → Prop} (h : ∀ id name, N id name name)
    (code : Code) : List.Forall₂ (Alike Eq N) code code :=
  Like.selfAll ⟨fun _ => rfl, fun _ => rfl, fun _ => trivial⟩ code
    (allIn_of_forall (fun _ _ _ => h _ _) code)

/-! ## Renaming -/

mutual

/-- Whether a node, or one in its sequences, binds `name`. -/
def bindsWithin (name : String) : Node NodeId → Bool
  | sequence _ _ body => bindsWithinAll name body
  | binding _ bound _ => bound == name
  | _ => false

def bindsWithinAll (name : String) : Code → Bool
  | [] => false
  | node :: rest => node.bindsWithin name || bindsWithinAll name rest

end

/-- The name of a local `x` that is to be called `y`, once it is bound. Other names stay. -/
def newName (x y : String) (bound : Bool) (name : String) : String :=
  if bound && name == x then y else name

@[simp] theorem newName_self (x y : String) : newName x y true x = y := by
  simp [newName]

theorem newName_of_ne {x name : String} (h : name ≠ x) (y : String) (bound : Bool) :
    newName x y bound name = name := by
  simp [newName, h]

@[simp] theorem newName_false (x y name : String) : newName x y false name = name := rfl

/-- The new name is not in use. -/
theorem eq_of_newName_eq {x y name other : String} {bound : Bool} (hname : name ≠ y)
    (hother : other ≠ y) (h : newName x y bound other = newName x y true name) : other = name := by
  unfold newName at h
  grind

mutual

/-- A node in the body of a function, with the local `x` called `y`. Uses of `x` are those of the
local if it is `bound` before. -/
def relabel (x y : String) (bound : Bool) : Node NodeId → Node NodeId
  | sequence m block body => sequence m block (relabelAll x y bound body)
  | binding m name isPublic => binding m (newName x y true name) isPublic
  | identifier m none name => identifier m none (newName x y bound name)
  | node => node

def relabelAll (x y : String) (bound : Bool) : Code → Code
  | [] => []
  | node :: rest => node.relabel x y bound :: relabelAll x y (bound || node.bindsWithin x) rest

end

mutual

/-- A node in which the local `x` of the function `f` is called `y`. -/
def renameLocal (f x y : String) : Node NodeId → Node NodeId
  | sequence m block body => sequence m block (renameLocalAll f x y body)
  | definition m signature body =>
    definition m signature
      (if signature.name = f then relabelAll x y false body else renameLocalAll f x y body)
  | node => node

def renameLocalAll (f x y : String) : Code → Code
  | [] => []
  | node :: rest => node.renameLocal f x y :: renameLocalAll f x y rest

end

/-- A node of a tree that was read, all words of which are without the mark of locals. -/
structure Unmarked (n : Node NodeId) : Prop where
  read : n.Read
  named : n.Named fun x => '$' ∉ x.toList
  spelled : n.Spelled fun x => '$' ∉ x.toList

end Node

namespace Scope

open Node (spreadAll)

/-! ## The exchange of two locals -/

/-- Exchanges the local names `x` and `y` of `f`. -/
def exchange (f x y : String) : Equiv.Perm String :=
  Equiv.swap (localName f x) (localName f y)

theorem localName_inj {f x y : String} : localName f x = localName f y ↔ x = y := by
  rw [← String.toList_inj, toList_localName, toList_localName, List.append_cancel_left_eq,
    List.cons.injEq, String.toList_inj]
  simp

theorem exchange_of_unmarked {name : String} (h : '$' ∉ name.toList) (f x y : String) :
    exchange f x y name = name := by
  have hne : ∀ z, name ≠ localName f z := by
    rintro z rfl
    exact h (mark_mem_localName f z)
  exact Equiv.swap_apply_of_ne_of_ne (hne x) (hne y)

theorem takeWhile_localName {f : String} (hf : '$' ∉ f.toList) (x : String) :
    (localName f x).toList.takeWhile (· != '$') = f.toList := by
  have hword : ∀ c ∈ f.toList, (c != '$') = true := by
    intro c hc
    rw [bne_iff_ne]
    rintro rfl
    exact hf hc
  rw [toList_localName, List.takeWhile_append_of_pos hword, List.takeWhile_cons_of_neg (by simp),
    List.append_nil]

/-- The locals of other functions stay. -/
theorem exchange_of_ne {f g : String} (hf : '$' ∉ f.toList) (hg : '$' ∉ g.toList) (h : g ≠ f)
    (x y z : String) : exchange f x y (localName g z) = localName g z := by
  have hne : ∀ w, localName g z ≠ localName f w := by
    intro w heq
    have hfunction := takeWhile_localName hg z
    rw [heq, takeWhile_localName hf w, String.toList_inj] at hfunction
    exact h hfunction.symm
  exact Equiv.swap_apply_of_ne_of_ne (hne x) (hne y)

/-- The locals of the function get their new names. -/
theorem exchange_localName {y name : String} (h : name ≠ y) (f x : String) :
    exchange f x y (localName f name) = localName f (Node.newName x y true name) := by
  unfold exchange
  by_cases hx : name = x
  · rw [hx, Equiv.swap_apply_left, Node.newName_self]
  · rw [Equiv.swap_apply_of_ne_of_ne (mt localName_inj.1 hx) (mt localName_inj.1 h),
      Node.newName_of_ne hx]

/-! ## Two passes in step -/

@[simp] theorem function_use (r : Resolver) (m : Mark NodeId) (name : String) :
    (r.use m name).function = r.function := by
  unfold Resolver.use
  split <;> rfl

@[simp] theorem locals_use (r : Resolver) (m : Mark NodeId) (name : String) :
    (r.use m name).locals = r.locals := by
  unfold Resolver.use
  split <;> rfl

@[simp] theorem function_bind (r : Resolver) (m : Mark NodeId) (name : String) :
    (r.bind m name).function = r.function := by
  unfold Resolver.bind
  split <;> rfl

theorem locals_bind {r : Resolver} {g : String} (hr : r.function = some g) (m : Mark NodeId)
    (name : String) : (r.bind m name).locals = (name, localName g name) :: r.locals := by
  unfold Resolver.bind
  rw [hr]

/-- Two passes that are at the same place, have given corresponding names to the same nodes, and
have found as many errors. -/
structure InStep (σ : Equiv.Perm String) (r r' : Resolver) : Prop where
  function : r'.function = r.function
  given : ∀ id, r'.given id = (r.given id).map σ
  errors : r'.errors.length = r.errors.length

namespace InStep

variable {σ : Equiv.Perm String} {r r' : Resolver} {m m' : Mark NodeId}

theorem use (h : InStep σ r r') (tag : m'.tag = m.tag) {name name' : String}
    (hlocal : r'.locals.lookup name' = (r.locals.lookup name).map σ) :
    InStep σ (r.use m name) (r'.use m' name') := by
  refine ⟨?_, fun id => ?_, ?_⟩
  · rw [function_use, function_use, h.function]
  · rw [given_use, given_use, tag, hlocal, h.given]
    split
    · rw [Option.map_or]
    · rfl
  · rw [errors_use, errors_use, h.errors]

theorem bind (h : InStep σ r r') (tag : m'.tag = m.tag) {name name' : String}
    (hname : ∀ g, r.function = some g → localName g name' = σ (localName g name)) :
    InStep σ (r.bind m name) (r'.bind m' name') := by
  refine ⟨?_, fun id => ?_, ?_⟩
  · rw [function_bind, function_bind, h.function]
  · cases hr : r.function with
    | none =>
      unfold Resolver.bind
      rw [h.function, hr]
      exact h.given id
    | some g =>
      rw [given_bind hr, given_bind (h.function.trans hr), tag, h.given, hname g hr]
      split <;> rfl
  · rw [errors_bind, errors_bind, h.errors]

theorem enter (h : InStep σ r r') (m m' : Mark NodeId) (signature : Signature) :
    InStep σ (r.enter m signature) (r'.enter m' signature) := by
  refine ⟨rfl, h.given, ?_⟩
  unfold Resolver.enter
  rw [h.function]
  cases r.function with
  | none => exact h.errors
  | some g => simp [h.errors]

theorem leave (h : InStep σ r r') : InStep σ r.leave r'.leave :=
  ⟨rfl, h.given, h.errors⟩

end InStep

/-- The pass has given a name to the node, or the node has kept its name, which is a word. -/
def Covers (r : Resolver) (id : NodeId) (name name' : String) : Prop :=
  (name' = name ∧ '$' ∉ name.toList) ∨ (r.given id).isSome

theorem isSome_given_use {r : Resolver} {id : NodeId} (h : (r.given id).isSome) (m : Mark NodeId)
    (name : String) : ((r.use m name).given id).isSome := by
  rw [given_use]
  split
  · rw [Option.isSome_or, h, Bool.or_true]
  · exact h

theorem isSome_given_bind {r : Resolver} {id : NodeId} (h : (r.given id).isSome) (m : Mark NodeId)
    (name : String) : ((r.bind m name).given id).isSome := by
  by_cases hid : id = m.tag
  · cases hr : r.function with
    | none =>
      unfold Resolver.bind
      rw [hr]
      exact h
    | some g => rw [given_bind hr, if_pos hid, Option.isSome_some]
  · rw [given_bind_of_ne r name hid]
    exact h

mutual

theorem isSome_given_visit {r : Resolver} {id : NodeId} (h : (r.given id).isSome)
    (node : Node NodeId) : ((visit r node).given id).isSome := by
  cases node with
  | sequence m block body =>
    simp only [visit]
    exact isSome_given_visitAll h body
  | definition m signature body =>
    simp only [visit]
    have henter : ((r.enter m signature).given id).isSome := h
    exact isSome_given_visitAll henter body
  | identifier m qualifier name =>
    cases qualifier with
    | some token => simpa only [visit] using h
    | none =>
      simp only [visit]
      exact isSome_given_use h m name
  | binding m name isPublic =>
    simp only [visit]
    exact isSome_given_bind h m name
  | literal m value | arithmetic m op | comparison m op | condition m form | importing m request
  | array m items | program m info nodes => simpa only [visit] using h

/-- A name that was given stays. -/
theorem isSome_given_visitAll {r : Resolver} {id : NodeId} (h : (r.given id).isSome)
    (code : Code) : ((visitAll r code).given id).isSome := by
  cases code with
  | nil => simpa only [visitAll] using h
  | cons node rest =>
    simp only [visitAll]
    exact isSome_given_visitAll (isSome_given_visit h node) rest

end

theorem Covers.visitAll {r : Resolver} {id : NodeId} {name name' : String}
    (h : Covers r id name name') (code : Code) : Covers (visitAll r code) id name name' :=
  h.imp_right fun hgiven => isSome_given_visitAll hgiven code

theorem mem_spread_self (node : Node NodeId) : node ∈ node.spread := by
  cases node <;> simp [Node.spread]

/-- The same name. -/
def SameName (_ : NodeId) (name name' : String) : Prop :=
  name' = name

theorem SameName.refl (id : NodeId) (name : String) : SameName id name name :=
  rfl

section Passes

variable {R : Position → Position → Prop} {f x y : String}

variable (f x y) in
/-- Passes inside `f`, over its body and over the body with its new names. -/
structure Inside (bound : Bool) (r r' : Resolver) : Prop extends InStep (exchange f x y) r r' where
  inside : r.function = some f
  locals : ∀ name, name ≠ y →
    r'.locals.lookup (Node.newName x y bound name) = (r.locals.lookup name).map (exchange f x y)
  known : bound = true → (r.locals.lookup x).isSome

theorem Inside.use {bound : Bool} {r r' : Resolver} (h : Inside f x y bound r r')
    {m m' : Mark NodeId} (tag : m'.tag = m.tag) {name : String} (hname : name ≠ y) :
    Inside f x y bound (r.use m name) (r'.use m' (Node.newName x y bound name)) where
  toInStep := h.toInStep.use tag (h.locals name hname)
  inside := by rw [function_use, h.inside]
  locals := by
    rw [locals_use, locals_use]
    exact h.locals
  known := by
    rw [locals_use]
    exact h.known

/-- A use is renamed only if it is of a local, and so has been given a name. -/
theorem Inside.covers_use {bound : Bool} {r r' : Resolver} (h : Inside f x y bound r r')
    (m : Mark NodeId) {name : String} (hword : '$' ∉ name.toList) :
    Covers (r.use m name) m.tag name (Node.newName x y bound name) := by
  by_cases hx : name = x
  · subst hx
    cases bound with
    | false => exact .inl ⟨rfl, hword⟩
    | true =>
      right
      rw [given_use, if_pos rfl, Option.isSome_or, h.known rfl, Bool.true_or]
  · exact .inl ⟨Node.newName_of_ne hx y bound, hword⟩

theorem Inside.bind {bound : Bool} {r r' : Resolver} (h : Inside f x y bound r r')
    {m m' : Mark NodeId} (tag : m'.tag = m.tag) {name : String} (hname : name ≠ y) :
    Inside f x y (bound || name == x) (r.bind m name)
      (r'.bind m' (Node.newName x y true name)) where
  toInStep := by
    refine h.toInStep.bind tag fun g hg => ?_
    rw [h.inside] at hg
    cases hg
    exact (exchange_localName hname f x).symm
  inside := by rw [function_bind, h.inside]
  locals := by
    intro other hother
    rw [locals_bind h.inside, locals_bind (h.function.trans h.inside), List.lookup_cons,
      List.lookup_cons, ← exchange_localName hname]
    by_cases heq : other = name
    · subst heq
      have hbound : Node.newName x y (bound || other == x) other = Node.newName x y true other := by
        by_cases hx : other = x
        · simp [hx]
        · rw [Node.newName_of_ne hx, Node.newName_of_ne hx]
      simp [hbound]
    · have hne : Node.newName x y (bound || name == x) other ≠ Node.newName x y true name :=
        fun h => heq (Node.eq_of_newName_eq hname hother h)
      have hold : Node.newName x y (bound || name == x) other = Node.newName x y bound other := by
        by_cases hx : name = x
        · have hother : other ≠ x := hx ▸ heq
          rw [Node.newName_of_ne hother, Node.newName_of_ne hother]
        · rw [beq_false_of_ne hx, Bool.or_false]
      rw [beq_false_of_ne hne, beq_false_of_ne heq, hold]
      exact h.locals other hother
  known := by
    intro hbound
    rw [locals_bind h.inside, List.lookup_cons]
    by_cases hx : name = x
    · simp [hx]
    · rw [beq_false_of_ne hx, Bool.or_false] at hbound
      rw [beq_false_of_ne (Ne.symm hx)]
      exact h.known hbound

mutual

theorem inside_visit {bound : Bool} (node : Node NodeId) (hwords : node.All Node.Unmarked)
    (hbody : ∀ n ∈ node.spread, n.isDefinition = false ∧ n.name? ≠ some y) {node' : Node NodeId}
    (hnode : Node.Alike R SameName (node.relabel x y bound) node') {r r' : Resolver}
    (h : Inside f x y bound r r') :
    Inside f x y (bound || node.bindsWithin x) (visit r node) (visit r' node') ∧
      Node.Alike R (Covers (visit r node)) node node' := by
  obtain ⟨hplain, hfree⟩ := hbody node (mem_spread_self node)
  cases node with
  | sequence m block body =>
    simp only [Node.relabel] at hnode
    cases hnode with
    | sequence mark hblock hcode =>
      simp only [Node.spread, List.mem_cons, forall_eq_or_imp] at hbody
      obtain ⟨hinside, halike⟩ := inside_visitAll body hwords.2 hbody.2 hcode h
      simp only [visit, Node.bindsWithin]
      exact ⟨hinside, .sequence mark hblock halike⟩
  | definition m signature body => cases hplain
  | program m info nodes => exact hwords.1.read.elim
  | identifier m qualifier name =>
    have hword : '$' ∉ name.toList := hwords.named
    simp only [Node.bindsWithin, Bool.or_false]
    cases qualifier with
    | some token =>
      simp only [Node.relabel] at hnode
      cases hnode with
      | member mark lexeme position hsame =>
        simp only [visit]
        exact ⟨h, .member mark lexeme position (.inl ⟨hsame, hword⟩)⟩
    | none =>
      simp only [Node.relabel] at hnode
      cases hnode with
      | use mark hsame =>
        cases hsame
        simp only [visit]
        exact ⟨h.use mark.tag fun hy => hfree (congrArg some hy), .use mark (h.covers_use m hword)⟩
  | binding m name isPublic =>
    have hname : name ≠ y := fun hy => hfree (congrArg some hy)
    simp only [Node.relabel] at hnode
    cases hnode with
    | binding mark _ hsame =>
      cases hsame
      simp only [visit, Node.bindsWithin]
      refine ⟨h.bind mark.tag hname, .binding mark isPublic (.inr ?_)⟩
      rw [given_bind h.inside, if_pos rfl, Option.isSome_some]
  | literal m value | arithmetic m op | comparison m op | condition m form | importing m request
  | array m items =>
    simp only [Node.relabel] at hnode
    simp only [Node.bindsWithin, Bool.or_false]
    cases hnode
    simp only [visit]
    refine ⟨h, ?_⟩
    constructor
    assumption

theorem inside_visitAll {bound : Bool} (code : Code) (hwords : Node.AllIn Node.Unmarked code)
    (hbody : ∀ n ∈ spreadAll code, n.isDefinition = false ∧ n.name? ≠ some y) {code' : Code}
    (hcode : List.Forall₂ (Node.Alike R SameName) (Node.relabelAll x y bound code) code')
    {r r' : Resolver} (h : Inside f x y bound r r') :
    Inside f x y (bound || Node.bindsWithinAll x code) (visitAll r code) (visitAll r' code') ∧
      List.Forall₂ (Node.Alike R (Covers (visitAll r code))) code code' := by
  cases code with
  | nil =>
    simp only [Node.relabelAll] at hcode
    cases hcode
    simp only [visitAll, Node.bindsWithinAll, Bool.or_false]
    exact ⟨h, .nil⟩
  | cons node rest =>
    simp only [Node.relabelAll] at hcode
    cases hcode with
    | cons hnode hrest =>
      simp only [Node.spreadAll, List.mem_append] at hbody
      obtain ⟨hstep, halike⟩ :=
        inside_visit node hwords.1 (fun n hn => hbody n (.inl hn)) hnode h
      obtain ⟨hinside, halikes⟩ :=
        inside_visitAll rest hwords.2 (fun n hn => hbody n (.inr hn)) hrest hstep
      simp only [visitAll, Node.bindsWithinAll, ← Bool.or_assoc]
      exact ⟨hinside, .cons (halike.mono (.refl _) fun _ _ _ _ _ hcovers => hcovers.visitAll rest) halikes⟩

end

/-! ### Outside the function -/

variable (f x y) in
/-- Passes outside `f`: over a program, and over the program with the new names. -/
structure Beside (r r' : Resolver) : Prop extends InStep (exchange f x y) r r' where
  beside : ∀ g, r.function = some g → g ≠ f ∧ '$' ∉ g.toList
  locals : ∀ name, r'.locals.lookup name = (r.locals.lookup name).map (exchange f x y)

theorem Beside.use {r r' : Resolver} (h : Beside f x y r r') {m m' : Mark NodeId}
    (tag : m'.tag = m.tag) (name : String) : Beside f x y (r.use m name) (r'.use m' name) where
  toInStep := h.toInStep.use tag (h.locals name)
  beside := by
    rw [function_use]
    exact h.beside
  locals := by
    rw [locals_use, locals_use]
    exact h.locals

theorem Beside.bind (hf : '$' ∉ f.toList) {r r' : Resolver} (h : Beside f x y r r')
    {m m' : Mark NodeId} (tag : m'.tag = m.tag) (name : String) :
    Beside f x y (r.bind m name) (r'.bind m' name) where
  toInStep := by
    refine h.toInStep.bind tag fun g hg => ?_
    obtain ⟨hne, hmark⟩ := h.beside g hg
    exact (exchange_of_ne hf hmark hne x y name).symm
  beside := by
    rw [function_bind]
    exact h.beside
  locals := by
    intro other
    cases hr : r.function with
    | none =>
      unfold Resolver.bind
      rw [h.function, hr]
      exact h.locals other
    | some g =>
      obtain ⟨hne, hmark⟩ := h.beside g hr
      rw [locals_bind hr, locals_bind (h.function.trans hr), List.lookup_cons, List.lookup_cons,
        h.locals]
      cases other == name with
      | false => rfl
      | true =>
        dsimp only
        rw [Option.map_some, exchange_of_ne hf hmark hne]

theorem InStep.beside_leave {r r' : Resolver} (h : InStep (exchange f x y) r r') :
    Beside f x y r.leave r'.leave where
  toInStep := h.leave
  beside := nofun
  locals := fun _ => rfl

/-- Functions that may have their local renamed: no function stands in another, and the new name
does not occur in the body. -/
def Renamable (f y : String) (code : Code) : Prop :=
  ∀ m signature body, .definition m signature body ∈ spreadAll code →
    ∀ n ∈ spreadAll body, n.isDefinition = false ∧ (signature.name = f → n.name? ≠ some y)

mutual

theorem beside_visit (hf : '$' ∉ f.toList) (node : Node NodeId) (hwords : node.All Node.Unmarked)
    (hbodies : ∀ m signature body, .definition m signature body ∈ node.spread →
      ∀ n ∈ spreadAll body, n.isDefinition = false ∧ (signature.name = f → n.name? ≠ some y))
    {node' : Node NodeId} (hnode : Node.Alike R SameName (node.renameLocal f x y) node')
    {r r' : Resolver} (h : Beside f x y r r') :
    Beside f x y (visit r node) (visit r' node') ∧
      Node.Alike R (Covers (visit r node)) node node' := by
  cases node with
  | sequence m block body =>
    simp only [Node.renameLocal] at hnode
    cases hnode with
    | sequence mark hblock hcode =>
      have hinner : Renamable f y body := fun m' signature body' hmem =>
        hbodies m' signature body' (by simp only [Node.spread]; exact List.mem_cons_of_mem _ hmem)
      obtain ⟨hbeside, halike⟩ := beside_visitAll hf body hwords.2 hinner hcode h
      simp only [visit]
      exact ⟨hbeside, .sequence mark hblock halike⟩
  | definition m signature body =>
    have hbody := hbodies m signature body (mem_spread_self _)
    simp only [Node.renameLocal] at hnode
    cases hnode with
    | @definition _ m' mark _ _ body' hcode =>
      simp only [visit]
      by_cases hname : signature.name = f
      · rw [if_pos hname] at hcode
        have henter : Inside f x y false (r.enter m signature) (r'.enter m' signature) :=
          { toInStep := h.toInStep.enter m m' signature
            inside := congrArg some hname
            locals := fun name _ => h.locals name
            known := nofun }
        obtain ⟨hinside, halike⟩ := inside_visitAll body hwords.2
          (fun n hn => ⟨(hbody n hn).1, (hbody n hn).2 hname⟩) hcode henter
        exact ⟨hinside.toInStep.beside_leave, .definition mark signature halike⟩
      · rw [if_neg hname] at hcode
        have henter : Beside f x y (r.enter m signature) (r'.enter m' signature) :=
          { toInStep := h.toInStep.enter m m' signature
            beside := by
              rintro g hg
              cases hg
              exact ⟨hname, hwords.1.named⟩
            locals := h.locals }
        have hinner : Renamable f y body := fun m' signature' body' hmem => by
          cases (hbody _ hmem).1
        obtain ⟨hbeside, halike⟩ := beside_visitAll hf body hwords.2 hinner hcode henter
        exact ⟨hbeside.toInStep.beside_leave, .definition mark signature halike⟩
  | program m info nodes => exact hwords.1.read.elim
  | identifier m qualifier name =>
    have hword : '$' ∉ name.toList := hwords.named
    simp only [Node.renameLocal] at hnode
    cases hnode with
    | member mark lexeme position hsame =>
      simp only [visit]
      exact ⟨h, .member mark lexeme position (.inl ⟨hsame, hword⟩)⟩
    | use mark hsame =>
      cases hsame
      simp only [visit]
      exact ⟨h.use mark.tag name, .use mark (.inl ⟨rfl, hword⟩)⟩
  | binding m name isPublic =>
    have hword : '$' ∉ name.toList := hwords.named
    simp only [Node.renameLocal] at hnode
    cases hnode with
    | binding mark _ hsame =>
      cases hsame
      simp only [visit]
      exact ⟨h.bind hf mark.tag name, .binding mark isPublic (.inl ⟨rfl, hword⟩)⟩
  | literal m value | arithmetic m op | comparison m op | condition m form | importing m request
  | array m items =>
    simp only [Node.renameLocal] at hnode
    cases hnode
    simp only [visit]
    refine ⟨h, ?_⟩
    constructor
    assumption

theorem beside_visitAll (hf : '$' ∉ f.toList) (code : Code) (hwords : Node.AllIn Node.Unmarked code)
    (hbodies : Renamable f y code) {code' : Code}
    (hcode : List.Forall₂ (Node.Alike R SameName) (Node.renameLocalAll f x y code) code')
    {r r' : Resolver} (h : Beside f x y r r') :
    Beside f x y (visitAll r code) (visitAll r' code') ∧
      List.Forall₂ (Node.Alike R (Covers (visitAll r code))) code code' := by
  cases code with
  | nil =>
    simp only [Node.renameLocalAll] at hcode
    cases hcode
    simp only [visitAll]
    exact ⟨h, .nil⟩
  | cons node rest =>
    simp only [Node.renameLocalAll] at hcode
    cases hcode with
    | cons hnode hrest =>
      simp only [Renamable, Node.spreadAll, List.mem_append] at hbodies
      obtain ⟨hstep, halike⟩ := beside_visit hf node hwords.1
        (fun m signature body hmem => hbodies m signature body (.inl hmem)) hnode h
      obtain ⟨hbeside, halikes⟩ := beside_visitAll hf rest hwords.2
        (fun m signature body hmem => hbodies m signature body (.inr hmem)) hrest hstep
      simp only [visitAll]
      exact ⟨hbeside, .cons (halike.mono (.refl _) fun _ _ _ _ _ hcovers => hcovers.visitAll rest) halikes⟩

end

end Passes

/-! ## The renamed program -/

mutual

theorem lateImports_alike {R : Position → Position → Prop}
    {N : NodeId → String → String → Prop} (allowed : Bool) :
    {n n' : Node NodeId} → Node.Alike R N n n' →
    (lateImports allowed n').1 = (lateImports allowed n).1 ∧
      (lateImports allowed n').2.length = (lateImports allowed n).2.length
  | _, _, .sequence _ _ hbody => ⟨rfl, (lateImportsAll_alike false hbody).2⟩
  | _, _, .definition _ _ hbody => ⟨rfl, (lateImportsAll_alike false hbody).2⟩
  | _, _, .importing _ _ => ⟨rfl, by cases allowed <;> rfl⟩
  | _, _, .literal _ _ | _, _, .arithmetic _ _ | _, _, .comparison _ _ | _, _, .condition _ _
  | _, _, .use _ _ | _, _, .member _ _ _ _ | _, _, .binding _ _ _ | _, _, .array _ _
  | _, _, .program _ _ _ => ⟨rfl, rfl⟩

/-- Where imports stand does not depend on names. -/
theorem lateImportsAll_alike {R : Position → Position → Prop}
    {N : NodeId → String → String → Prop} (allowed : Bool) :
    {code code' : Code} → List.Forall₂ (Node.Alike R N) code code' →
    (lateImportsAll allowed code').1 = (lateImportsAll allowed code).1 ∧
      (lateImportsAll allowed code').2.length = (lateImportsAll allowed code).2.length
  | _, _, .nil => ⟨rfl, rfl⟩
  | _, _, .cons hn hrest => by
    obtain ⟨hallowed, hlate⟩ := lateImports_alike allowed hn
    obtain ⟨hafter, hothers⟩ := lateImportsAll_alike (lateImports allowed _).1 hrest
    simp only [lateImportsAll, hallowed, List.length_append]
    exact ⟨hafter, by rw [hlate, hothers]⟩

end

/-- Names that two tables give to the same node, the second by another naming. -/
def Renamed (σ : Equiv.Perm String) (t t' : ScopeTable) (id : NodeId) (name name' : String) :
    Prop :=
  t'.nameOf id name' = σ (t.nameOf id name)

theorem InStep.renamed {f x y : String} {r r' : Resolver} (h : InStep (exchange f x y) r r')
    {id : NodeId} {name name' : String} (hcovers : Covers r id name name') :
    Renamed (exchange f x y) r.table r'.table id name name' := by
  have hgiven : r'.table.names.lookup id = (r.table.names.lookup id).map _ := h.given id
  unfold Renamed ScopeTable.nameOf
  rw [hgiven]
  cases hname : r.table.names.lookup id with
  | some given => rfl
  | none =>
    rcases hcovers with ⟨rfl, hword⟩ | hsome
    · exact (exchange_of_unmarked hword f x y).symm
    · have hnone : r.given id = none := hname
      rw [hnone] at hsome
      cases hsome

/-- **Renaming a local exchanges two names**: the program passes as before, and the names that its
nodes get are those that they had, but for the local. -/
theorem analyse_renameLocal {R : Position → Position → Prop} {f x y : String}
    {p p' : Program NodeId} (hf : '$' ∉ f.toList) (hwords : Node.AllIn Node.Unmarked p.nodes)
    (hbodies : Renamable f y p.nodes) (hpass : (analyse p).failed = false)
    (hrenamed : List.Forall₂ (Node.Alike R SameName) (Node.renameLocalAll f x y p.nodes) p'.nodes) :
    (analyse p').failed = false ∧
      List.Forall₂ (Node.Alike R (Renamed (exchange f x y) (analyse p).table (analyse p').table))
        p.nodes p'.nodes := by
  have hstart : Beside f x y {} {} :=
    { function := rfl
      given := fun _ => rfl
      errors := rfl
      beside := nofun
      locals := fun _ => rfl }
  obtain ⟨hbeside, halike⟩ := beside_visitAll hf p.nodes hwords hbodies hrenamed hstart
  obtain ⟨herrors, hlate⟩ := failed_eq_false_iff_nil.1 hpass
  have herrors' := hbeside.errors
  have hlate' := (lateImportsAll_alike true halike).2
  rw [herrors, List.length_nil, List.length_eq_zero_iff] at herrors'
  rw [hlate, List.length_nil, List.length_eq_zero_iff] at hlate'
  exact ⟨failed_eq_false_iff_nil.2 ⟨herrors', hlate'⟩,
    Node.Like.monoAll (.refl _) (fun _ _ _ _ _ hcovers => hbeside.toInStep.renamed hcovers) halike⟩

/-! ## Programs that were read -/

/-- The name of the function that a node defines. -/
def functionName? : Node NodeId → Option String
  | .definition _ signature _ => some signature.name
  | _ => none

/-- The names of the functions that some code defines, in order. -/
def functionNames (code : Code) : List String :=
  (spreadAll code).filterMap functionName?

/-- If functions have different names, the new name has to be new to one body only. -/
theorem renamable_of_nodup {code : Code} (hunnested : Unnested code)
    (hnames : (functionNames code).Nodup) {m : Mark NodeId} {signature : Signature} {body : Code}
    (hfunction : .definition m signature body ∈ spreadAll code) {y : String}
    (hfree : ∀ n ∈ spreadAll body, n.name? ≠ some y) : Renamable signature.name y code := by
  intro m' signature' body' hmem n hn
  refine ⟨hunnested m' signature' body' hmem n hn, fun hname => ?_⟩
  have hpairwise := List.pairwise_filterMap.1 hnames
  have hsymm : Std.Symm fun a a' : Node NodeId =>
      ∀ g, functionName? a = some g → ∀ g', functionName? a' = some g' → g ≠ g' :=
    ⟨fun _ _ h g hg g' hg' => (h g' hg' g hg).symm⟩
  have hsame : Node.definition m' signature' body' = .definition m signature body := by
    by_contra hne
    exact hpairwise.forall hmem hfunction hne _ rfl _ rfl hname
  cases hsame
  exact hfree n hn

theorem allIn_unmarked_of_ofSource {name source : String} {q : Program Unit}
    (h : Tree.ofSource name source = .ok q) (n : NodeId) :
    Node.AllIn Node.Unmarked (q.number n).1.nodes := by
  have hread := Node.allIn_read_numberAll n q.nodes (Tree.allIn_read_of_ofSource h)
  have hnamed := Node.allIn_numberAll Node.named_number n q.nodes (Tree.allIn_named_of_ofSource h)
  have hspelled :=
    Node.allIn_numberAll Node.spelled_number n q.nodes (Tree.allIn_spelled_of_ofSource h)
  exact ((hread.and hnamed).and hspelled).mono fun _ hn => ⟨hn.1.1, hn.1.2, hn.2⟩

end Scope

end Catena

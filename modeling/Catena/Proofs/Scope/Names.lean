import Catena.Proofs.Scope.Bodies
import Catena.Proofs.Tree.Naming
import Mathlib.Data.List.Basic

/-!
# Which names nodes have

From where a node stands follows which function its name is local to (`owner`), and so the name that
it is meant to have (`ownedName`).

Inside a function the pass knows exactly the locals that were bound before (`locals_foldl`), at the
end of the function it forgets them, and it gives a name to no other node than the one it is at
(`given_foldl`). So every node gets the name that it is meant to have (`nameOf_of_stands`). No name in
a text has the mark of locals in it, so different locals have different names
(`ownedName_eq_iff`). `analyse_resolves` says this of every program that was read.
-/

namespace Catena

namespace Node

/-- Whether a node binds `name`. -/
def binds (name : String) : Node NodeId → Bool
  | binding _ bound _ => bound == name
  | _ => false

end Node

namespace Scope

open Node (spreadAll)

/-- The function that the name of a node is local to: that of the body it stands in, if the node
binds the name, or uses it unqualified and it was bound before in the same body. -/
def owner (function : Option String) (before : List (Node NodeId)) : Node NodeId → Option String
  | .binding _ _ _ => function
  | .identifier _ none name => if before.any (·.binds name) then function else none
  | _ => none

/-- The name that is written `written` and local to the given function. -/
def ownedName (owner : Option String) (written : String) : String :=
  owner.elim written (localName · written)

/-! ## Names -/

/-- The numbers of a node that is listed together with what is in its sequences. -/
def ownTags : Node NodeId → List NodeId
  | .sequence m _ _ => [m.tag]
  | node => node.tags

mutual

theorem tags_eq_flatMap (node : Node NodeId) : node.tags = node.spread.flatMap ownTags := by
  cases node with
  | sequence m block body =>
    simp only [Node.tags, Node.spread, List.flatMap_cons, ownTags]
    rw [tagsAll_eq_flatMap body]
    rfl
  | literal m value | arithmetic m op | comparison m op | condition m form
  | definition m signature body | identifier m qualifier name | importing m request
  | binding m name isPublic | array m items | program m info nodes =>
    simp only [Node.spread, List.flatMap_cons, List.flatMap_nil, ownTags, List.append_nil]

theorem tagsAll_eq_flatMap (code : Code) :
    Node.tagsAll code = (spreadAll code).flatMap ownTags := by
  cases code with
  | nil => simp only [Node.tagsAll, Node.spreadAll, List.flatMap_nil]
  | cons node rest =>
    simp only [Node.tagsAll, Node.spreadAll, List.flatMap_append]
    rw [tags_eq_flatMap node, tagsAll_eq_flatMap rest]

end

theorem tag_mem_ownTags (node : Node NodeId) : node.mark.tag ∈ ownTags node := by
  cases node <;> simp [ownTags, Node.tags, Node.mark]

/-- The name that a pass has given to the node with the number `id`. -/
def Resolver.given (r : Resolver) (id : NodeId) : Option String :=
  r.table.names.lookup id

theorem given_rename (r : Resolver) (id id' : NodeId) (name : String) :
    (r.rename id name).given id' = if id' = id then some name else r.given id' := by
  unfold Resolver.given Resolver.rename
  rw [List.lookup_cons]
  by_cases h : id' = id
  · simp [h]
  · have hbeq : (id' == id) = false := beq_eq_false_iff_ne.2 h
    simp [h, hbeq]

/-- A use gives a name to its node if the name is that of a local. -/
theorem given_use (r : Resolver) (m : Mark NodeId) (name : String) (id : NodeId) :
    (r.use m name).given id =
      if id = m.tag then (r.locals.lookup name).or (r.given id) else r.given id := by
  unfold Resolver.use
  split
  · next renamed hlocal =>
    rw [given_rename, hlocal]
    rfl
  · next hlocal =>
    rw [hlocal]
    simp

theorem given_bind {r : Resolver} {f : String} (hr : r.function = some f) (m : Mark NodeId)
    (name : String) (id : NodeId) :
    (r.bind m name).given id = if id = m.tag then some (localName f name) else r.given id := by
  unfold Resolver.bind
  rw [hr]
  exact given_rename r m.tag id _

theorem given_bind_of_ne (r : Resolver) {m : Mark NodeId} (name : String) {id : NodeId}
    (h : id ≠ m.tag) : (r.bind m name).given id = r.given id := by
  cases hr : r.function with
  | none =>
    unfold Resolver.bind
    rw [hr]
    rfl
  | some f => rw [given_bind hr, if_neg h]

mutual

theorem given_visit (r : Resolver) (node : Node NodeId) {id : NodeId} (h : id ∉ node.tags) :
    (visit r node).given id = r.given id := by
  cases node with
  | sequence m block body =>
    simp only [visit]
    exact given_visitAll r body fun hmem => h (List.mem_cons_of_mem _ hmem)
  | definition m signature body =>
    simp only [visit]
    exact given_visitAll (r.enter m signature) body fun hmem => h (List.mem_cons_of_mem _ hmem)
  | identifier m qualifier name =>
    cases qualifier with
    | some token => simp only [visit]
    | none =>
      have hne : id ≠ m.tag := by
        rintro rfl
        exact h (tag_mem_ownTags (.identifier m none name))
      simp only [visit]
      rw [given_use, if_neg hne]
  | binding m name isPublic =>
    have hne : id ≠ m.tag := by
      rintro rfl
      exact h (tag_mem_ownTags (.binding m name isPublic))
    simp only [visit]
    exact given_bind_of_ne r name hne
  | literal m value | arithmetic m op | comparison m op | condition m form | importing m request
  | array m items | program m info nodes => simp only [visit]

/-- The pass gives names to the nodes that it visits and to no others. -/
theorem given_visitAll (r : Resolver) (code : Code) {id : NodeId} (h : id ∉ Node.tagsAll code) :
    (visitAll r code).given id = r.given id := by
  cases code with
  | nil => simp only [visitAll]
  | cons node rest =>
    simp only [Node.tagsAll, List.mem_append, not_or] at h
    simp only [visitAll]
    rw [given_visitAll (visit r node) rest h.2, given_visit r node h.1]

end

theorem given_step (r : Resolver) (node : Node NodeId) {id : NodeId} (h : id ∉ ownTags node) :
    (step r node).given id = r.given id := by
  cases node with
  | sequence => rfl
  | _ => exact given_visit r _ h

theorem given_foldl (r : Resolver) (nodes : List (Node NodeId)) {id : NodeId}
    (h : id ∉ nodes.flatMap ownTags) : (nodes.foldl step r).given id = r.given id := by
  induction nodes generalizing r with
  | nil => rfl
  | cons node rest ih =>
    rw [List.flatMap_cons, List.mem_append, not_or] at h
    rw [List.foldl_cons, ih (step r node) h.2, given_step r node h.1]

/-- Inside a function the locals are the names that were bound before. -/
theorem locals_foldl {r : Resolver} {f : String} (hr : r.function = some f)
    {nodes : List (Node NodeId)} (hnodes : ∀ node ∈ nodes, node.isDefinition = false)
    (name : String) :
    (nodes.foldl step r).function = some f ∧
      (nodes.foldl step r).locals.lookup name =
        if nodes.any (·.binds name) then some (localName f name) else r.locals.lookup name := by
  induction nodes generalizing r with
  | nil => exact ⟨hr, rfl⟩
  | cons node rest ih =>
    obtain ⟨hnode, hrest⟩ := List.forall_mem_cons.1 hnodes
    have hfunction := (step_of_not_isDefinition hnode r).1.trans hr
    have hlocals : (step r node).locals.lookup name =
        if node.binds name then some (localName f name) else r.locals.lookup name := by
      cases node with
      | definition => cases hnode
      | identifier m qualifier used =>
        cases qualifier with
        | some token => simp [step, visit, Node.binds]
        | none =>
          simp only [step, visit, Resolver.use, Node.binds]
          split <;> rfl
      | binding m bound isPublic =>
        simp only [step, visit, Resolver.bind, hr, Node.binds]
        rw [List.lookup_cons]
        by_cases hname : name = bound
        · simp [hname]
        · have hbeq : (name == bound) = false := beq_eq_false_iff_ne.2 hname
          have hbeq' : (bound == name) = false := beq_eq_false_iff_ne.2 (Ne.symm hname)
          simp [hbeq, hbeq']
      | _ => simp [step, visit, Node.binds]
    obtain ⟨hfold, hlookup⟩ := ih hfunction hrest
    refine ⟨hfold, ?_⟩
    -- a name that is bound again later keeps its local name
    rw [List.foldl_cons, hlookup, hlocals, List.any_cons]
    cases node.binds name <;> cases rest.any (·.binds name) <;> rfl

/-- What the step at a node inside a function gives to the node. -/
theorem given_step_inside {r : Resolver} {f : String} (hr : r.function = some f)
    {before : List (Node NodeId)} {node : Node NodeId} {written : String}
    (hlocals : r.locals.lookup written =
      if before.any (·.binds written) then some (localName f written) else none)
    (hname : node.name? = some written) (hfresh : r.given node.mark.tag = none) :
    (step r node).given node.mark.tag =
      (owner (some f) before node).map (localName · written) := by
  cases node with
  | binding m bound isPublic =>
    cases hname
    simp only [step, visit, Node.mark]
    rw [given_bind hr, if_pos rfl]
    rfl
  | identifier m qualifier used =>
    cases hname
    cases qualifier with
    | some token =>
      simp only [step, visit]
      exact hfresh
    | none =>
      simp only [step, visit, Node.mark] at hfresh ⊢
      rw [given_use, if_pos rfl, hlocals, hfresh]
      unfold owner
      dsimp only
      cases before.any (·.binds written) <;> rfl
  | _ => cases hname

theorem notMem_of_nodup {before after : List (Node NodeId)} {node : Node NodeId}
    (h : ((before ++ node :: after).flatMap ownTags).Nodup) :
    (ownTags node).Nodup ∧ ∀ id ∈ ownTags node,
      id ∉ before.flatMap ownTags ∧ id ∉ after.flatMap ownTags := by
  rw [List.flatMap_append, List.flatMap_cons] at h
  obtain ⟨-, hlater, hbefore⟩ := List.nodup_append.1 h
  obtain ⟨hnode, -, hafter⟩ := List.nodup_append.1 hlater
  refine ⟨hnode, fun id hid => ⟨fun hmem => ?_, fun hmem => ?_⟩⟩
  · exact hbefore id hmem id (List.mem_append_left _ hid) rfl
  · exact hafter id hid id hmem rfl

section Program

variable {code : Code} (hnodup : (Node.tagsAll code).Nodup)

include hnodup

theorem given_outside {before after : List (Node NodeId)} {node : Node NodeId}
    (hcode : spreadAll code = before ++ node :: after) (hnode : node.isDefinition = false) :
    (visitAll {} code).given node.mark.tag = none := by
  rw [tagsAll_eq_flatMap, hcode] at hnodup
  obtain ⟨hbefore, hafter⟩ := (notMem_of_nodup hnodup).2 _ (tag_mem_ownTags node)
  have houtside : (before.foldl step {}).Outside := Resolver.Outside.foldl ⟨rfl, rfl⟩ before
  have htable := (houtside.step_of_not_isDefinition hnode).2
  calc (visitAll {} code).given node.mark.tag
      = (after.foldl step (step (before.foldl step {}) node)).given node.mark.tag := by
        rw [visitAll_eq_foldl, hcode, List.foldl_append, List.foldl_cons]
    _ = (step (before.foldl step {}) node).given node.mark.tag := given_foldl _ after hafter
    _ = (before.foldl step {}).given node.mark.tag := by unfold Resolver.given; rw [htable]
    _ = none := given_foldl _ before hbefore

theorem given_inside (hunnested : Unnested code) {m : Mark NodeId} {signature : Signature}
    {body : Code} (hdefinition : .definition m signature body ∈ spreadAll code)
    {before after : List (Node NodeId)} {node : Node NodeId}
    (hbody : spreadAll body = before ++ node :: after) {written : String}
    (hname : node.name? = some written) :
    (visitAll {} code).given node.mark.tag =
      (owner (some signature.name) before node).map (localName · written) := by
  -- the node has a number of its own, so only the step at the node can give it a name: not what
  -- comes earlier or later in the program, nor what is before or after it in the body
  have hplain := hunnested m signature body hdefinition
  obtain ⟨earlier, later, hcode⟩ := List.append_of_mem hdefinition
  rw [tagsAll_eq_flatMap, hcode] at hnodup
  obtain ⟨hown, hfunction⟩ := notMem_of_nodup hnodup
  have htags : ownTags (.definition m signature body) = m.tag :: Node.tagsAll body := by
    simp only [ownTags, Node.tags]
  rw [htags, tagsAll_eq_flatMap, hbody] at hown hfunction
  obtain ⟨hbefore, hafter⟩ :=
    (notMem_of_nodup (List.nodup_cons.1 hown).2).2 _ (tag_mem_ownTags node)
  have hmem : node.mark.tag ∈ (before ++ node :: after).flatMap ownTags :=
    List.mem_flatMap.2 ⟨node, by simp, tag_mem_ownTags node⟩
  obtain ⟨hearlier, hlater⟩ := hfunction _ (List.mem_cons_of_mem _ hmem)
  -- the function is entered without locals
  have houtside : (earlier.foldl step {}).Outside := Resolver.Outside.foldl ⟨rfl, rfl⟩ earlier
  let entered := (earlier.foldl step {}).enter m signature
  have hfresh : entered.given node.mark.tag = none := given_foldl {} earlier hearlier
  obtain ⟨hinside, hlocals⟩ := locals_foldl (r := entered) rfl
    (fun n hn => hplain n (hbody ▸ List.mem_append_left _ hn)) written
  have hnone : entered.locals = [] := houtside.2
  rw [hnone, List.lookup_nil] at hlocals
  calc (visitAll {} code).given node.mark.tag
      = (later.foldl step (step (earlier.foldl step {}) (.definition m signature body))).given
          node.mark.tag := by
        rw [visitAll_eq_foldl, hcode, List.foldl_append, List.foldl_cons]
    _ = (step (earlier.foldl step {}) (.definition m signature body)).given node.mark.tag :=
        given_foldl _ later hlater
    _ = (after.foldl step (step (before.foldl step entered) node)).given node.mark.tag := by
        rw [step_definition, hbody, List.foldl_append, List.foldl_cons]
        rfl
    _ = (step (before.foldl step entered) node).given node.mark.tag := given_foldl _ after hafter
    _ = (owner (some signature.name) before node).map (localName · written) :=
        given_step_inside hinside hlocals hname ((given_foldl entered before hbefore).trans hfresh)

/-- **The name of a node is local to its owner.** -/
theorem nameOf_of_stands (hunnested : Unnested code) {function : Option String}
    {before : List (Node NodeId)} {node : Node NodeId} {written : String}
    (h : Stands code function before node) (hname : node.name? = some written) :
    (visitAll {} code).table.nameOf node.mark.tag written =
      ownedName (owner function before node) written := by
  have hgiven : (visitAll {} code).given node.mark.tag =
      (owner function before node).map (localName · written) := by
    cases h with
    | outside hcode =>
      have hnode : node.isDefinition = false := by
        cases node <;> first | rfl | cases hname
      have howner : owner none before node = none := by
        cases node <;> simp [owner]
        split <;> rfl
      rw [given_outside hnodup hcode hnode, howner]
      rfl
    | inside hdefinition hbody => exact given_inside hnodup hunnested hdefinition hbody hname
  unfold Resolver.given at hgiven
  unfold ScopeTable.nameOf ownedName
  rw [hgiven]
  cases owner function before node <;> rfl

end Program

/-! ## Names that are shared -/

theorem toList_localName (f x : String) : (localName f x).toList = f.toList ++ '$' :: x.toList := by
  simp [localName, localMark]

theorem mark_mem_localName (f x : String) : '$' ∈ (localName f x).toList := by
  simp [toList_localName]

theorem ownedName_eq_iff {o o' : Option String} {x x' : String}
    (ho : ∀ f, o = some f → '$' ∉ f.toList) (ho' : ∀ f, o' = some f → '$' ∉ f.toList)
    (hx : '$' ∉ x.toList) (hx' : '$' ∉ x'.toList) :
    ownedName o x = ownedName o' x' ↔ o = o' ∧ x = x' := by
  have apart : ∀ {f y z : String}, '$' ∉ z.toList → localName f y ≠ z := by
    rintro f y _ hz rfl
    exact hz (mark_mem_localName f y)
  cases o with
  | none =>
    cases o' with
    | none => simp [ownedName]
    | some f' => exact ⟨fun h => absurd h.symm (apart hx), nofun⟩
  | some f =>
    cases o' with
    | none => exact ⟨fun h => absurd h (apart hx'), nofun⟩
    | some f' =>
      show localName f x = localName f' x' ↔ _
      rw [← String.toList_inj, toList_localName, toList_localName,
        List.append_cons_inj_of_notMem (ho f rfl) hx, String.toList_inj, String.toList_inj]
      simp

theorem function_of_owner {function : Option String} {before : List (Node NodeId)}
    {node : Node NodeId} {f : String} (h : owner function before node = some f) :
    function = some f := by
  unfold owner at h
  split at h
  · exact h
  · split at h
    · exact h
    · cases h
  · cases h

/-- A function that something stands in, and the name of a node, can be written. -/
theorem Stands.named {code : Code} {P : String → Prop} (hcode : Node.AllIn (Node.Named P) code)
    {function : Option String} {before : List (Node NodeId)} {node : Node NodeId}
    (h : Stands code function before node) :
    (∀ f, function = some f → P f) ∧ node.Named P := by
  cases h with
  | outside hspread =>
    refine ⟨nofun, (all_of_mem_spreadAll hcode ?_).self⟩
    rw [hspread]
    simp
  | @inside m signature body _ _ _ hdefinition hspread =>
    have hfunction := all_of_mem_spreadAll hcode hdefinition
    refine ⟨?_, (all_of_mem_spreadAll hfunction.2 ?_).self⟩
    · rintro f hf
      cases hf
      exact hfunction.1
    · rw [hspread]
      simp

/-- The names that a table gives to the nodes of some code are those that they are meant to have. -/
structure Resolves (code : Code) (table : ScopeTable) : Prop where
  /-- Every node stands outside functions or in the body of one. -/
  stands : Node.AllIn (fun node => ∃ function before, Stands code function before node) code
  /-- A name is that of a local of its owner, and without an owner it is as it is written. -/
  names : ∀ {function before node written}, Stands code function before node →
    node.name? = some written →
    table.nameOf node.mark.tag written = ownedName (owner function before node) written
  /-- Names are shared by nodes that have the same owner, or none, and are written the same. -/
  shared : ∀ {function before node written function' before' node' written'},
    Stands code function before node → node.name? = some written →
    Stands code function' before' node' → node'.name? = some written' →
    (table.nameOf node.mark.tag written = table.nameOf node'.mark.tag written' ↔
      owner function before node = owner function' before' node' ∧ written = written')

theorem named_of_name? {P : String → Prop} {node : Node NodeId} {written : String}
    (h : node.Named P) (hname : node.name? = some written) : P written := by
  cases node with
  | binding | identifier => cases hname; exact h
  | _ => cases hname

/-- **Scopes are resolved as they are meant to be**: a program that was read is refused exactly for a
function inside a function or an import after anything else, and otherwise every node gets the name
that follows from where it stands. -/
theorem analyse_resolves {name source : String} {p : Program Unit}
    (h : Tree.ofSource name source = .ok p) (n : NodeId) :
    ((analyse (p.number n).1).failed = false ↔
      Unnested (p.number n).1.nodes ∧ ImportsFirst (p.number n).1.nodes) ∧
    ((analyse (p.number n).1).failed = false →
      Resolves (p.number n).1.nodes (analyse (p.number n).1).table) := by
  have hread : Node.AllIn Node.Read (p.number n).1.nodes :=
    Node.allIn_read_numberAll n p.nodes (Tree.allIn_read_of_ofSource h)
  have hnamed : Node.AllIn (Node.Named fun x => '$' ∉ x.toList) (p.number n).1.nodes :=
    Node.allIn_numberAll Node.named_number n p.nodes (Tree.allIn_named_of_ofSource h)
  have hnodup : (Node.tagsAll (p.number n).1.nodes).Nodup := (Node.drawn_numberAll n p.nodes).nodup
  have hfailed := failed_eq_false_iff hread
  refine ⟨hfailed, fun hpass => ?_⟩
  have hunnested := (hfailed.1 hpass).1
  refine ⟨allIn_stands hread hunnested, nameOf_of_stands hnodup hunnested, ?_⟩
  intro function before node written function' before' node' written' hnode hname hnode' hname'
  obtain ⟨hfunction, hwritten⟩ := hnode.named hnamed
  obtain ⟨hfunction', hwritten'⟩ := hnode'.named hnamed
  have htable : (analyse (p.number n).1).table = (visitAll {} (p.number n).1.nodes).table := rfl
  rw [htable, nameOf_of_stands hnodup hunnested hnode hname,
    nameOf_of_stands hnodup hunnested hnode' hname']
  exact ownedName_eq_iff (fun f hf => hfunction f (function_of_owner hf))
    (fun f hf => hfunction' f (function_of_owner hf)) (named_of_name? hwritten hname)
    (named_of_name? hwritten' hname')

/-- A name that is bound outside and inside a function, and used before and after that. -/
def shadowed : String :=
  "let x def f { x let x { x } m.x } x"

/-- The names of a text as they are resolved, in order, if it is read and passes. -/
def resolvedNames? (source : String) : Option (List String) :=
  match Tree.ofSource "main" source with
  | .error _ => none
  | .ok p =>
    let analysis := analyse (p.number 0).1
    if analysis.failed then none
    else some ((occurrencesAll (p.number 0).1.nodes).map fun o => analysis.table.nameOf o.id o.written)

theorem analyse_resolves_shadowed : ∃ p, Tree.ofSource "main" shadowed = .ok p ∧
    (analyse (p.number 0).1).failed = false ∧
    Resolves (p.number 0).1.nodes (analyse (p.number 0).1).table ∧
    ((occurrencesAll (p.number 0).1.nodes).map fun o =>
      (analyse (p.number 0).1).table.nameOf o.id o.written) = ["x", "x", "f$x", "f$x", "x", "x"] := by
  have names : resolvedNames? shadowed = some ["x", "x", "f$x", "f$x", "x", "x"] := by
    decide +kernel
  unfold resolvedNames? at names
  cases hread : Tree.ofSource "main" shadowed with
  | error errors => rw [hread] at names; cases names
  | ok p =>
    rw [hread] at names
    dsimp only at names
    split at names
    · cases names
    · next hpass =>
      have hpass := Bool.eq_false_iff.2 hpass
      exact ⟨p, rfl, hpass, (analyse_resolves hread 0).2 hpass, Option.some.inj names⟩

end Scope

end Catena

import Catena.Proofs.Linking.Order
import Catena.Proofs.Scope.Names

/-!
# The names of linked programs

Each file is checked on its own, and its names are added to those of the files before it. Numbers are
drawn from one supply, so that a later file names no node of an earlier one (`Follows`). In the end
the functions of all files have the locals that the scopes of their own file gave them
(`meets_link_localizes`).
-/

namespace Catena

namespace Scope

open Node (spreadAll)

/-- A function as scopes leave it: there is no import in its body, and the names there are those that
they are meant to have. -/
structure Localized (table : ScopeTable) (f : String) (body : Code) : Prop where
  function : '$' ∉ f.toList
  named : Node.AllIn (Node.Named fun x => '$' ∉ x.toList) body
  plain : Node.AllIn Node.Plain body
  names : ∀ {before node after written}, spreadAll body = before ++ node :: after →
    node.name? = some written →
    table.nameOf node.mark.tag written = ownedName (owner (some f) before node) written

/-- The name in a node is a word, and if the node is a function, its body has its names. -/
structure Localizes (table : ScopeTable) (n : Node NodeId) : Prop where
  named : n.Named fun x => '$' ∉ x.toList
  localized : ∀ m signature body, n = .definition m signature body →
    Localized table signature.name body

theorem tag_mem_tagsAll {code : Code} {node : Node NodeId} (h : node ∈ spreadAll code) :
    node.mark.tag ∈ Node.tagsAll code := by
  rw [tagsAll_eq_flatMap, List.mem_flatMap]
  exact ⟨node, h, tag_mem_ownTags node⟩

/-- Names depend on the entries of the nodes in the body only. -/
theorem Localized.congr {table table' : ScopeTable} {f : String} {body : Code}
    (h : Localized table f body)
    (same : ∀ id ∈ Node.tagsAll body, table'.names.lookup id = table.names.lookup id) :
    Localized table' f body := by
  refine ⟨h.function, h.named, h.plain, fun hbody hname => ?_⟩
  rw [← h.names hbody hname]
  unfold ScopeTable.nameOf
  rw [same _ (tag_mem_tagsAll (by rw [hbody]; simp))]

theorem plain_of_importsFirst {code : Code} (h : ImportsFirst code) {m : Mark NodeId}
    {signature : Signature} {body : Code} (hmem : .definition m signature body ∈ spreadAll code) :
    Node.AllIn Node.Plain body := by
  induction h with
  | plain hplain => exact (all_of_mem_spreadAll hplain hmem).2
  | importing _ ih =>
    simp only [Node.spreadAll, Node.spread, List.singleton_append, List.mem_cons, reduceCtorEq,
      false_or] at hmem
    exact ih hmem

/-- **The functions of a program that passes have their names.** -/
theorem allIn_localizes {name source : String} {p : Program Unit}
    (h : Tree.ofSource name source = .ok p) (n : NodeId)
    (hpass : (analyse (p.number n).1).failed = false) :
    Node.AllIn (Localizes (analyse (p.number n).1).table) (p.number n).1.nodes := by
  have hread : Node.AllIn Node.Read (p.number n).1.nodes :=
    Node.allIn_read_numberAll n p.nodes (Tree.allIn_read_of_ofSource h)
  have hnamed : Node.AllIn (Node.Named fun x => '$' ∉ x.toList) (p.number n).1.nodes :=
    Node.allIn_numberAll Node.named_number n p.nodes (Tree.allIn_named_of_ofSource h)
  obtain ⟨hunnested, hfirst⟩ := (failed_eq_false_iff hread).1 hpass
  have hnodup : (Node.tagsAll (p.number n).1.nodes).Nodup := (Node.drawn_numberAll n p.nodes).nodup
  refine allIn_of_spreadAll hread (fun node hmem => ?_) fun m signature body hmem => ?_
  · refine ⟨(all_of_mem_spreadAll hnamed hmem).self, ?_⟩
    rintro m signature body rfl
    have hfunction := all_of_mem_spreadAll hnamed hmem
    exact ⟨hfunction.1, hfunction.2, plain_of_importsFirst hfirst hmem,
      fun hbody hname => nameOf_of_stands hnodup hunnested (.inside hmem hbody) hname⟩
  · have other : ∀ m' signature' body', .definition m' signature' body' ∉ spreadAll body := by
      intro m' signature' body' hmem'
      cases hunnested m signature body hmem _ hmem'
    refine allIn_of_spreadAll (all_of_mem_spreadAll hread hmem).2 (fun node hnode => ?_)
      fun m' signature' body' hmem' => absurd hmem' (other m' signature' body')
    refine ⟨(all_of_mem_spreadAll (all_of_mem_spreadAll hnamed hmem).2 hnode).self, ?_⟩
    rintro m' signature' body' rfl
    exact absurd hnode (other m' signature' body')

end Scope

namespace Linking

/-- Only numbers that have been drawn have names. -/
def Ahead (l : Linker) : Prop :=
  ∀ id, l.nextId ≤ id → l.scopes.names.lookup id = none

/-- A later linker, in which the nodes that were numbered before have the names that they had. -/
structure Follows (l l' : Linker) : Prop where
  le : l.nextId ≤ l'.nextId
  same : ∀ id < l.nextId, l'.scopes.names.lookup id = l.scopes.names.lookup id

theorem Follows.refl (l : Linker) : Follows l l :=
  ⟨Nat.le_refl _, fun _ _ => rfl⟩

theorem Follows.trans {l l' l'' : Linker} (h : Follows l l') (k : Follows l' l'') : Follows l l'' :=
  ⟨Nat.le_trans h.le k.le, fun id hid =>
    (k.same id (Nat.lt_of_lt_of_le hid h.le)).trans (h.same id hid)⟩

/-- A node with its names, which are given by numbers that have been drawn. -/
structure Kept (l : Linker) (n : Node NodeId) : Prop extends Scope.Localizes l.scopes n where
  drawn : ∀ m signature body, n = .definition m signature body →
    ∀ id ∈ Node.tagsAll body, id < l.nextId

theorem Kept.follows {l l' : Linker} (h : Follows l l') {n : Node NodeId} (hn : Kept l n) :
    Kept l' n := by
  refine ⟨⟨hn.named, ?_⟩, ?_⟩
  · intro m signature body hnode
    exact (hn.localized m signature body hnode).congr fun id hid =>
      h.same id (hn.drawn m signature body hnode id hid)
  · intro m signature body hnode id hid
    exact Nat.lt_of_lt_of_le (hn.drawn m signature body hnode id hid) h.le

theorem kept_of_ne {l : Linker} {n : Node NodeId} (hnamed : n.Named fun x => '$' ∉ x.toList)
    (hother : ∀ m signature body, n ≠ .definition m signature body) : Kept l n :=
  ⟨⟨hnamed, fun m signature body h => absurd h (hother m signature body)⟩,
    fun m signature body h => absurd h (hother m signature body)⟩

/-- What linking gives: a later linker, and code whose functions have their names. -/
structure Names (l : Linker) (code : Code) (l' : Linker) : Prop where
  ahead : Ahead l'
  follows : Follows l l'
  kept : Node.AllIn (Kept l') code

section Kept

variable {l : Linker} {table : ScopeTable}

mutual

theorem all_kept (node : Node NodeId)
    (htags : ∀ id ∈ node.tags, id < l.nextId ∧ l.scopes.names.lookup id = table.names.lookup id)
    (h : node.All (Scope.Localizes table)) : node.All (Kept l) := by
  cases node with
  | sequence m block body =>
    rw [Node.tags, List.forall_mem_cons] at htags
    exact ⟨kept_of_ne trivial fun _ _ _ => nofun, allIn_kept body htags.2 h.2⟩
  | definition m signature body =>
    rw [Node.tags, List.forall_mem_cons] at htags
    refine ⟨⟨⟨h.1.named, ?_⟩, ?_⟩, allIn_kept body htags.2 h.2⟩
    · rintro _ _ _ ⟨⟩
      exact (h.1.localized m signature body rfl).congr fun id hid => (htags.2 id hid).2
    · rintro _ _ _ ⟨⟩ id hid
      exact (htags.2 id hid).1
  | program m info nodes =>
    rw [Node.tags, List.forall_mem_cons] at htags
    exact ⟨kept_of_ne trivial fun _ _ _ => nofun, allIn_kept nodes htags.2 h.2⟩
  | literal m value | arithmetic m op | comparison m op | condition m form
  | identifier m qualifier name | importing m request | binding m name isPublic | array m items =>
    exact kept_of_ne h.named fun _ _ _ => nofun

/-- Nodes keep the names that a table gives them where it says the same of their numbers. -/
theorem allIn_kept (code : Code)
    (htags : ∀ id ∈ Node.tagsAll code,
      id < l.nextId ∧ l.scopes.names.lookup id = table.names.lookup id)
    (h : Node.AllIn (Scope.Localizes table) code) : Node.AllIn (Kept l) code := by
  cases code with
  | nil => exact trivial
  | cons node rest =>
    rw [Node.tagsAll, List.forall_mem_append] at htags
    exact ⟨all_kept node htags.1 h.1, allIn_kept rest htags.2 h.2⟩

end

end Kept

section Files

variable {fs : FileSystem} {library : String} {load : Path → Origin → Linking (Program NodeId)}
  (hload : ∀ path origin l, Ahead l →
    Meets (load path origin) l (fun p l' => Names l p.nodes l') fun _ _ => True)

include hload

theorem meets_resolve_names {unit : SourceUnit} {position : Position} {request : Import} {l : Linker}
    (hl : Ahead l) :
    Meets (resolve fs library load unit position request) l
      (fun found l' => Names l ((found.map Program.nodes).getD []) l') fun _ _ => True := by
  refine meets_resolve ?alone ?missing ?circle ?known ?fresh
  case alone => exact fun _ => ⟨hl, .refl l, trivial⟩
  case missing => exact fun _ _ _ _ _ _ _ _ _ _ => trivial
  case circle => exact fun _ _ _ _ _ _ _ _ => trivial
  case known => exact fun _ _ _ _ _ => ⟨hl, ⟨Nat.le_refl _, fun _ _ => rfl⟩, trivial⟩
  case fresh =>
    intro path origin _ _ _
    refine (hload path origin (connected unit path l) hl).mono ?_ fun _ _ _ => trivial
    rintro p l' ⟨hahead, hfollows, hkept⟩
    have hloaded : Follows l' { l' with loaded := path :: l'.loaded } := ⟨Nat.le_refl _, fun _ _ => rfl⟩
    exact ⟨hahead, ⟨hfollows.le, hfollows.same⟩, hkept.mono fun _ => Kept.follows hloaded⟩

theorem meets_splice_names {unit : SourceUnit} (nodes : Code) {l : Linker} (hl : Ahead l)
    (hnodes : Node.AllIn (Kept l) nodes) :
    Meets (splice (resolve fs library load unit) nodes) l (fun code l' => Names l code l')
      fun _ _ => True := by
  induction nodes generalizing l with
  | nil => exact ⟨hl, .refl l, trivial⟩
  | cons node rest ih =>
    cases himport : node.import? with
    | none =>
      refine meets_splice_node himport ((ih hl hnodes.2).mono ?_ fun _ _ _ => trivial)
      rintro code l' ⟨hahead, hfollows, hkept⟩
      exact ⟨hahead, hfollows, hnodes.1.mono (fun _ => Kept.follows hfollows), hkept⟩
    | some request =>
      obtain ⟨m, rfl⟩ := Node.import?_eq_some_iff.1 himport
      unfold splice
      refine Meets.bind ((meets_resolve_names hload hl).mono ?_ fun _ _ _ => trivial)
      rintro found l₁ ⟨hahead₁, hfollows₁, hfound⟩
      have hrest := hnodes.2.mono (fun _ => Kept.follows hfollows₁)
      cases found with
      | none =>
        refine Meets.bind ((ih hahead₁ hrest).mono ?_ fun _ _ _ => trivial)
        rintro code l' ⟨hahead, hfollows, hkept⟩
        exact ⟨hahead, hfollows₁.trans hfollows, kept_of_ne trivial fun _ _ _ => nofun, hkept⟩
      | some p =>
        -- the module node draws a number of its own
        have hdrawn : Follows l₁ { l₁ with nextId := l₁.nextId + 1 } :=
          ⟨Nat.le_succ _, fun _ _ => rfl⟩
        refine Meets.bind (Meets.bind ((ih (l := { l₁ with nextId := l₁.nextId + 1 })
          (fun id hid => hahead₁ id (Nat.le_of_succ_le hid)) (hrest.mono (fun _ => Kept.follows hdrawn))).mono ?_
            fun _ _ _ => trivial))
        rintro code l' ⟨hahead, hfollows, hkept⟩
        have hlater := hdrawn.trans hfollows
        exact ⟨hahead, hfollows₁.trans hlater,
          ⟨kept_of_ne trivial fun _ _ _ => nofun, hfound.mono fun _ => Kept.follows hlater⟩,
          kept_of_ne trivial fun _ _ _ => nofun, hkept⟩

omit hload in
theorem meets_checkScopes_extend {p : Program NodeId} {l : Linker} {Q : Unit → Linker → Prop}
    (ok : (Scope.analyse p).failed = false → ∀ l', l'.nextId = l.nextId →
      l'.scopes = l.scopes.extend (Scope.analyse p).table → Q () l') :
    Meets (checkScopes p) l Q fun _ _ => True := by
  refine Meets.bind (Meets.change ?_)
  split
  · exact trivial
  · next hpass => exact ok (Bool.not_eq_true _ ▸ hpass) _ rfl rfl

omit hload in
/-- The names of a text that passes are added for numbers that have just been drawn. -/
theorem names_checked {source : String} {p : Program Unit} (hp : Tree.ofSource "" source = .ok p)
    {l l' : Linker} (hl : Ahead l) (hpass : (Scope.analyse (p.number l.nextId).1).failed = false)
    (hnext : l'.nextId = (Node.numberAll l.nextId p.nodes).2)
    (hscopes : l'.scopes = l.scopes.extend (Scope.analyse (p.number l.nextId).1).table) :
    Names l (Node.numberAll l.nextId p.nodes).1 l' := by
  have hdrawn := Node.drawn_numberAll l.nextId p.nodes
  rw [← hnext] at hdrawn
  let table := (Scope.analyse (p.number l.nextId).1).table
  have hlookup : ∀ id, l'.scopes.names.lookup id =
      (table.names.lookup id).or (l.scopes.names.lookup id) := by
    intro id
    rw [hscopes]
    exact List.lookup_append
  have htable : ∀ id, id ∉ Node.tagsAll (Node.numberAll l.nextId p.nodes).1 →
      table.names.lookup id = none := by
    intro id hid
    exact Scope.given_visitAll {} (p.number l.nextId).1.nodes hid
  refine ⟨fun id hid => ?_, ⟨hdrawn.le, fun id hid => ?_⟩, ?_⟩
  · rw [hlookup, htable id fun hmem => Nat.not_lt.2 hid (hdrawn.lt_next id hmem), Option.none_or]
    exact hl id (Nat.le_trans hdrawn.le hid)
  · rw [hlookup, htable id fun hmem => Nat.not_lt.2 (hdrawn.from_le id hmem) hid, Option.none_or]
  · refine allIn_kept _ (fun id hid => ⟨hdrawn.lt_next id hid, ?_⟩)
      (Scope.allIn_localizes hp l.nextId hpass)
    rw [hlookup, hl id (hdrawn.from_le id hid), Option.or_none]

theorem meets_linkText_names {unit : SourceUnit} {source : String} {l : Linker} (hl : Ahead l) :
    Meets (linkText fs library load unit source) l (fun p l' => Names l p.nodes l')
      fun _ _ => True := by
  unfold linkText
  refine Meets.bind (Meets.change (Meets.bind
    (meets_parse (fun p hp => ?_) (fun _ _ _ => trivial) fun _ _ _ _ => trivial)))
  refine Meets.bind (meets_checkScopes_extend fun hpass l' hnext hscopes => ?_)
  have hchecked : Names l (Node.numberAll l.nextId p.nodes).1 l' :=
    names_checked hp hl hpass hnext hscopes
  refine Meets.bind ((meets_splice_names hload _ hchecked.ahead hchecked.kept).mono ?_
    fun _ _ _ => trivial)
  rintro code l'' ⟨hahead, hfollows, hkept⟩
  have hlater := hchecked.follows.trans hfollows
  have hfiled : Follows l'' { l'' with log := Reporter.setFile l''.log unit.display } :=
    ⟨Nat.le_refl _, fun _ _ => rfl⟩
  exact ⟨hahead, ⟨hlater.le, hlater.same⟩, hkept.mono fun _ => Kept.follows hfiled⟩

omit hload in
theorem meets_linkFile_names (fuel : Nat) (path : Path) (origin : Origin) {l : Linker}
    (hl : Ahead l) :
    Meets (linkFile fs library fuel path origin) l (fun p l' => Names l p.nodes l')
      fun _ _ => True := by
  induction fuel generalizing path origin l with
  | zero => exact trivial
  | succ fuel ih =>
    unfold linkFile
    split
    · exact trivial
    · exact meets_linkText_names (fun path origin l hl => ih path origin hl) hl

end Files

theorem ahead_linker (start : Start) (log : FileLog) (nextId : NodeId) :
    Ahead (start.linker log nextId) :=
  fun _ _ => rfl

/-- **The functions of a linked program have their names.** -/
theorem meets_link_localizes {fs : FileSystem} {library : String} (start : Start) (log : FileLog)
    (nextId : NodeId) : Meets (start.link fs library) (start.linker log nextId)
      (fun p l => Node.AllIn (Scope.Localizes l.scopes) p.nodes) fun _ _ => True := by
  have hahead := ahead_linker start log nextId
  cases start with
  | file path =>
    refine Meets.bind ((meets_linkFile_names (fuelFor fs) path .user hahead).mono ?_
      fun _ _ _ => trivial)
    rintro p l ⟨-, -, hkept⟩
    exact hkept.mono fun _ hn => hn.toLocalizes
  | text unit source =>
    refine (meets_linkText_names
      (fun path origin l hl => meets_linkFile_names (fuelFor fs) path origin hl) hahead).mono ?_
      fun _ _ _ => trivial
    rintro p l ⟨-, -, hkept⟩
    exact hkept.mono fun _ hn => hn.toLocalizes

end Linking

end Catena

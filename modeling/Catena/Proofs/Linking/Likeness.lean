import Catena.Proofs.Linking.Alone
import Catena.Proofs.Linking.Names
import Catena.Proofs.Scope.Likeness
import Catena.Proofs.Tree.Seam

/-!
# Linking the same files twice

What linking does depends on the files, and on the imports and files that are known already, and not on
the numbers that are free or on the names that have been given. So two linkers that know of the same
imports and files do the same (`pairs_linkText`): both stop, or both link code that is the same but for
its numbers. From then on they know of the same imports and files again, and the nodes that were
numbered before have the names that they had (`Later`).
-/

namespace Catena

namespace Linking

/-- The numbers that a linker has drawn from `n` on, and their names. -/
def register (n : NodeId) (l : Linker) : Register :=
  ⟨n, l.nextId, l.scopes⟩

/-- Two linkers that know of the same imports and files. Numbers from `n` and from `n'` on are theirs,
and have names only if they have been drawn. -/
structure Level (n n' : NodeId) (l l' : Linker) : Prop where
  graph : l'.graph = l.graph
  loaded : l'.loaded = l.loaded
  le : n ≤ l.nextId
  le' : n' ≤ l'.nextId
  ahead : Ahead l
  ahead' : Ahead l'

/-- Two later linkers that are level again. -/
structure Later (n n' : NodeId) (l l' k k' : Linker) : Prop extends Level n n' k k' where
  follows : Follows l k
  follows' : Follows l' k'

variable {n n' : NodeId} {l l' k k' j j' : Linker}

theorem Follows.extends (h : Follows l k) (n : NodeId) : (register n l).Extends (register n k) :=
  ⟨Nat.le_refl n, h.le, fun id _ hid => h.same id hid⟩

theorem Later.trans (h : Later n n' l l' k k') (i : Later n n' k k' j j') : Later n n' l l' j j' :=
  { i with follows := h.follows.trans i.follows, follows' := h.follows'.trans i.follows' }

theorem Later.like {node node' : Node NodeId} (h : Later n n' l l' k k')
    (hnode : Node.Like .spelling ((register n l).Shares (register n' l')) node node') :
    Node.Like .spelling ((register n k).Shares (register n' k')) node node' :=
  hnode.mono (.refl _) fun _ _ _ _ _ => .mono (h.follows.extends n) (h.follows'.extends n')

/-- Code stays the same while linking goes on. -/
theorem Later.same {c c' : Code} (h : Later n n' l l' k k')
    (hc : (register n l).Same (register n' l') c c') : (register n k).Same (register n' k') c c' :=
  hc.mono (h.follows.extends n) (h.follows'.extends n')

/-- A step that gives no names. -/
theorem Level.later (h : Level n n' l l') (graph : k'.graph = k.graph) (loaded : k'.loaded = k.loaded)
    (next : l.nextId ≤ k.nextId) (next' : l'.nextId ≤ k'.nextId) (scopes : k.scopes = l.scopes)
    (scopes' : k'.scopes = l'.scopes) : Later n n' l l' k k' where
  graph := graph
  loaded := loaded
  le := Nat.le_trans h.le next
  le' := Nat.le_trans h.le' next'
  ahead id hid := by rw [scopes]; exact h.ahead id (Nat.le_trans next hid)
  ahead' id hid := by rw [scopes']; exact h.ahead' id (Nat.le_trans next' hid)
  follows := ⟨next, fun id _ => by rw [scopes]⟩
  follows' := ⟨next', fun id _ => by rw [scopes']⟩

theorem Level.refl (h : Level n n' l l') : Later n n' l l' l l' :=
  h.later h.graph h.loaded (Nat.le_refl _) (Nat.le_refl _) rfl rfl

/-- The linker after the scopes of a text have been checked. -/
abbrev checked (p : Program Unit) (log : FileLog) (l : Linker) : Linker :=
  { l with
    log
    nextId := (Node.numberAll l.nextId p.nodes).2
    scopes := l.scopes.extend (Scope.analyse (p.number l.nextId).1).table }

/-- Names are added for numbers that have just been drawn. -/
theorem Level.checked {a b : String} {p q : Program Unit} (h : Level n n' l l')
    (ha : Tree.ofSource "" a = .ok p) (hb : Tree.ofSource "" b = .ok q)
    (hpass : (Scope.analyse (p.number l.nextId).1).failed = false)
    (hpass' : (Scope.analyse (q.number l'.nextId).1).failed = false) (log log' : FileLog) :
    Later n n' l l' (checked p log l) (checked q log' l') := by
  obtain ⟨hahead, hfollows, -⟩ : Names l _ (Linking.checked p log l) :=
    names_checked ha h.ahead hpass rfl rfl
  obtain ⟨hahead', hfollows', -⟩ : Names l' _ (Linking.checked q log' l') :=
    names_checked hb h.ahead' hpass' rfl rfl
  exact
    { graph := h.graph
      loaded := h.loaded
      le := Nat.le_trans h.le hfollows.le
      le' := Nat.le_trans h.le' hfollows'.le
      ahead := hahead
      ahead' := hahead'
      follows := hfollows
      follows' := hfollows' }

/-- The names of a text, beside those that the linker had. -/
theorem extends_checked (p : Program Unit) (log : FileLog) (h : Ahead l) (hn : n ≤ l.nextId) :
    (Scope.registered p l.nextId).Extends (register n (checked p log l)) := by
  refine ⟨hn, Nat.le_refl _, fun id hid _ => ?_⟩
  show (l.scopes.extend _).names.lookup id = _
  rw [ScopeTable.lookup_extend, h id hid, Option.or_none]
  rfl

/-! ## Steps one after the other -/

section Rules

variable {α β : Type} {Q : α → α → Linker → Linker → Prop} {R : β → β → Linker → Linker → Prop}

/-- Outcomes of the same kind, in linkers that are level again. -/
def Outcomes (n n' : NodeId) (l l' : Linker) (Q : α → α → Linker → Linker → Prop) :
    Outcome Linker RunError α → Outcome Linker RunError α → Prop
  | .done a k, .done a' k' => Later n n' l l' k k' ∧ Q a a' k k'
  | .stopped _ k, .stopped _ k' => Later n n' l l' k k'
  | _, _ => False

variable (n n' l l') in
/-- From `l` and `l'`, both steps stop or both go on as `Q` says. -/
def Pairs (m m' : Linking α) (Q : α → α → Linker → Linker → Prop) : Prop :=
  Outcomes n n' l l' Q (m.run l) (m'.run l')

theorem Outcomes.mono {Q' : α → α → Linker → Linker → Prop} {o o' : Outcome Linker RunError α}
    (h : Outcomes n n' k k' Q o o') (hl : Later n n' l l' k k')
    (hQ : ∀ a a' j j', Later n n' k k' j j' → Q a a' j j' → Q' a a' j j') :
    Outcomes n n' l l' Q' o o' := by
  cases o with
  | done a j =>
    cases o' with
    | done a' j' => exact ⟨hl.trans h.1, hQ a a' j j' h.1 h.2⟩
    | stopped e' j' => exact h.elim
  | stopped e j =>
    cases o' with
    | done a' j' => exact h.elim
    | stopped e' j' => exact hl.trans h

theorem Pairs.pure (h : Level n n' l l') {a a' : α} (hQ : Q a a' l l') :
    Pairs n n' l l' (Pure.pure a) (Pure.pure a') Q :=
  ⟨h.refl, hQ⟩

theorem Pairs.bind {m m' : Linking α} {f f' : α → Linking β} (hm : Pairs n n' l l' m m' Q)
    (hf : ∀ a a' k k', Later n n' l l' k k' → Q a a' k k' → Pairs n n' k k' (f a) (f' a') R) :
    Pairs n n' l l' (m >>= f) (m' >>= f') R := by
  unfold Pairs at hm ⊢
  rw [Action.run_bind, Action.run_bind]
  cases h : m.run l with
  | done a k =>
    cases h' : m'.run l' with
    | done a' k' =>
      rw [h, h'] at hm
      exact (hf a a' k k' hm.1 hm.2).mono hm.1 fun _ _ _ _ _ hQ => hQ
    | stopped e' k' => rw [h, h'] at hm; exact hm.elim
  | stopped e k =>
    cases h' : m'.run l' with
    | done a' k' => rw [h, h'] at hm; exact hm.elim
    | stopped e' k' => rw [h, h'] at hm; exact hm

/-- Where the first step goes on, so does the second one. -/
theorem Pairs.exists_of_done {m m' : Linking α} (h : Pairs n n' l l' m m' Q) {a : α}
    (hm : m.run l = .done a k) :
    ∃ a' k', m'.run l' = .done a' k' ∧ Later n n' l l' k k' ∧ Q a a' k k' := by
  unfold Pairs at h
  rw [hm] at h
  cases hm' : m'.run l' with
  | done a' k' =>
    rw [hm'] at h
    exact ⟨a', k', rfl, h⟩
  | stopped e' k' => rw [hm'] at h; exact h.elim

theorem Pairs.change {f f' : Linker → Linker} (h : Later n n' l l' (f l) (f' l'))
    {Q : Unit → Unit → Linker → Linker → Prop} (hQ : Q () () (f l) (f' l')) :
    Pairs n n' l l' (Action.change f) (Action.change f') Q :=
  ⟨h, hQ⟩

theorem Pairs.fail (h : Level n n' l l') (d d' : Diagnostic) :
    Pairs n n' l l' (Linking.fail d : Linking α) (Linking.fail d') Q :=
  h.later h.graph h.loaded (Nat.le_refl _) (Nat.le_refl _) rfl rfl

end Rules

/-! ## Following imports -/

/-- Programs that are the same but for numbers, as two linkers have linked them. -/
structure Alike (n n' : NodeId) (p p' : Program NodeId) (k k' : Linker) : Prop where
  info : p'.info = p.info
  nodes : (register n k).Same (register n' k') p.nodes p'.nodes

/-- The code that two imports put in, if any. -/
abbrev Brought (n n' : NodeId) (found found' : Option (Program NodeId)) (k k' : Linker) : Prop :=
  Option.Rel (fun p p' => Alike n n' p p' k k') found found'

theorem pairs_connect (hl : Level n n' l l') (unit : SourceUnit) (position position' : Position)
    (request : Import) (path : Path) :
    Pairs n n' l l' (connect unit position request path) (connect unit position' request path)
      fun _ _ _ _ => True := by
  have hgraph : l'.graph.add unit.key path.text = l.graph.add unit.key path.text := by
    rw [hl.graph]
  have hadded : Later n n' l l' { l with graph := l.graph.add unit.key path.text }
      { l' with graph := l'.graph.add unit.key path.text } :=
    hl.later hgraph hl.loaded (Nat.le_refl _) (Nat.le_refl _) rfl rfl
  refine Pairs.bind (Pairs.change (Q := fun _ _ _ _ => True) hadded trivial) fun _ _ k k' hk _ => ?_
  show Pairs n n' k k' (if k.graph.isCircular then _ else _) (if k'.graph.isCircular then _ else _) _
  rw [hk.graph]
  split
  · exact Pairs.fail hk.toLevel _ _
  · exact Pairs.pure hk.toLevel trivial

section Files

variable {fs : FileSystem} {library : String} {load : Path → Origin → Linking (Program NodeId)}
  (hload : ∀ path origin l l', Level n n' l l' →
    Pairs n n' l l' (load path origin) (load path origin) (Alike n n'))

include hload

theorem pairs_resolve (hl : Level n n' l l') (unit : SourceUnit) (position position' : Position)
    (request : Import) :
    Pairs n n' l l' (resolve fs library load unit position request)
      (resolve fs library load unit position' request) (Brought n n') := by
  unfold resolve
  split
  · exact Pairs.pure hl .none
  next written base origin _ =>
  split
  · exact Pairs.fail hl _ _
  next path _ =>
  refine Pairs.bind (pairs_connect hl unit position position' request path) fun _ _ k k' hk _ => ?_
  show Pairs n n' k k' (if k.loaded.contains path then _ else _)
    (if k'.loaded.contains path then _ else _) _
  rw [hk.loaded]
  split
  · exact Pairs.pure hk.toLevel .none
  refine Pairs.bind (hload path origin k k' hk.toLevel) fun p p' j j' hj hp => ?_
  have hloaded : Later n n' j j' { j with loaded := path :: j.loaded }
      { j' with loaded := path :: j'.loaded } :=
    hj.toLevel.later hj.graph (congrArg (List.cons path) hj.loaded) (Nat.le_refl _) (Nat.le_refl _)
      rfl rfl
  refine Pairs.bind (Pairs.change (Q := fun _ _ => Alike n n' p p') hloaded
    ⟨hp.info, hloaded.same hp.nodes⟩) ?_
  intro _ _ i i' hi halike
  exact Pairs.pure hi.toLevel (.some halike)

/-- Splicing keeps the code of two linkers the same. -/
theorem pairs_splice (unit : SourceUnit) {c c' : Code} (hl : Level n n' l l')
    (hc : (register n l).Same (register n' l') c c') :
    Pairs n n' l l' (splice (resolve fs library load unit) c)
      (splice (resolve fs library load unit) c')
      fun d d' k k' => (register n k).Same (register n' k') d d' := by
  induction c generalizing c' l l' with
  | nil =>
    cases hc
    exact Pairs.pure hl .nil
  | cons node rest ih =>
    cases hc with
    | @cons _ node' _ rest' hnode hrest =>
      by_cases himport : node.import? = none
      · rw [splice_node _ himport, splice_node _ (hnode.import?_eq.trans himport)]
        refine Pairs.bind (ih hl hrest) fun d d' k k' hk hd => Pairs.pure hk.toLevel ?_
        exact .cons (hk.like hnode) hd
      · cases hnode with
        | @importing m m' mark request =>
          unfold splice
          refine Pairs.bind (pairs_resolve hload hl unit _ _ request)
            fun found found' k k' hk hfound => ?_
          cases hfound with
          | none =>
            refine Pairs.bind (ih hk.toLevel (hk.same hrest)) fun d d' j j' hj hd =>
              Pairs.pure hj.toLevel (.cons (.importing mark request) hd)
          | @some p p' hp =>
            -- the module node draws a number of its own
            have hdrawn : Later n n' k k' { k with nextId := k.nextId + 1 }
                { k' with nextId := k'.nextId + 1 } :=
              hk.toLevel.later hk.graph hk.loaded (Nat.le_succ _) (Nat.le_succ _) rfl rfl
            have hfresh : Pairs n n' k k' freshId freshId fun _ _ i i' => Later n n' k k' i i' :=
              ⟨hdrawn, hdrawn⟩
            refine Pairs.bind hfresh fun id id' i i' hi _ => ?_
            have hrest' := hi.same (hk.same hrest)
            refine Pairs.bind (ih hi.toLevel hrest') fun d d' j j' hj hd => Pairs.pure hj.toLevel ?_
            have hcode := (hi.trans hj).same hp.nodes
            have hmark : Mark.Like (.spelling : Likeness NodeId NodeId) ⟨id, m.token⟩ ⟨id', m'.token⟩ :=
              ⟨trivial, trivial, mark.word⟩
            unfold moduleNode
            rw [hp.info]
            exact .cons (.program hmark _ hcode) (.cons (.importing mark request) hd)
        | _ => exact absurd rfl himport

/-- **Two linkers that are level link a text to the same code**, or both refuse it. -/
theorem pairs_linkText (hl : Level n n' l l') (unit : SourceUnit) (source : String) :
    Pairs n n' l l' (linkText fs library load unit source) (linkText fs library load unit source)
      (Alike n n') := by
  unfold Pairs
  cases hprogram : program? source with
  | none =>
    obtain ⟨e, log, next, hnext, hrun⟩ := run_linkText_refused fs library load unit l hprogram
    obtain ⟨e', log', next', hnext', hrun'⟩ := run_linkText_refused fs library load unit l' hprogram
    rw [hrun, hrun']
    exact hl.later hl.graph hl.loaded hnext hnext' rfl rfl
  | some p =>
    obtain ⟨hp, hzero⟩ := program?_eq_some_iff.1 hprogram
    have hpass := (Scope.failed_number p l.nextId 0).trans hzero
    have hpass' := (Scope.failed_number p l'.nextId 0).trans hzero
    obtain ⟨log, hrun⟩ := run_linkText fs library load unit hp hpass
    obtain ⟨log', hrun'⟩ := run_linkText fs library load unit hp hpass'
    rw [hrun, hrun']
    have hsame := (Scope.same_registered (Tree.allIn_read_of_ofSource hp) l.nextId l'.nextId).mono
      (extends_checked p log hl.ahead hl.le) (extends_checked p log' hl.ahead' hl.le')
    have hchecked := hl.checked hp hp hpass hpass' log log'
    refine Outcomes.mono (Pairs.bind (pairs_splice hload unit hchecked.toLevel hsame) ?_) hchecked
      fun _ _ _ _ _ h => h
    intro d d' k k' hk hd
    have hfiled : Later n n' k k' { k with log := Reporter.setFile k.log unit.display }
        { k' with log := Reporter.setFile k'.log unit.display } :=
      hk.toLevel.later hk.graph hk.loaded (Nat.le_refl _) (Nat.le_refl _) rfl rfl
    refine Pairs.bind (Pairs.change (Q := fun _ _ i i' => Later n n' k k' i i') hfiled hfiled) ?_
    intro _ _ i i' hi _
    exact Pairs.pure hi.toLevel ⟨rfl, hi.same hd⟩

omit hload in
theorem pairs_linkFile (fuel : Nat) (path : Path) (origin : Origin) (hl : Level n n' l l') :
    Pairs n n' l l' (linkFile fs library fuel path origin) (linkFile fs library fuel path origin)
      (Alike n n') := by
  induction fuel generalizing path origin l l' with
  | zero => exact hl.refl
  | succ fuel ih =>
    unfold linkFile
    split
    · exact Pairs.fail hl _ _
    · exact pairs_linkText (fun path origin l l' hl => ih path origin hl) hl _ _

end Files

/-- **Two linkers that are level link a program to the same code**, or both refuse it. -/
theorem pairs_link {fs : FileSystem} {library : String} (start : Start) (hl : Level n n' l l') :
    Pairs n n' l l' (start.link fs library) (start.link fs library) (Alike n n') := by
  cases start with
  | file path =>
    refine Pairs.bind (pairs_linkFile (fuelFor fs) path .user hl) fun p p' k k' hk hp => ?_
    have hloaded : Later n n' k k' { k with loaded := path :: k.loaded }
        { k' with loaded := path :: k'.loaded } :=
      hk.toLevel.later hk.graph (congrArg (List.cons path) hk.loaded) (Nat.le_refl _)
        (Nat.le_refl _) rfl rfl
    refine Pairs.bind (Pairs.change (Q := fun _ _ i i' => Later n n' k k' i i') hloaded hloaded) ?_
    intro _ _ i i' hi _
    exact Pairs.pure hi.toLevel ⟨hp.info, hi.same hp.nodes⟩
  | text unit source =>
    exact pairs_linkText (fun path origin _ _ => pairs_linkFile (fuelFor fs) path origin) hl unit source

/-! ## One text after another -/

/-- Code without imports stays where it is. -/
theorem splice_append {follow : Position → Import → Linking (Option (Program NodeId))} (code : Code)
    {more : Code} (hplain : Node.AllIn Node.Plain more) :
    splice follow (code ++ more) = splice follow code >>= fun others => pure (others ++ more) := by
  induction code with
  | nil =>
    ext l
    exact run_splice_plain hplain
  | cons node rest ih =>
    by_cases himport : node.import? = none
    · rw [List.cons_append, splice_node _ himport, splice_node _ himport, ih]
      simp only [bind_assoc, pure_bind, List.cons_append]
    · cases node with
      | importing m request =>
        simp only [List.cons_append, splice, bind_assoc, ih]
        refine bind_congr fun found => ?_
        cases found <;> simp only [bind_assoc, pure_bind, List.cons_append]
      | _ => exact absurd rfl himport

/-- What linking gives for a text, and for the same text with another one after it: the same code, and
then that of `q`. -/
structure Continued (unit : SourceUnit) (q : Program Unit) (n n' : NodeId) (r r' : Program NodeId)
    (k k' : Linker) (code more : Code) : Prop where
  info : r.info = unit.info
  info' : r'.info = unit.info
  nodes : r'.nodes = code ++ more
  same : (register n k).Same (register n' k') r.nodes code
  rest : ∀ m, (Scope.registered q m).Same (register n' k') (Node.numberAll m q.nodes).1 more

section Seam

variable {fs : FileSystem} {library : String} {load : Path → Origin → Linking (Program NodeId)}
  (hload : ∀ path origin l l', Level n n' l l' →
    Pairs n n' l l' (load path origin) (load path origin) (Alike n n'))

include hload

theorem pairs_linkText_seam (hl : Level n n' l l') (unit : SourceUnit) {a b : String}
    {p q : Program Unit} (ha : program? a = some p) (hclosed : Source.ClosesComments a)
    (hb : program? b = some q) (himports : q.imports = []) :
    Pairs n n' l l' (linkText fs library load unit a)
      (linkText fs library load unit (a ++ "\n" ++ b))
      fun r r' k k' => ∃ code more, Continued unit q n n' r r' k k' code more := by
  obtain ⟨hp, hzero⟩ := program?_eq_some_iff.1 ha
  obtain ⟨hq, hzero'⟩ := program?_eq_some_iff.1 hb
  obtain ⟨nodes, hwhole, hnodes⟩ := Tree.ofSource_seam hp hclosed hq
  have hpass : ∀ m, (Scope.analyse (p.number m).1).failed = false := fun m =>
    (Scope.failed_number p m 0).trans hzero
  have happended : ∀ m, Scope.Appended p q nodes l'.nextId m := fun m =>
    Scope.appended (hpass _) ((Scope.failed_number q m 0).trans hzero')
      (Tree.allIn_read_of_ofSource hq) (plain_of_program? hb himports m) hnodes
  obtain ⟨log, hrun⟩ := run_linkText fs library load unit hp (hpass l.nextId)
  obtain ⟨log', hrun'⟩ := run_linkText fs library load unit hwhole (happended 0).passes
  have hchecked := hl.checked hp hwhole (hpass _) (happended 0).passes log log'
  have hextends := extends_checked { p with nodes := p.nodes ++ nodes } log' hl.ahead' hl.le'
  have hsame := (Scope.same_registered (Tree.allIn_read_of_ofSource hp) l.nextId l'.nextId).mono
    (extends_checked p log hl.ahead hl.le) ((happended 0).first.trans hextends)
  have hcode := congrArg Prod.fst (Scope.numberAll_append l'.nextId p.nodes nodes)
  unfold Pairs
  rw [hrun, hrun', hcode, splice_append _ (happended 0).plain, bind_assoc]
  simp only [pure_bind]
  refine Outcomes.mono (Pairs.bind (pairs_splice hload unit hchecked.toLevel hsame) ?_) hchecked
    fun _ _ _ _ _ h => h
  intro d d' k k' hk hd
  have hfiled : Later n n' k k' { k with log := Reporter.setFile k.log unit.display }
      { k' with log := Reporter.setFile k'.log unit.display } :=
    hk.toLevel.later hk.graph hk.loaded (Nat.le_refl _) (Nat.le_refl _) rfl rfl
  refine Pairs.bind (Pairs.change (Q := fun _ _ i i' => Later n n' k k' i i') hfiled hfiled) ?_
  intro _ _ i i' hi _
  refine Pairs.pure hi.toLevel ⟨d', _, rfl, rfl, rfl, hi.same hd, fun m => ?_⟩
  exact (happended m).rest.mono (.refl _)
    (hextends.trans ((hk.trans hi).follows'.extends n'))

end Seam

end Linking

end Catena

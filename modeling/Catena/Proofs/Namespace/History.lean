import Catena.Proofs.Namespace
import Mathlib.Data.List.Induction
import Mathlib.Data.List.Nodup

/-!
# What a namespace remembers

A namespace keeps two lists: its bindings, in which a name keeps its place when it is bound again, and
its public names, in which a name loses its place when it is bound privately. What they hold is said by
the definitions made since the namespace was last emptied (`Namespace.Follows`): which names there are
and in which order, what each stands for, and which of them are public, in the order in which they last
became so. Every definition keeps this (`Namespace.Follows.define`), and with it every run of definitions,
mountings and emptyings, whatever is done to other namespaces in between (`Namespaces.follows_history`).

A name that is bound is never mounted over: mounting gives the namespace that it stands for, or is
refused (`Namespaces.mount_bound`). The copy that a module hands out has the public names in their order,
all public (`Namespace.Follows.exported`).
-/

namespace Catena

/-! ## Definitions -/

/-- A definition that was made in a namespace. -/
structure Namespace.Record where
  name : String
  binding : Binding
  isPublic : Bool

namespace Namespace

/-- The latest definition of a name. -/
def latest (log : List Record) (name : String) : Option Record :=
  log.findRev? (·.name == name)

/-- Whether the latest definition of a name is public. -/
def publicIn (log : List Record) (name : String) : Bool :=
  (latest log name).any (·.isPublic)

/-- The names that became public for good in the second part of a log: at a public definition of a name
that was not public before, after which the name has no definition that is not public. -/
def turned (before : List Record) : List Record → List String
  | [] => []
  | r :: after =>
    if r.isPublic && !publicIn before r.name &&
        after.all fun later => later.name != r.name || later.isPublic then
      r.name :: turned (before ++ [r]) after
    else turned (before ++ [r]) after

/-- A namespace that is what the definitions in a log have made of an empty one. -/
structure Follows (n : Namespace) (log : List Record) : Prop where
  /-- The names are in the order of their first definitions. -/
  names : n.names = (log.map (·.name)).eraseDups
  /-- A name stands for what it was last bound to. -/
  bound : ∀ x, n.get? x = (latest log x).map (·.binding)
  /-- The public names are in the order in which each last became public. -/
  published : n.published = turned [] log

@[simp] theorem latest_nil (x : String) : latest [] x = none := rfl

theorem latest_concat (log : List Record) (r : Record) (x : String) :
    latest (log ++ [r]) x = if x = r.name then some r else latest log x := by
  unfold latest
  rw [List.findRev?_eq_find?_reverse, List.findRev?_eq_find?_reverse, List.reverse_concat,
    List.find?_cons]
  by_cases h : x = r.name
  · simp [h]
  · have hbeq : (r.name == x) = false := beq_eq_false_iff_ne.2 (Ne.symm h)
    simp [h, hbeq]

theorem publicIn_concat (log : List Record) (r : Record) (x : String) :
    publicIn (log ++ [r]) x = if x = r.name then r.isPublic else publicIn log x := by
  unfold publicIn
  rw [latest_concat]
  split <;> rfl

/-- One more definition: a name that it makes private loses its place, and one that it makes public gets
the last place. -/
theorem turned_concat (before log : List Record) (r : Record) :
    turned before (log ++ [r]) =
      if r.isPublic then
        if publicIn (before ++ log) r.name then turned before log
        else turned before log ++ [r.name]
      else (turned before log).filter (· != r.name) := by
  induction log generalizing before with
  | nil =>
    simp only [List.nil_append, turned, List.all_nil, Bool.and_true, List.append_nil,
      List.filter_nil]
    cases r.isPublic <;> cases publicIn before r.name <;> rfl
  | cons first rest ih =>
    have hwhole : before ++ [first] ++ rest = before ++ first :: rest := by simp
    rw [List.cons_append, turned, turned, ih, hwhole, List.all_append, ← Bool.and_assoc]
    generalize (first.isPublic && !publicIn before first.name &&
      rest.all fun later => later.name != first.name || later.isPublic) = turns
    cases hpublic : r.isPublic with
    | true =>
      cases turns <;> cases publicIn (before ++ first :: rest) r.name <;> simp [hpublic]
    | false =>
      by_cases hname : first.name = r.name
      · cases turns <;> simp [hpublic, hname]
      · cases turns <;> simp [hpublic, hname, Ne.symm hname]

/-- The names in `turned` are the public ones. -/
theorem mem_turned {log : List Record} {x : String} : x ∈ turned [] log ↔ publicIn log x := by
  induction log using List.reverseRecOn with
  | nil => simp [turned, publicIn]
  | append_singleton log r ih =>
    rw [turned_concat, publicIn_concat, List.nil_append]
    by_cases hname : x = r.name
    · subst hname
      cases r.isPublic <;> cases hbefore : publicIn log r.name <;> simp [ih, hbefore]
    · cases r.isPublic <;> cases publicIn log r.name <;> simp [ih, hname]

theorem nodup_turned (log : List Record) : (turned [] log).Nodup := by
  induction log using List.reverseRecOn with
  | nil => exact List.nodup_nil
  | append_singleton log r ih =>
    rw [turned_concat, List.nil_append]
    split
    · split
      · exact ih
      · next hnew =>
        rw [← mem_turned] at hnew
        exact List.concat_eq_append ▸ ih.concat hnew
    · exact ih.filter _

/-! ## One namespace -/

/-- The names of a log, each at its first place, with one more at the end. -/
theorem eraseDups_concat (xs : List String) (x : String) :
    (xs ++ [x]).eraseDups =
      if xs.eraseDups.contains x then xs.eraseDups else xs.eraseDups ++ [x] := by
  rw [List.eraseDups_append]
  by_cases h : x ∈ xs
  · simp [List.removeAll, h]
  · simp [List.removeAll, h, List.eraseDups_cons]

namespace Follows

variable {n : Namespace} {log : List Record}

theorem empty : Follows {} [] where
  names := rfl
  bound _ := rfl
  published := rfl

/-- **A definition is remembered.** -/
theorem define (h : n.Follows log) (x : String) (b : Binding) (isPublic : Bool) :
    (n.define x b isPublic).Follows (log ++ [⟨x, b, isPublic⟩]) where
  names := by rw [names_define, h.names, List.map_append, List.map_singleton, eraseDups_concat]
  bound y := by
    rw [get?_define, latest_concat, h.bound]
    by_cases hname : y = x <;> simp [hname]
  published := by
    rw [turned_concat, ← h.published, List.nil_append]
    have hpublic : n.published.contains x = publicIn log x := by
      rw [Bool.eq_iff_iff, List.contains_iff_mem, h.published, mem_turned]
    unfold Namespace.define
    dsimp only
    rw [hpublic]
    cases isPublic <;> rfl

theorem mem_names_iff (h : n.Follows log) {x : String} : x ∈ n.names ↔ (n.get? x).isSome := by
  rw [h.names, List.mem_eraseDups, h.bound, Option.isSome_map, latest, List.findRev?_eq_find?_reverse,
    List.find?_isSome]
  simp

theorem mem_published_iff (h : n.Follows log) {x : String} :
    x ∈ n.published ↔ ∃ r, latest log x = some r ∧ r.isPublic := by
  rw [h.published, mem_turned, publicIn, Option.any_eq_true]

theorem nodup_published (h : n.Follows log) : n.published.Nodup :=
  h.published ▸ nodup_turned log

/-- Every public name is bound. -/
theorem published_subset (h : n.Follows log) : n.published ⊆ n.names := by
  intro x hx
  obtain ⟨r, hr, -⟩ := h.mem_published_iff.1 hx
  rw [h.mem_names_iff, h.bound, hr]
  rfl

end Follows

/-! ## The copy of the public members -/

theorem foldl_publish {n : Namespace} {xs : List String} (hbound : ∀ x ∈ xs, (n.get? x).isSome)
    (hnodup : xs.Nodup) {copy : Namespace} (hnew : ∀ x ∈ xs, x ∉ copy.names ∧ x ∉ copy.published) :
    (xs.foldl n.publish copy).names = copy.names ++ xs ∧
      (xs.foldl n.publish copy).published = copy.published ++ xs ∧
      ∀ x, (xs.foldl n.publish copy).get? x = if x ∈ xs then n.get? x else copy.get? x := by
  induction xs generalizing copy with
  | nil => simp
  | cons first rest ih =>
    obtain ⟨hfirst, hrest⟩ := List.forall_mem_cons.1 hbound
    obtain ⟨hnames, hpublished⟩ := hnew first List.mem_cons_self
    obtain ⟨hnot, hnodup⟩ := List.nodup_cons.1 hnodup
    obtain ⟨b, hb⟩ := Option.isSome_iff_exists.1 hfirst
    have hpublish : n.publish copy first = copy.define first b true := by
      unfold publish
      rw [hb]
    have hnames' : (copy.define first b true).names = copy.names ++ [first] := by
      rw [names_define, if_neg (by simpa using hnames)]
    have hpublished' : (copy.define first b true).published = copy.published ++ [first] := by
      simp [Namespace.define, hpublished]
    have hnew' : ∀ x ∈ rest, x ∉ (copy.define first b true).names ∧
        x ∉ (copy.define first b true).published := by
      intro x hx
      have hne : x ≠ first := fun heq => hnot (heq ▸ hx)
      obtain ⟨hx1, hx2⟩ := hnew x (List.mem_cons_of_mem _ hx)
      rw [hnames', hpublished']
      simp [hx1, hx2, hne]
    obtain ⟨hn, hp, hg⟩ := ih hrest hnodup hnew'
    rw [List.foldl_cons, hpublish]
    refine ⟨by rw [hn, hnames', List.append_assoc]; rfl,
      by rw [hp, hpublished', List.append_assoc]; rfl, fun x => ?_⟩
    rw [hg, get?_define]
    by_cases hx : x = first
    · subst hx
      simp [hnot, hb]
    · simp [hx]

/-- **The copy has the public names in their order**, all of them public, and each stands for what it
stands for. -/
theorem Follows.exported {n : Namespace} {log : List Record} (h : n.Follows log) :
    n.exported.names = n.published ∧ n.exported.published = n.published ∧
      ∀ x, n.exported.get? x = if x ∈ n.published then n.get? x else none := by
  rw [exported_eq]
  refine foldl_publish (fun x hx => ?_) h.nodup_published fun x _ =>
    ⟨List.not_mem_nil, List.not_mem_nil⟩
  exact h.mem_names_iff.1 (h.published_subset hx)

/-- What a namespace lists, binds and hands out that is what the definitions in a log have made of an
empty one. -/
structure Lists (n : Namespace) (log : List Record) : Prop extends n.Follows log where
  /-- Every public name is bound. -/
  subset : n.published ⊆ n.names
  /-- The public names are those whose latest definition is public. -/
  isPublic : ∀ x, x ∈ n.published ↔ ∃ r, latest log x = some r ∧ r.isPublic
  /-- What is handed out are the public names, all of them public, in their order. -/
  exportedNames : n.exported.names = n.published
  exportedPublished : n.exported.published = n.published
  exportedBound : ∀ x ∈ n.published, n.exported.get? x = (latest log x).map (·.binding)

theorem Follows.lists {n : Namespace} {log : List Record} (h : n.Follows log) : n.Lists log where
  toFollows := h
  subset := h.published_subset
  isPublic _ := h.mem_published_iff
  exportedNames := h.exported.1
  exportedPublished := h.exported.2.1
  exportedBound x hx := by rw [h.exported.2.2, if_pos hx, h.bound]

end Namespace

/-! ## Runs -/

namespace Namespaces

/-- What can be done to a namespace. -/
inductive Step
  | define (name : String) (binding : Binding) (isPublic : Bool)
  | mount (name : String)
  | clear

/-- Does a step to the namespace `id`. Mounting that is refused changes nothing. -/
def perform (ns : Namespaces) (id : NamespaceId) : Step → Namespaces
  | .define name binding isPublic => ns.define id name binding isPublic
  | .mount name =>
    match ns.mount id name with
    | .ok (_, ns') => ns'
    | .error _ => ns
  | .clear => ns.clear id

/-- Does steps to one namespace and another. -/
def run (ns : Namespaces) (steps : List (NamespaceId × Step)) : Namespaces :=
  steps.foldl (fun ns s => ns.perform s.1 s.2) ns

/-- The definitions since a namespace was last emptied, after one more step. To mount a name that is not
there is to bind it privately to the namespace `next` that is made next. -/
def recorded (log : List Namespace.Record) (next : NamespaceId) : Step → List Namespace.Record
  | .define name binding isPublic => log ++ [⟨name, binding, isPublic⟩]
  | .mount name =>
    if log.any (·.name == name) then log else log ++ [⟨name, .child next, false⟩]
  | .clear => []

/-- What steps do to the namespace `id`, whose definitions were `log`. -/
def history (id : NamespaceId) (ns : Namespaces) (log : List Namespace.Record) :
    List (NamespaceId × Step) → List Namespace.Record
  | [] => log
  | (i, s) :: rest =>
    history id (ns.perform i s) (if i = id then recorded log ns.spaces.size s else log) rest

/-! ## Single steps -/

theorem isDefined_eq (n : Namespace) (x : String) : n.isDefined x = (n.get? x).isSome := rfl

/-- A namespace that is mounted is given again. -/
theorem mount_child {ns : Namespaces} {id child : NamespaceId} {x : String}
    (h : (ns.get id).get? x = some (.child child)) : ns.mount id x = .ok (child, ns) := by
  unfold mount
  rw [isDefined_eq, h, Option.isSome_some, if_pos rfl, Namespace.child, h]
  rfl

/-- Nothing is mounted in place of a function. -/
theorem mount_function {ns : Namespaces} {id : NamespaceId} {x : String} {f : Function}
    (h : (ns.get id).get? x = some (.function f)) :
    ns.mount id x = .error (.invalidNamespace x) := by
  unfold mount
  rw [isDefined_eq, h, Option.isSome_some, if_pos rfl, Namespace.child, h]
  rfl

/-- A name that is not there is mounted as the namespace that is made next. -/
theorem mount_free {ns : Namespaces} {id : NamespaceId} {x : String}
    (h : (ns.get id).get? x = none) :
    ns.mount id x =
      .ok (ns.spaces.size, ns.fresh.2.define id x (.child ns.spaces.size) false) := by
  unfold mount
  rw [isDefined_eq, h, Option.isSome_none, if_neg Bool.false_ne_true]
  rfl

theorem get_clear_self (ns : Namespaces) (id : NamespaceId) : (ns.clear id).get id = {} := by
  unfold clear update get
  simp only [Array.getD, Array.size_modify]
  split
  · exact Array.getElem_modify_self ..
  · rfl

theorem get_clear_ne (ns : Namespaces) {id id' : NamespaceId} (h : id' ≠ id) :
    (ns.clear id).get id' = ns.get id' := by
  simp [clear, update, get, Array.getD, Array.getElem_modify, h.symm]

theorem perform_mount (ns : Namespaces) (id : NamespaceId) (x : String) :
    ns.perform id (.mount x) =
      if ((ns.get id).get? x).isSome then ns
      else ns.fresh.2.define id x (.child ns.spaces.size) false := by
  show (match ns.mount id x with
    | .ok (_, ns') => ns'
    | .error _ => ns) = _
  cases h : (ns.get id).get? x with
  | none => rw [mount_free h]; rfl
  | some b =>
    cases b with
    | child child => rw [mount_child h]; rfl
    | function f => rw [mount_function h]; rfl

theorem size_le_perform (ns : Namespaces) (id : NamespaceId) (s : Step) :
    ns.spaces.size ≤ (ns.perform id s).spaces.size := by
  cases s with
  | define name binding isPublic => exact Nat.le_of_eq (ns.size_define id name binding isPublic).symm
  | mount x =>
    rw [perform_mount]
    split
    · exact Nat.le_refl _
    · rw [size_define, size_fresh]
      exact Nat.le_succ _
  | clear => simp [perform, clear, update]

/-- A step changes no namespace but the one that it is done to. -/
theorem get_perform_ne (ns : Namespaces) {id id' : NamespaceId} (h : id' ≠ id) (s : Step) :
    (ns.perform id s).get id' = ns.get id' := by
  cases s with
  | define name binding isPublic => exact ns.get_define_ne h name binding isPublic
  | mount x =>
    rw [perform_mount]
    split
    · rfl
    · rw [get_define_ne _ h, get_fresh]
  | clear => exact ns.get_clear_ne h

theorem size_le_run (ns : Namespaces) (steps : List (NamespaceId × Step)) :
    ns.spaces.size ≤ (ns.run steps).spaces.size := by
  induction steps generalizing ns with
  | nil => exact Nat.le_refl _
  | cons step rest ih => exact Nat.le_trans (ns.size_le_perform step.1 step.2) (ih _)

theorem follows_perform {ns : Namespaces} {id : NamespaceId} (hid : id < ns.spaces.size)
    {log : List Namespace.Record} (h : (ns.get id).Follows log) (s : Step) :
    ((ns.perform id s).get id).Follows (recorded log ns.spaces.size s) := by
  cases s with
  | define name binding isPublic =>
    unfold perform
    rw [get_define_self ns hid]
    exact h.define name binding isPublic
  | mount x =>
    have hbound : log.any (·.name == x) = ((ns.get id).get? x).isSome := by
      rw [Bool.eq_iff_iff, ← h.mem_names_iff, h.names, List.mem_eraseDups]
      simp
    rw [perform_mount, recorded, hbound]
    split
    · exact h
    · have hid' : id < ns.fresh.2.spaces.size := by
        rw [size_fresh]
        exact Nat.lt_succ_of_lt hid
      rw [get_define_self _ hid', get_fresh]
      exact h.define x _ false
  | clear =>
    unfold perform
    rw [get_clear_self]
    exact .empty

/-! ## Whole runs -/

/-- **A run of steps is remembered**, whatever else is done to other namespaces. -/
theorem follows_history {ns : Namespaces} {id : NamespaceId} (hid : id < ns.spaces.size)
    {log : List Namespace.Record} (h : (ns.get id).Follows log)
    (steps : List (NamespaceId × Step)) :
    ((ns.run steps).get id).Follows (history id ns log steps) := by
  induction steps generalizing ns log with
  | nil => exact h
  | cons step rest ih =>
    obtain ⟨i, s⟩ := step
    have hsize := Nat.lt_of_lt_of_le hid (ns.size_le_perform i s)
    refine ih hsize ?_
    split
    · next heq =>
      subst heq
      exact follows_perform hid h s
    · next hne =>
      rw [get_perform_ne ns (Ne.symm hne)]
      exact h

/-- A step that neither defines the name `x` nor empties the namespace. -/
def Step.Spares (x : String) : Step → Prop
  | .define name _ _ => name ≠ x
  | .mount _ => True
  | .clear => False

theorem get?_perform {ns : Namespaces} {id : NamespaceId} {x : String} {b : Binding}
    (h : (ns.get id).get? x = some b) {i : NamespaceId} {s : Step} (hs : i = id → s.Spares x) :
    ((ns.perform i s).get id).get? x = some b := by
  by_cases hi : i = id
  · subst hi
    cases s with
    | define name binding isPublic =>
      unfold perform
      rw [get?_define_of_ne ns (fun _ => Ne.symm (hs rfl)), h]
    | mount y =>
      rw [perform_mount]
      split
      · exact h
      · next hfree =>
        -- what is mounted is another name, since this one is bound
        have hne : x ≠ y := by
          rintro rfl
          exact hfree (Option.isSome_iff_exists.2 ⟨b, h⟩)
        rw [get?_define_of_ne _ (fun _ => hne), get_fresh, h]
    | clear => exact (hs rfl).elim
  · rw [get_perform_ne ns (Ne.symm hi), h]

/-- A name stays bound until it is defined again or the namespace is emptied. -/
theorem get?_run {ns : Namespaces} {id : NamespaceId} {x : String} {b : Binding}
    (h : (ns.get id).get? x = some b) {steps : List (NamespaceId × Step)}
    (hsteps : ∀ s ∈ steps, s.1 = id → s.2.Spares x) : ((ns.run steps).get id).get? x = some b := by
  induction steps generalizing ns with
  | nil => exact h
  | cons step rest ih =>
    obtain ⟨hstep, hrest⟩ := List.forall_mem_cons.1 hsteps
    exact ih (get?_perform h hstep) hrest

/-- How names are mounted in a namespace. -/
structure MountsOnce (ns : Namespaces) (id : NamespaceId) : Prop where
  /-- A name that is free is bound to an empty namespace, and nothing else changes. -/
  free : ∀ {x}, (ns.get id).get? x = none → ∃ ns', ns.mount id x = .ok (ns.spaces.size, ns') ∧
    ns'.get id = (ns.get id).define x (.child ns.spaces.size) false ∧ ns'.get ns.spaces.size = {} ∧
    ∀ id' < ns.spaces.size, id' ≠ id → ns'.get id' = ns.get id'
  /-- A binding is not replaced: what is mounted is given, and a function refuses. -/
  child : ∀ {x child}, (ns.get id).get? x = some (.child child) → ns.mount id x = .ok (child, ns)
  function : ∀ {x f}, (ns.get id).get? x = some (.function f) →
    ns.mount id x = .error (.invalidNamespace x) ∧ ns.perform id (.mount x) = ns
  /-- The same namespace is given until the name is defined again or the namespace is emptied. -/
  again : ∀ {x child ns'}, ns.mount id x = .ok (child, ns') → ∀ steps : List (NamespaceId × Step),
    (∀ s ∈ steps, s.1 = id → s.2.Spares x) → (ns'.run steps).mount id x = .ok (child, ns'.run steps)

theorem get_size (ns : Namespaces) : ns.get ns.spaces.size = {} := by
  simp [get, Array.getD]

theorem mountsOnce {ns : Namespaces} {id : NamespaceId} (hid : id < ns.spaces.size) :
    ns.MountsOnce id where
  free {x} hfree := by
    have hid' : id < ns.fresh.2.spaces.size := by
      rw [size_fresh]
      exact Nat.lt_succ_of_lt hid
    refine ⟨_, mount_free hfree, ?_, ?_, fun id' _ hne => ?_⟩
    · rw [get_define_self _ hid', get_fresh]
    · rw [get_define_ne _ (Nat.ne_of_gt hid), get_fresh, get_size]
    · rw [get_define_ne _ hne, get_fresh]
  child := mount_child
  function {x f} h := ⟨mount_function h, by rw [perform_mount, h]; rfl⟩
  again {x child ns'} h steps hsteps := by
    have hbound : (ns'.get id).get? x = some (.child child) := by
      rcases mount_cases h with ⟨hchild, rfl⟩ | ⟨-, rfl, rfl⟩
      · exact hchild
      · have hid' : id < ns.fresh.2.spaces.size := by
          rw [size_fresh]
          exact Nat.lt_succ_of_lt hid
        rw [get_define_self _ hid', Namespace.get?_define, beq_self_eq_true, if_pos rfl]
    exact mount_child (get?_run hbound hsteps)

/-- **What a namespace holds after any steps**, to it and to others: the names defined since it was last
emptied, each with what it was last bound to, and those of them that are public. Names that are bound
are not mounted over, and the copy of the public members has just these. -/
theorem run_remembers (ns : Namespaces) (steps : List (NamespaceId × Step)) :
    ((ns.fresh.2.run steps).get ns.fresh.1).Lists (history ns.fresh.1 ns.fresh.2 [] steps) ∧
      (ns.fresh.2.run steps).MountsOnce ns.fresh.1 := by
  have hid : ns.fresh.1 < ns.fresh.2.spaces.size := by
    rw [size_fresh]
    exact Nat.lt_succ_self _
  have hempty : (ns.fresh.2.get ns.fresh.1).Follows [] := by
    rw [get_fresh]
    exact ns.get_size ▸ .empty
  exact ⟨(follows_history hid hempty steps).lists,
    mountsOnce (Nat.lt_of_lt_of_le hid (size_le_run _ steps))⟩

/-- A namespace in which `a` becomes public, then private, then public again, and one is mounted twice
while something is defined in it. -/
def republished : List (NamespaceId × Step) :=
  [(0, .define "a" (.child 0) true), (0, .mount "c"), (1, .define "a" (.child 0) false),
    (0, .define "b" (.child 0) true), (0, .define "a" (.child 0) false), (0, .mount "c"),
    (0, .define "a" (.child 0) true)]

theorem run_remembers_republished :
    (history 0 (fresh {}).2 [] republished).map (·.name) = ["a", "c", "b", "a", "a"] ∧
    (((fresh {}).2.run republished).get 0).names = ["a", "c", "b"] ∧
    (((fresh {}).2.run republished).get 0).published = ["b", "a"] ∧
    ((fresh {}).2.run republished).mount 0 "c" = .ok (1, (fresh {}).2.run republished) ∧
    (((fresh {}).2.run republished).get 0).Lists (history 0 (fresh {}).2 [] republished) ∧
    ((fresh {}).2.run republished).MountsOnce 0 := by
  obtain ⟨hlists, hmounts⟩ := run_remembers {} republished
  exact ⟨by decide, by decide, by decide, hmounts.child rfl, hlists, hmounts⟩

end Namespaces

end Catena

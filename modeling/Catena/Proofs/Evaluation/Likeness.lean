import Catena.Proofs.Evaluation.Correspondence
import Catena.Proofs.Evaluation.Imports
import Mathlib.Logic.Equiv.Basic

/-!
# Bindings of two runs

What two runs have bound is alike if it is the same but for the code in it, and for the names, which a
permutation takes from the one to the other. Namespaces list their bindings in the same order and have
the same names public. Definitions, imports and exports keep this; modules are compared under the same
names only.
-/

namespace Catena

/-! ## Functions and bindings -/

/-- Functions that are the same but for their code, which `tag` and `code` compare. -/
inductive Function.Alike (tag : NodeId → NodeId → Prop) (code : Code → Code → Prop) :
    Function → Function → Prop
  | native (f : Native) (access : Access) : Alike tag code (.native f access) (.native f access)
  | defined {d d' : Definition} (name : d'.name = d.name) (pre : d'.pre = d.pre)
    (post : d'.post = d.post) (home : d'.home = d.home) (file : d'.file = d.file)
    (body : code d.body d'.body) : Alike tag code (.defined d) (.defined d')
  | constant {v v' : Value} (home : NamespaceId) (value : Value.Alike tag code v v') :
    Alike tag code (.constant v home) (.constant v' home)

inductive Binding.Alike (tag : NodeId → NodeId → Prop) (code : Code → Code → Prop) :
    Binding → Binding → Prop
  | function {f f' : Function} (h : Function.Alike tag code f f') :
    Alike tag code (.function f) (.function f')
  | child (id : NamespaceId) : Alike tag code (.child id) (.child id)

/-- Bindings of a name and of its new name. -/
def Binding.Entries (σ : Equiv.Perm String) (tag : NodeId → NodeId → Prop)
    (code : Code → Code → Prop) (e e' : String × Binding) : Prop :=
  e'.1 = σ e.1 ∧ Binding.Alike tag code e.2 e'.2

/-- Namespaces with the same bindings in the same order, but for code and names. -/
structure Namespace.Alike (σ : Equiv.Perm String) (tag : NodeId → NodeId → Prop)
    (code : Code → Code → Prop) (n n' : Namespace) : Prop where
  entries : List.Forall₂ (Binding.Entries σ tag code) n.bindings.entries n'.bindings.entries
  published : n'.published = n.published.map σ

structure Namespaces.Alike (σ : Equiv.Perm String) (tag : NodeId → NodeId → Prop)
    (code : Code → Code → Prop) (ns ns' : Namespaces) : Prop where
  size : ns'.spaces.size = ns.spaces.size
  get : ∀ id, (ns.get id).Alike σ tag code (ns'.get id)

/-- Loaders that offer the same under the same names. -/
inductive Loader.Alike (tag : NodeId → NodeId → Prop) (code : Code → Code → Prop) :
    Loader → Loader → Prop
  | natives : Alike tag code .natives .natives
  | module (key : String) (origin : Origin) {n n' : Namespace} (h : n.Alike (.refl _) tag code n') :
    Alike tag code (.module ⟨key, n, origin⟩) (.module ⟨key, n', origin⟩)

section Mono

variable {σ : Equiv.Perm String} {tag tag' : NodeId → NodeId → Prop}
  {code code' : Code → Code → Prop} (htag : ∀ i i', tag i i' → tag' i i')
  (hcode : ∀ c c', code c c' → code' c c')

include htag hcode

theorem Value.Alike.mono {v v' : Value} (h : v.Alike tag code v') : v.Alike tag' code' v' := by
  cases h with
  | literal l => exact .literal l
  | array a => exact .array a
  | sequence hblock hbody => exact .sequence (htag _ _ hblock) (hcode _ _ hbody)

theorem Function.Alike.mono {f f' : Function} (h : f.Alike tag code f') : f.Alike tag' code' f' := by
  cases h with
  | native f access => exact .native f access
  | defined name pre post home file body =>
    exact .defined name pre post home file (hcode _ _ body)
  | constant home value => exact .constant home (value.mono htag hcode)

theorem Binding.Alike.mono {b b' : Binding} (h : b.Alike tag code b') : b.Alike tag' code' b' := by
  cases h with
  | function h => exact .function (h.mono htag hcode)
  | child id => exact .child id

theorem Namespace.Alike.mono {n n' : Namespace} (h : n.Alike σ tag code n') :
    n.Alike σ tag' code' n' :=
  ⟨h.entries.imp fun _ _ he => ⟨he.1, he.2.mono htag hcode⟩, h.published⟩

theorem Namespaces.Alike.mono {ns ns' : Namespaces} (h : ns.Alike σ tag code ns') :
    ns.Alike σ tag' code' ns' :=
  ⟨h.size, fun id => (h.get id).mono htag hcode⟩

theorem Loader.Alike.mono {l l' : Loader} (h : l.Alike tag code l') : l.Alike tag' code' l' := by
  cases h with
  | natives => exact .natives
  | module key origin h => exact .module key origin (h.mono htag hcode)

end Mono

section Refl

variable {tag : NodeId → NodeId → Prop} {code : Code → Code → Prop} (htag : ∀ i, tag i i)
  (hcode : ∀ c, code c c)

include htag hcode

theorem Value.Alike.refl (v : Value) : v.Alike tag code v := by
  cases v with
  | literal l => exact .literal l
  | sequence q => exact .sequence (htag q.block) (hcode q.body)
  | array a => exact .array a

theorem Function.Alike.refl (f : Function) : f.Alike tag code f := by
  cases f with
  | native f access => exact .native f access
  | defined d => exact .defined rfl rfl rfl rfl rfl (hcode d.body)
  | constant v home => exact .constant home (Value.Alike.refl htag hcode v)

theorem Binding.Alike.refl (b : Binding) : b.Alike tag code b := by
  cases b with
  | function f => exact .function (Function.Alike.refl htag hcode f)
  | child id => exact .child id

theorem Namespace.Alike.refl (n : Namespace) : n.Alike (.refl _) tag code n := by
  refine ⟨List.forall₂_same.2 fun e _ => ⟨rfl, Binding.Alike.refl htag hcode e.2⟩, ?_⟩
  rw [Equiv.coe_refl, List.map_id]

theorem Namespaces.Alike.refl (ns : Namespaces) : ns.Alike (.refl _) tag code ns :=
  ⟨rfl, fun id => Namespace.Alike.refl htag hcode (ns.get id)⟩

theorem Loader.Alike.refl (l : Loader) : l.Alike tag code l := by
  cases l with
  | natives => exact .natives
  | module m => exact .module m.key m.origin (Namespace.Alike.refl htag hcode m.exports)

end Refl

variable {σ : Equiv.Perm String} {tag : NodeId → NodeId → Prop} {code : Code → Code → Prop}

/-! ## One namespace -/

namespace Namespace.Alike

variable {n n' : Namespace}

theorem empty : ({} : Namespace).Alike σ tag code {} :=
  ⟨.nil, rfl⟩

/-- A name is bound to what its new name is bound to. -/
theorem get? (h : n.Alike σ tag code n') (name : String) :
    Option.Rel (Binding.Alike tag code) (n.get? name) (n'.get? (σ name)) := by
  have hentries := h.entries
  unfold Namespace.get? OrderedMap.get?
  generalize n.bindings.entries = es, n'.bindings.entries = es' at hentries ⊢
  induction hentries with
  | nil => exact .none
  | @cons e e' es es' he _ ih =>
    rw [List.lookup_cons, List.lookup_cons, he.1]
    by_cases hname : name = e.1
    · rw [hname, beq_self_eq_true, beq_self_eq_true]
      exact .some he.2
    · have hname' : σ name ≠ σ e.1 := fun heq => hname (σ.injective heq)
      rw [beq_false_of_ne hname, beq_false_of_ne hname']
      exact ih

theorem isDefined_eq (h : n.Alike σ tag code n') (name : String) :
    n'.isDefined (σ name) = n.isDefined name := by
  have hrel := h.get? name
  show (n'.get? (σ name)).isSome = (n.get? name).isSome
  generalize n.get? name = b, n'.get? (σ name) = b' at hrel ⊢
  cases hrel <;> rfl

theorem function? (h : n.Alike σ tag code n') (name : String) :
    Option.Rel (Function.Alike tag code) (n.function? name) (n'.function? (σ name)) := by
  have hrel := h.get? name
  unfold Namespace.function?
  generalize n.get? name = b, n'.get? (σ name) = b' at hrel ⊢
  cases hrel with
  | none => exact .none
  | some hb =>
    cases hb with
    | function hf => exact .some hf
    | child => exact .none

/-- A child is mounted under a name that stays in both, or in none. -/
theorem child (h : n.Alike σ tag code n') {name : String} (hname : σ name = name) :
    (n'.child name) = n.child name := by
  have hrel := h.get? name
  rw [hname] at hrel
  unfold Namespace.child
  generalize n.get? name = b, n'.get? name = b' at hrel ⊢
  cases hrel with
  | none => rfl
  | some hb => cases hb <;> rfl

theorem insertEntry {es es' : List (String × Binding)}
    (h : List.Forall₂ (Binding.Entries σ tag code) es es') (name : String) {b b' : Binding}
    (hb : b.Alike tag code b') :
    List.Forall₂ (Binding.Entries σ tag code) (OrderedMap.insertEntry name b es)
      (OrderedMap.insertEntry (σ name) b' es') := by
  induction h with
  | nil => exact .cons ⟨rfl, hb⟩ .nil
  | @cons e e' es es' he hrest ih =>
    unfold OrderedMap.insertEntry
    rw [he.1]
    by_cases hname : name = e.1
    · rw [hname, if_pos (beq_self_eq_true _), if_pos (beq_self_eq_true _)]
      exact .cons ⟨rfl, hb⟩ hrest
    · have hname' : σ name ≠ σ e.1 := fun heq => hname (σ.injective heq)
      rw [if_neg (by simpa using hname), if_neg (by simpa using hname')]
      exact .cons he ih

theorem define (h : n.Alike σ tag code n') (name : String) {b b' : Binding}
    (hb : b.Alike tag code b') (isPublic : Bool) :
    (n.define name b isPublic).Alike σ tag code (n'.define (σ name) b' isPublic) := by
  refine ⟨insertEntry h.entries name hb, ?_⟩
  have hne : ∀ x, (σ x != σ name) = (x != name) := fun x => by
    rw [Bool.eq_iff_iff, bne_iff_ne, bne_iff_ne, ne_eq, σ.injective.eq_iff]
  have hfilter : (n.published.map σ).filter (· != σ name) =
      (n.published.filter (· != name)).map σ := by
    rw [List.filter_map]
    exact congrArg _ (List.filter_congr fun x _ => hne x)
  have hcontains : (n.published.map σ).contains (σ name) = n.published.contains name := by
    rw [Bool.eq_iff_iff, List.contains_iff_mem, List.contains_iff_mem,
      List.mem_map_of_injective σ.injective]
  unfold Namespace.define
  dsimp only
  rw [h.published, hfilter, hcontains]
  cases isPublic
  · rfl
  · cases n.published.contains name
    · simp
    · rfl

theorem exported (h : n.Alike σ tag code n') : n.exported.Alike σ tag code n'.exported := by
  have hfold : ∀ (names : List String) {copy copy' : Namespace}, copy.Alike σ tag code copy' →
      (names.foldl n.publish copy).Alike σ tag code ((names.map σ).foldl n'.publish copy') := by
    intro names
    induction names with
    | nil => exact fun hcopy => hcopy
    | cons name rest ih =>
      intro copy copy' hcopy
      refine ih ?_
      have hrel := h.get? name
      unfold Namespace.publish
      generalize n.get? name = b, n'.get? (σ name) = b' at hrel ⊢
      cases hrel with
      | none => exact hcopy
      | some hb => exact hcopy.define name hb true
  rw [Namespace.exported_eq, Namespace.exported_eq, h.published]
  exact hfold n.published empty

end Namespace.Alike

/-! ## All namespaces -/

namespace Namespaces.Alike

variable {ns ns' : Namespaces}

theorem define (h : ns.Alike σ tag code ns') {b b' : Binding} (hb : b.Alike tag code b')
    (id : NamespaceId) (name : String) (isPublic : Bool) :
    (ns.define id name b isPublic).Alike σ tag code (ns'.define id (σ name) b' isPublic) := by
  refine ⟨by rw [size_define, size_define, h.size], fun id' => ?_⟩
  by_cases hid : id' = id
  · subst hid
    by_cases hsize : id' < ns.spaces.size
    · rw [get_define_self ns hsize, get_define_self ns' (h.size ▸ hsize)]
      exact (h.get id').define name hb isPublic
    · have hle := Nat.not_lt.1 hsize
      rw [get_define_of_le ns hle, get_define_of_le ns' (h.size ▸ hle)]
      exact h.get id'
  · rw [get_define_ne ns hid, get_define_ne ns' hid]
    exact h.get id'

theorem fresh (h : ns.Alike σ tag code ns') :
    ns'.fresh.1 = ns.fresh.1 ∧ ns.fresh.2.Alike σ tag code ns'.fresh.2 := by
  refine ⟨h.size, by rw [size_fresh, size_fresh, h.size], fun id => ?_⟩
  rw [get_fresh, get_fresh]
  exact h.get id

theorem bindFunctions (h : ns.Alike σ tag code ns') {loaders loaders' : LoaderStack} {key : String}
    (hfunction : ∀ name, Option.Rel (Function.Alike tag code) (loaders.function? key name)
      (loaders'.function? key name))
    (space : NamespaceId) {names : List (String × String)}
    (hnames : ∀ pair ∈ names, σ pair.2 = pair.2) :
    (Evaluation.bindFunctions loaders key space names ns).Alike σ tag code
      (Evaluation.bindFunctions loaders' key space names ns') := by
  induction names generalizing ns ns' with
  | nil => exact h
  | cons pair rest ih =>
    obtain ⟨hpair, hrest⟩ := List.forall_mem_cons.1 hnames
    rw [Evaluation.bindFunctions_cons, Evaluation.bindFunctions_cons]
    refine ih ?_ hrest
    have hrel := hfunction pair.1
    generalize loaders.function? key pair.1 = f, loaders'.function? key pair.1 = f' at hrel ⊢
    cases hrel with
    | none => exact h
    | some hf =>
      have hdefine := h.define (.function hf) space pair.2 false
      rwa [hpair] at hdefine

end Namespaces.Alike

/-! ## Loaders -/

namespace Loader.Alike

variable {l l' : Loader}

theorem has_eq (h : l.Alike tag code l') (key : String) : l'.has key = l.has key := by
  cases h <;> rfl

theorem names_eq (h : l.Alike tag code l') (key : String) : l'.names key = l.names key := by
  cases h with
  | natives => rfl
  | module _ _ h =>
    unfold Loader.names
    dsimp only
    rw [h.published, Equiv.coe_refl, List.map_id]

theorem function? (h : l.Alike tag code l') (key name : String) :
    Option.Rel (Function.Alike tag code) (l.function? key name) (l'.function? key name) := by
  cases h with
  | natives =>
    unfold Loader.function?
    cases Native.find? key name with
    | none => exact .none
    | some native => exact .some (.native native _)
  | module key' _ h =>
    unfold Loader.function?
    dsimp only
    cases key' == key with
    | false => exact .none
    | true => exact h.function? name

end Loader.Alike

section Stacks

variable {ls ls' : List Loader} (h : List.Forall₂ (Loader.Alike tag code) ls ls')

include h

theorem LoaderStack.has_alike (key : String) :
    (LoaderStack.mk ls').has key = (LoaderStack.mk ls).has key := by
  unfold LoaderStack.has
  dsimp only
  induction h with
  | nil => rfl
  | cons hl _ ih => rw [List.any_cons, List.any_cons, hl.has_eq, ih]

theorem LoaderStack.names_alike (key : String) :
    (LoaderStack.mk ls').names key = (LoaderStack.mk ls).names key := by
  unfold LoaderStack.names
  dsimp only
  generalize ([] : List String) = names
  induction h generalizing names with
  | nil => rfl
  | cons hl _ ih => rw [List.foldl_cons, List.foldl_cons, hl.has_eq, hl.names_eq, ih]

theorem LoaderStack.function?_alike (key name : String) :
    Option.Rel (Function.Alike tag code) ((LoaderStack.mk ls).function? key name)
      ((LoaderStack.mk ls').function? key name) := by
  rw [LoaderStack.function?_eq, LoaderStack.function?_eq]
  dsimp only
  induction h with
  | nil => exact .none
  | @cons l l' _ _ hl _ ih =>
    have hrel := hl.function? key name
    rw [List.findSome?_cons, List.findSome?_cons]
    generalize l.function? key name = f, l'.function? key name = f' at hrel ⊢
    cases hrel with
    | none => exact ih
    | some hf => exact .some hf

end Stacks

/-! ## Failures -/

inductive Note.Alike (R : Position → Position → Prop) : Note → Note → Prop
  | calledFrom {site site' : Position} (h : R site site') :
    Alike R (.calledFrom site) (.calledFrom site')

/-- Diagnostics of errors that `error` compares, at positions that `R` compares. -/
structure Diagnostic.Alike (error : RuntimeError → RuntimeError → Prop)
    (R : Position → Position → Prop) (d d' : Diagnostic) : Prop where
  cause : ∃ e e', d.cause = .runtime e ∧ d'.cause = .runtime e' ∧ error e e'
  position : Option.Rel R d.position d'.position
  file : d'.file = d.file
  notes : List.Forall₂ (Note.Alike R) d.notes d'.notes

namespace Diagnostic.Alike

variable {error : RuntimeError → RuntimeError → Prop} {R : Position → Position → Prop}
  {d d' : Diagnostic}

theorem ofRuntime {e e' : RuntimeError} (h : error e e') :
    (Diagnostic.ofRuntime e).Alike error R (.ofRuntime e') :=
  ⟨⟨e, e', rfl, rfl, h⟩, .none, rfl, .nil⟩

theorem locate (h : d.Alike error R d') {position position' : Position}
    (hposition : R position position') (file : Option String) :
    (d.locate position file).Alike error R (d'.locate position' file) := by
  refine ⟨h.cause, ?_, ?_, h.notes⟩
  · have hrel := h.position
    unfold Diagnostic.locate
    dsimp only
    generalize d.position = o, d'.position = o' at hrel ⊢
    cases hrel with
    | none => exact .some hposition
    | some hold => exact .some hold
  · unfold Diagnostic.locate
    dsimp only
    rw [h.file]

theorem throughCall (h : d.Alike error R d') {site site' : Position} (hsite : R site site')
    (file : Option String) :
    (d.throughCall site file).Alike error R (d'.throughCall site' file) := by
  have hrel := h.position
  unfold Diagnostic.throughCall
  generalize d.position = o, d'.position = o' at hrel ⊢
  cases hrel with
  | none => exact h.locate hsite file
  | some hold =>
    dsimp only
    rw [h.notes.length_eq]
    split
    · exact ⟨h.cause, .some hold, h.file, List.rel_append h.notes (.cons (.calledFrom hsite) .nil)⟩
    · exact h

end Diagnostic.Alike

end Catena

import Catena.Proofs.Namespace

/-!
# What loaders serve

A loader has a function only under a key that it knows, and lists every name that it has a function
for (`Loader.Lists`). Of loaders on top of each other, the newest that has a function gives it
(`LoaderStack.function?_eq`), and the names are those of all of them (`LoaderStack.mem_names`).
-/

namespace Catena

theorem Native.mem_members_of_find? {home name : String} {native : Native}
    (h : find? home name = some native) : native ∈ members home ∧ native.entry.name = name := by
  unfold find? at h
  have found := List.find?_some h
  rw [Bool.and_eq_true] at found
  refine ⟨List.mem_filter.2 ⟨List.mem_of_find?_eq_some h, found.1⟩, eq_of_beq found.2⟩

namespace Loader

theorem has_of_function? {l : Loader} {space name : String} {f : Function}
    (h : l.function? space name = some f) : l.has space = true := by
  cases l with
  | natives =>
    obtain ⟨native, hnative, -⟩ := Option.map_eq_some_iff.1 h
    have hfull := List.ne_nil_of_mem (Native.mem_members_of_find? hnative).1
    simpa [has] using hfull
  | module m =>
    unfold function? at h
    dsimp only at h
    split at h
    · next hkey => exact hkey
    · cases h

/-- The loader lists every name that it has a function for. -/
def Lists (l : Loader) : Prop :=
  ∀ space name, (l.function? space name).isSome → name ∈ l.names space

theorem lists_natives : Lists natives := by
  intro space name h
  obtain ⟨f, hf⟩ := Option.isSome_iff_exists.1 h
  obtain ⟨native, hnative, -⟩ := Option.map_eq_some_iff.1 hf
  exact List.mem_map.2 ⟨native, Native.mem_members_of_find? hnative⟩

/-- A module that was made by exporting a namespace lists its functions. -/
theorem lists_exported (key : String) (n : Namespace) (origin : Origin) :
    Lists (module ⟨key, n.exported, origin⟩) := by
  intro space name h
  obtain ⟨f, hf⟩ := Option.isSome_iff_exists.1 h
  unfold function? at hf
  unfold names
  dsimp only at hf ⊢
  split at hf
  · next hkey =>
    rw [if_pos hkey]
    refine Namespace.mem_published_exported ?_
    rw [Namespace.function?_eq_some_iff.1 hf]
    rfl
  · cases hf

/-- No native function is kept under the name of a source file. -/
theorem not_has_natives {key : String} (h : hasEnding sourceExtension key) :
    natives.has key = false := by
  have spaces : ∀ native ∈ Native.all, hasEnding sourceExtension native.entry.home = false := by
    decide
  have none : Native.members key = [] := by
    refine List.filter_eq_nil_iff.2 fun native hnative hhome => ?_
    have := spaces native hnative
    rw [eq_of_beq hhome, h] at this
    cases this
  simp [has, none]

end Loader

namespace LoaderStack

/-- The newest loader that has a function gives it. -/
theorem function?_eq (s : LoaderStack) (space name : String) :
    s.function? space name = s.loaders.findSome? (·.function? space name) := by
  unfold function?
  obtain ⟨loaders⟩ := s
  show (loaders.find? _).bind _ = loaders.findSome? _
  induction loaders with
  | nil => rfl
  | cons l rest ih =>
    rw [List.find?_cons, List.findSome?_cons]
    cases h : l.function? space name with
    | some f =>
      have serves : (l.has space && l.contains space name) = true := by
        rw [Loader.has_of_function? h, Loader.contains, h]
        rfl
      rw [serves]
      exact h
    | none =>
      have lacks : (l.has space && l.contains space name) = false := by
        rw [Loader.contains, h]
        exact Bool.and_false _
      rw [lacks]
      exact ih

/-- What loaders give is native or comes from a module. -/
theorem native_or_offered {s : LoaderStack} {space name : String} {f : Function}
    (h : s.function? space name = some f) :
    (∃ native, f = .ofNative native) ∨
      ∃ m, Loader.module m ∈ s.loaders ∧ m.exports.function? name = some f := by
  rw [function?_eq] at h
  obtain ⟨l, hl, hf⟩ := List.exists_of_findSome?_eq_some h
  cases l with
  | natives =>
    obtain ⟨native, -, rfl⟩ := Option.map_eq_some_iff.1 hf
    exact .inl ⟨native, rfl⟩
  | module m =>
    unfold Loader.function? at hf
    dsimp only at hf
    split at hf
    · exact .inr ⟨m, hl, hf⟩
    · cases hf

theorem mem_union {names more : List String} {name : String} :
    name ∈ union names more ↔ name ∈ names ∨ name ∈ more := by
  unfold union
  induction more generalizing names with
  | nil => simp
  | cons first rest ih =>
    rw [List.foldl_cons, ih]
    by_cases h : first ∈ names
    · rw [if_pos (List.contains_iff_mem.2 h), List.mem_cons]
      constructor
      · exact Or.imp_right Or.inr
      · rintro (hn | rfl | hn)
        · exact Or.inl hn
        · exact Or.inl h
        · exact Or.inr hn
    · rw [if_neg (mt List.contains_iff_mem.1 h), List.mem_append, List.mem_singleton,
        List.mem_cons, or_assoc]

/-- The names of a namespace are those of every loader that knows it. -/
theorem mem_names {s : LoaderStack} {space name : String} :
    name ∈ s.names space ↔ ∃ l ∈ s.loaders, l.has space ∧ name ∈ l.names space := by
  have fold : ∀ (loaders : List Loader) (names : List String),
      name ∈ loaders.foldl (fun names l => if l.has space then union names (l.names space) else names)
          names ↔ name ∈ names ∨ ∃ l ∈ loaders, l.has space ∧ name ∈ l.names space := by
    intro loaders
    induction loaders with
    | nil => simp
    | cons l rest ih =>
      intro names
      rw [List.foldl_cons, ih]
      by_cases h : l.has space
      · simp [h, mem_union, or_assoc]
      · simp [h]
  rw [LoaderStack.names, fold]
  simp

/-- Loaders that list their functions list them together. -/
theorem mem_names_of_function? {s : LoaderStack} (hs : ∀ l ∈ s.loaders, l.Lists)
    {space name : String} (h : (s.function? space name).isSome) : name ∈ s.names space := by
  rw [function?_eq, List.findSome?_isSome_iff] at h
  obtain ⟨l, hl, hf⟩ := h
  obtain ⟨f, hf'⟩ := Option.isSome_iff_exists.1 hf
  exact mem_names.2 ⟨l, hl, Loader.has_of_function? hf', hs l hl space name hf⟩

end LoaderStack

end Catena

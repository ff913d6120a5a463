import Catena.Proofs.Evaluation.Run
import Catena.Proofs.Loader

/-!
# What imports bind

An import fails for lack of its namespace exactly if no loader has the key
(`imported_unknownNamespace_iff`). Where it succeeds, the functions that the loaders serve under the
key lie over the bindings of one namespace (`overlaid`): of the current namespace, if every name is
taken (`get?_imported_star`), or of a namespace mounted in it (`imported_whole`).
-/

namespace Catena.Evaluation

/-- An import fails for lack of the namespace exactly if no loader has its key. -/
theorem imported_unknownNamespace_iff {s : Interpreter} {request : Import} {source : String} :
    imported s request = .error (.unknownNamespace source) ↔
      s.loaders.has request.loaderKey = false ∧ source = request.source := by
  constructor
  · intro h
    obtain ⟨hlacks, hsource⟩ | ⟨-, hmount⟩ | ⟨-, -, target, -, -, hpublic⟩ := imported_error_cases h
    · cases hsource
      exact ⟨hlacks, rfl⟩
    · cases Namespaces.mount_error hmount
    · cases hpublic
  · rintro ⟨hunknown, rfl⟩
    unfold imported
    dsimp only
    rw [if_pos (by simp [hunknown])]

/-! ## Binding functions -/

section Bind

variable (loaders : LoaderStack) (key : String)

/-- What a name stands for where the functions of `key` lie over the bindings of a namespace. -/
def overlaid (n : Namespace) (name : String) : Option Binding :=
  ((loaders.function? key name).map .function).or (n.get? name)

theorem get_bindFunctions_ne {space id : NamespaceId} (hid : id ≠ space)
    (names : List (String × String)) (spaces : Namespaces) :
    (bindFunctions loaders key space names spaces).get id = spaces.get id :=
  bindFunctions_preserves (P := fun ns => ns.get id = spaces.get id)
    (fun base _ _ _ _ h => (base.get_define_ne hid _ _ _).trans h) names rfl

theorem get?_bindFunctions {space : NamespaceId} (names : List String) {spaces : Namespaces}
    (hspace : space < spaces.spaces.size) (name : String) :
    ((bindFunctions loaders key space (names.map fun n => (n, n)) spaces).get space).get? name =
      if name ∈ names then overlaid loaders key (spaces.get space) name
      else (spaces.get space).get? name := by
  unfold overlaid
  induction names generalizing spaces with
  | nil => rfl
  | cons first rest ih =>
    rw [List.map_cons, bindFunctions_cons]
    cases hf : loaders.function? key first with
    | none =>
      rw [ih hspace]
      by_cases h : name = first
      · subst h
        simp [hf]
      · simp [h]
    | some f =>
      have hspace' : space < (spaces.define space first (.function f) false).spaces.size := by
        rw [Namespaces.size_define]
        exact hspace
      rw [ih hspace', spaces.get_define_self hspace, Namespace.get?_define]
      by_cases h : name = first
      · subst h
        simp [hf]
      · simp [h]

/-- Binding every name that the loaders list binds everything that they serve. -/
theorem get?_bindFunctions_names {space : NamespaceId} {spaces : Namespaces}
    (hlists : ∀ l ∈ loaders.loaders, l.Lists) (hspace : space < spaces.spaces.size)
    (name : String) :
    ((bindFunctions loaders key space ((loaders.names key).map fun n => (n, n)) spaces).get
      space).get? name = overlaid loaders key (spaces.get space) name := by
  rw [get?_bindFunctions loaders key _ hspace]
  split
  · rfl
  · next hname =>
    have none : loaders.function? key name = none := by
      rw [← Option.not_isSome_iff_eq_none]
      exact mt (LoaderStack.mem_names_of_function? hlists) hname
    simp [overlaid, none]

end Bind

/-! ## Imports -/

section Import

variable {s : Interpreter} {request : Import} {spaces : Namespaces}

theorem has_of_imported (h : imported s request = .ok spaces) :
    s.loaders.has request.loaderKey = true :=
  (imported_cases h).1

theorem nested_imported (hcurrent : s.current < s.spaces.spaces.size) (hs : s.spaces.Nested)
    (h : imported s request = .ok spaces) : spaces.Nested :=
  imported_preserves h hs (fun _ _ hmount => (hs.mount hcurrent hmount).1)
    fun base space _ name f _ hbase => (base.grows_define_function space name f false).nested hbase

/-- An import of single names or of all of them: the names that it selects are public, and it binds what
it admits in the current namespace. -/
theorem imported_part (h : imported s request = .ok spaces) (hwhole : request.isWhole = false) :
    (request.isStar = false → ∀ target ∈ request.targets,
      target ∈ s.loaders.names request.loaderKey) ∧
    spaces = bindFunctions s.loaders request.loaderKey s.current
      (((s.loaders.names request.loaderKey).filter request.admits).map fun name =>
        (name, request.rename.getD name)) s.spaces := by
  obtain ⟨-, ⟨hnot, -⟩ | ⟨-, hpart⟩⟩ := imported_cases h
  · cases hnot.symm.trans hwhole
  · exact hpart

theorem not_isWhole_of_isStar (hstar : request.isStar = true) : request.isWhole = false := by
  rw [Import.isWhole, eq_of_beq hstar]
  rfl

/-- A star import puts what is served over the bindings of the current namespace. -/
theorem get?_imported_star (hstar : request.isStar) (hrename : request.rename = none)
    (hlists : ∀ l ∈ s.loaders.loaders, l.Lists) (hcurrent : s.current < s.spaces.spaces.size)
    (h : imported s request = .ok spaces) (name : String) :
    (spaces.get s.current).get? name =
      overlaid s.loaders request.loaderKey (s.spaces.get s.current) name := by
  have hadmits : (s.loaders.names request.loaderKey).filter request.admits =
      s.loaders.names request.loaderKey := by
    refine List.filter_eq_self.2 fun name _ => ?_
    rw [Import.admits, hstar]
    rfl
  rw [(imported_part h (not_isWhole_of_isStar hstar)).2, hadmits, hrename]
  exact get?_bindFunctions_names _ _ hlists hcurrent name

/-- A whole import puts what is served over the bindings of the namespace that it mounts. -/
theorem imported_whole (hwhole : request.isWhole) (hlists : ∀ l ∈ s.loaders.loaders, l.Lists)
    (hcurrent : s.current < s.spaces.spaces.size) (hs : s.spaces.Nested)
    (h : imported s request = .ok spaces) :
    ∃ child, (spaces.get s.current).get? request.mountName = some (.child child) ∧
      ∀ name, (spaces.get child).get? name =
        overlaid s.loaders request.loaderKey (s.spaces.get child) name := by
  obtain ⟨-, ⟨-, child, base, hmount, rfl⟩ | ⟨hnot, -⟩⟩ := imported_cases h
  · obtain ⟨hnested, hchild⟩ := hs.mount hcurrent hmount
    obtain ⟨hbelow, hmade⟩ := hnested _ _ _ hchild
    refine ⟨child, ?_, fun name => ?_⟩
    · rw [get_bindFunctions_ne _ _ (Nat.ne_of_lt hbelow)]
      exact hchild
    · rw [get?_bindFunctions_names _ _ hlists hmade]
      -- mounting touches the namespace that is mounted in, not the one that is mounted
      have same : base.get child = s.spaces.get child := by
        rcases Namespaces.mount_cases hmount with ⟨-, rfl⟩ | ⟨-, -, rfl⟩
        · rfl
        · rw [Namespaces.get_define_ne _ (Nat.ne_of_gt hbelow), Namespaces.get_fresh]
      rw [same]
  · cases hnot.symm.trans hwhole

end Import

end Catena.Evaluation

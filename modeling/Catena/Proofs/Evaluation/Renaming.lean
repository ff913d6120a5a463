import Catena.Proofs.Evaluation.Stock
import Catena.Proofs.Evaluation.Translation
import Catena.Proofs.Scope.Renaming

/-!
# Renaming a local changes nothing

Renaming a local of one function is an exchange of two names that leaves alone whatever has no mark of
locals in it. So a program and the renamed program are like code under this exchange (`exchanging`), and
do the same (`interpret_renameLocal`). It holds for programs of one file that import native functions
only: no names but words are taken from outside.
-/

namespace Catena

open Catena.Action Catena.Eval

/-- An error without the words of the program in it. -/
def RuntimeError.wordless : RuntimeError → RuntimeError
  | .shape e => .shape { e with lexeme := "" }
  | .unknownIdentifier _ => .unknownIdentifier ""
  | e => e

namespace Evaluation

/-! ## Native functions only -/

/-- The words of the native functions are without the mark of locals. -/
theorem unmarked_natives :
    ∀ native ∈ Native.all, '$' ∉ native.entry.home.toList ∧ '$' ∉ native.entry.name.toList := by
  decide

theorem unmarked_of_mem_names {loaders : LoaderStack} (h : loaders.loaders = [.natives])
    {key name : String} (hname : name ∈ loaders.names key) : '$' ∉ name.toList := by
  obtain ⟨l, hl, -, hmem⟩ := LoaderStack.mem_names.1 hname
  rw [h] at hl
  cases List.mem_singleton.1 hl
  obtain ⟨native, hnative, rfl⟩ := List.mem_map.1 hmem
  exact (unmarked_natives native (List.mem_filter.1 hnative).1).2

theorem unmarked_of_has {loaders : LoaderStack} (h : loaders.loaders = [.natives])
    {request : Import} (hkey : loaders.has request.loaderKey = true) :
    '$' ∉ request.mountName.toList := by
  have hnatives : Loader.natives.has request.loaderKey = true := by
    unfold LoaderStack.has at hkey
    rwa [h, List.any_cons, List.any_nil, Bool.or_false] at hkey
  have hbare : ¬hasEnding sourceExtension request.loaderKey := by
    intro hending
    rw [Loader.not_has_natives hending] at hnatives
    cases hnatives
  have hmembers : Native.members request.loaderKey ≠ [] := by simpa [Loader.has] using hnatives
  obtain ⟨native, hnative⟩ := List.exists_mem_of_ne_nil _ hmembers
  obtain ⟨hall, hhome⟩ := List.mem_filter.1 hnative
  unfold Import.mountName dropEnding
  rw [if_neg hbare, ← eq_of_beq hhome]
  exact (unmarked_natives native hall).1

/-! ## Two runs -/

/-- Runs that are the same but for names, which `σ` exchanges, and for the words and the positions
of errors. Both have the native functions only to import. -/
def exchanging {R : Position → Position → Prop} (hR : R .synthetic .synthetic)
    {σ : Equiv.Perm String} (hσ : ∀ name, '$' ∉ name.toList → σ name = name) (t t' : ScopeTable) :
    Translation where
  marks := { tag := fun id id' => id' = id, position := R, word := fun _ _ => True }
  supply n n' := n' = n
  error e e' := e'.wordless = e.wordless
  rename := σ
  table := t
  table' := t'
  drawn _ _ := True
  node := Node.Unmarked
  stock loaders := loaders.loaders = [.natives]
  position_synthetic := hR
  word_refl _ := trivial
  tag_of_supply h := h
  supply_succ h := congrArg (· + 1) h
  error_refl _ := rfl
  error_shape _ _ _ := rfl
  error_unknown _ := rfl
  node_literal _ _ := ⟨trivial, trivial, trivial⟩
  node_array _ _ := ⟨trivial, trivial, trivial⟩
  node_sequence _ _ _ := ⟨trivial, trivial, trivial⟩
  definition h := hσ _ h.named
  member h := hσ _ (h.spelled _ rfl)
  importing h _ hstock :=
    ⟨fun name hname => hσ name (h.spelled name hname),
      fun name hname => hσ name (unmarked_of_mem_names hstock hname),
      fun hhas => hσ _ (unmarked_of_has hstock hhas)⟩
  program h := h.read.elim

/-- Programs that are the same but for names do the same from a fresh state. -/
theorem outcomes_interpret {T : Translation} {p p' : Program NodeId}
    (hroot : p.info.isRoot = true) (hinfo : p'.info = p.info) (hcode : T.Codes p.nodes p'.nodes)
    {s : Interpreter} (hs : Fresh s) (hstock : T.stock s.loaders)
    (hsupply : T.supply s.nextId s.nextId) (fuel : Nat) :
    T.correspondence.Outcomes (Option.Rel T.correspondence.Values)
      ((interpret fuel T.table p).run s) ((interpret fuel T.table' p').run s) := by
  have hspaces : s.spaces.Alike T.rename T.marks.tag T.Codes s.spaces := by
    refine ⟨rfl, fun id => ?_⟩
    rw [hs.get_eq]
    exact .empty
  have hloaders : List.Forall₂ (Loader.Alike T.marks.tag T.Codes) s.loaders.loaders
      s.loaders.loaders := by
    rw [hs.loaders]
    exact .cons .natives .nil
  have hscopes : ∀ table : ScopeTable, s.scopes.extend table = table := by
    intro table
    rw [hs.scopes]
    exact congrArg ScopeTable.mk (List.append_nil table.names)
  have hstart : T.correspondence.States { s with scopes := s.scopes.extend T.table, depth := 0 }
      { s with scopes := s.scopes.extend T.table', depth := 0 } := by
    refine ⟨?_, rfl, rfl, hsupply, ?_⟩
    · show List.Forall₂ _ s.stack.items s.stack.items
      rw [hs.stack]
      exact .nil
    · exact
        { current := rfl
          file := rfl
          spaces := hspaces
          stock := hstock
          loaders := hloaders
          scopes := hscopes T.table
          scopes' := hscopes T.table'
          depth := rfl
          maxDepth := rfl }
  have hpairs := Correspondence.Pairs.bind (Translation.pairs_runProgram
    (Translation.pairs_run fuel hcode) fun hmodule => by rw [hroot] at hmodule; cases hmodule)
    fun _ _ _ => Translation.pairs_top
  unfold interpret
  rw [hinfo]
  exact hpairs _ _ hstart

/-! ## Renaming a local -/

/-- A program of one file: a text that was read, to be run in the current namespace. -/
structure Standalone (p : Program NodeId) : Prop where
  root : p.info.isRoot = true
  read : ∃ name source q n, Tree.ofSource name source = .ok q ∧ p.nodes = (q.number n).1.nodes

/-- Runs of two programs in which the locals `x` and `y` of `f` are exchanged, and nothing else but
the words of errors and their positions, which `R` compares. -/
def exchangingLocals {R : Position → Position → Prop} (hR : R .synthetic .synthetic)
    (f x y : String) (p p' : Program NodeId) : Correspondence :=
  (exchanging hR (σ := Scope.exchange f x y)
    (fun _ hword => Scope.exchange_of_unmarked hword f x y) (Scope.analyse p).table
    (Scope.analyse p').table).correspondence

/-- **Renaming a local changes nothing but the words of errors.** The program passes and its functions
have different names; `y` does not occur in the body of the function whose local `x` is renamed. Then
the renamed program passes too, and from a fresh state, with any fuel, it ends in the same way: with
the same streams, random numbers and values, but for the name of the local in sequences. An error is
the same but for the words in it, and so are the places that it names, if the tokens are where they
were. -/
theorem interpret_renameLocal {R : Position → Position → Prop} (hR : R .synthetic .synthetic)
    {p p' : Program NodeId} (hp : Standalone p) (hpass : (Scope.analyse p).failed = false)
    (hnames : (Scope.functionNames p.nodes).Nodup) {m : Mark NodeId} {signature : Signature}
    {body : Code} (hfunction : .definition m signature body ∈ Node.spreadAll p.nodes)
    {x y : String} (hfree : ∀ n ∈ Node.spreadAll body, n.name? ≠ some y)
    (hinfo : p'.info = p.info)
    (hrenamed : List.Forall₂ (Node.Alike R Scope.SameName)
      (Node.renameLocalAll signature.name x y p.nodes) p'.nodes) :
    (Scope.analyse p').failed = false ∧
      ∀ s, Fresh s → ∀ fuel, (exchangingLocals hR signature.name x y p p').Outcomes
        (Option.Rel (exchangingLocals hR signature.name x y p p').Values)
        ((interpret fuel (Scope.analyse p).table p).run s)
        ((interpret fuel (Scope.analyse p').table p').run s) := by
  obtain ⟨name, source, q, n, hread, hnodes⟩ := hp.read
  have hwords : Node.AllIn Node.Unmarked p.nodes := by
    rw [hnodes]
    exact Scope.allIn_unmarked_of_ofSource hread n
  have hunnested : Scope.Unnested p.nodes :=
    (Scope.errors_eq_nil_iff p.nodes).1 (Scope.failed_eq_false_iff_nil.1 hpass).1
  have hf : '$' ∉ signature.name.toList := (Scope.all_of_mem_spreadAll hwords hfunction).1.named
  obtain ⟨hpass', halike⟩ := Scope.analyse_renameLocal hf hwords
    (Scope.renamable_of_nodup hunnested hnames hfunction hfree) hpass hrenamed
  refine ⟨hpass', fun s hs fuel => ?_⟩
  refine outcomes_interpret hp.root hinfo ⟨?_, hwords⟩ hs (by rw [hs.loaders]; rfl) rfl fuel
  refine Node.Like.monoAll (.refl _) (fun id id' name name' htag hname => ?_) halike
  obtain rfl : id' = id := htag
  exact ⟨trivial, trivial, hname⟩

/-- A function whose local is used in a sequence that leaves it. -/
def escaping : String :=
  "def f { let x { x } } true f"

/-- Whether some code defines a function `f` in whose body the name `y` does not occur. -/
def offers (f y : String) (code : Code) : Bool :=
  (Node.spreadAll code).any fun n =>
    match n with
    | .definition _ signature body =>
      signature.name == f && (Node.spreadAll body).all fun n => n.name? != some y
    | _ => false

theorem exists_of_offers {f y : String} {code : Code} (h : offers f y code = true) :
    ∃ m signature body, .definition m signature body ∈ Node.spreadAll code ∧
      signature.name = f ∧ ∀ n ∈ Node.spreadAll body, n.name? ≠ some y := by
  obtain ⟨node, hnode, h⟩ := List.any_eq_true.1 h
  cases node with
  | definition m signature body =>
    simp only [Bool.and_eq_true, beq_iff_eq, List.all_eq_true, bne_iff_ne] at h
    exact ⟨m, signature, body, hnode, h⟩
  | _ => cases h

/-- Whether a text is a program that passes, with the one function `f`, whose local `x` can be called
`y`; the names of the renamed program are then resolved as given. -/
def renamesTo (source f x y : String) (names : List String) : Bool :=
  match Tree.ofSource "main" source with
  | .error _ => false
  | .ok q =>
    let p := (q.number 1).1
    let p' := { p with nodes := Node.renameLocalAll f x y p.nodes }
    !(Scope.analyse p).failed && p.info.isRoot && Scope.functionNames p.nodes == [f] &&
      offers f y p.nodes &&
      ((Scope.occurrencesAll p'.nodes).map fun o =>
        (Scope.analyse p').table.nameOf o.id o.written) == names

theorem interpret_renameLocal_escaping : ∃ q p p',
    Tree.ofSource "main" escaping = .ok q ∧ p = (q.number 1).1 ∧
    p' = { p with nodes := Node.renameLocalAll "f" "x" "y" p.nodes } ∧
    ((Scope.occurrencesAll p'.nodes).map fun o => (Scope.analyse p').table.nameOf o.id o.written) =
      ["f$y", "f$y", "f"] ∧
    (Scope.analyse p').failed = false ∧
    ∀ console fuel, (exchangingLocals (R := Eq) rfl "f" "x" "y" p p').Outcomes
      (Option.Rel (exchangingLocals (R := Eq) rfl "f" "x" "y" p p').Values)
      ((interpret fuel (Scope.analyse p).table p).run (.withNatives console))
      ((interpret fuel (Scope.analyse p').table p').run (.withNatives console)) := by
  have hcheck : renamesTo escaping "f" "x" "y" ["f$y", "f$y", "f"] = true := by decide +kernel
  unfold renamesTo at hcheck
  cases hread : Tree.ofSource "main" escaping with
  | error errors => rw [hread] at hcheck; cases hcheck
  | ok q =>
    rw [hread] at hcheck
    simp only [Bool.and_eq_true, Bool.not_eq_true', beq_iff_eq] at hcheck
    obtain ⟨⟨⟨⟨hpass, hroot⟩, hnames⟩, hoffers⟩, hresolved⟩ := hcheck
    obtain ⟨m, signature, body, hfunction, hname, hfree⟩ := exists_of_offers hoffers
    let p := (q.number 1).1
    let p' : Program NodeId := { p with nodes := Node.renameLocalAll "f" "x" "y" p.nodes }
    have hinfo : p'.info = p.info := rfl
    have hnodup : (Scope.functionNames p.nodes).Nodup := by
      rw [hnames]
      decide
    have hrenamed : List.Forall₂ (Node.Alike Eq Scope.SameName)
        (Node.renameLocalAll signature.name "x" "y" p.nodes) p'.nodes := by
      rw [hname]
      exact Node.Alike.reflAll Scope.SameName.refl _
    have h := interpret_renameLocal rfl ⟨hroot, "main", escaping, q, 1, hread, rfl⟩ hpass hnodup
      hfunction hfree hinfo hrenamed
    rw [hname] at h
    exact ⟨q, p, p', rfl, rfl, rfl, hresolved, h.1, fun console => h.2 _ (.withNatives console)⟩

end Evaluation

end Catena

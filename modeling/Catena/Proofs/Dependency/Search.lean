import Catena.Dependency.Search
import Catena.Proofs.Dependency
import Catena.Proofs.Namespace
import Mathlib.Data.Finset.Card
import Mathlib.Data.Finset.Range

/-!
# The search finds the circles

While a search goes on (`Search.Sound`), every finished file is accessible: no endless way, and so no
circle, starts at it. The files in progress lie on a way to the file that is searched, so that coming
back to one of them closes a circle. A search that comes to its end leaves every file finished
(`SearchGraph.search_numbered`).

The marks that a search leaves matter to no later one, since they are taken off, and the numbers of the
files stand for their names (`SearchGraph.Records`). So the answer depends on the recorded imports
alone: there is a circle if the root is imported, or if the imports have one (`search_iff`).
-/

namespace Catena

open Relation

namespace Search

/-- The mark of a file. -/
def progressAt (nodes : Array SearchNode) (i : Nat) : Progress :=
  (nodeAt nodes i).progress

@[simp] theorem size_marked (nodes : Array SearchNode) (i : Nat) (p : Progress) :
    (marked i p nodes).size = nodes.size :=
  Array.size_modify

theorem nodeAt_modify (nodes : Array SearchNode) (f : SearchNode → SearchNode) {i : Nat}
    (hi : i < nodes.size) (j : Nat) :
    nodeAt (nodes.modify i f) j = if j = i then f (nodeAt nodes j) else nodeAt nodes j := by
  unfold nodeAt
  by_cases h : j = i
  · subst h
    simp [Array.getD, hi, Array.getElem_modify]
  · by_cases hj : j < nodes.size
    · simp [Array.getD, hj, Array.getElem_modify, h, Ne.symm h]
    · simp [Array.getD, hj, h]

theorem imports_marked (nodes : Array SearchNode) {i : Nat} (hi : i < nodes.size) (p : Progress)
    (j : Nat) : (nodeAt (marked i p nodes) j).imports = (nodeAt nodes j).imports := by
  unfold marked
  rw [nodeAt_modify nodes _ hi]
  split <;> rfl

theorem progressAt_marked (nodes : Array SearchNode) {i : Nat} (hi : i < nodes.size) (p : Progress)
    (j : Nat) : progressAt (marked i p nodes) j = if j = i then p else progressAt nodes j := by
  unfold progressAt marked
  rw [nodeAt_modify nodes _ hi]
  split <;> rfl

/-! ## What a search keeps -/

section Edges

variable {edges : Nat → List Nat} {nodes nodes' nodes'' : Array SearchNode} {i : Nat}

/-- A file imports another. -/
def Steps (edges : Nat → List Nat) (i j : Nat) : Prop :=
  j ∈ edges i

/-- The marked nodes of a graph with the given imports, none of which leads to a number that no file
has. -/
structure Over (edges : Nat → List Nat) (nodes : Array SearchNode) : Prop where
  imports : ∀ i, (nodeAt nodes i).imports = edges i
  bounded : ∀ i, ∀ j ∈ edges i, j < nodes.size

/-- No endless way starts at a finished file. -/
structure Sound (edges : Nat → List Nat) (nodes : Array SearchNode) : Prop extends
    Over edges nodes where
  finished : ∀ i, progressAt nodes i = .finished → Acc (fun j i => Steps edges i j) i

/-- What a search that comes to its end does to the marks: what was in progress still is and nothing
else, and what was finished still is. -/
structure Advanced (nodes nodes' : Array SearchNode) : Prop where
  size : nodes'.size = nodes.size
  inProgress : ∀ i, progressAt nodes' i = .inProgress ↔ progressAt nodes i = .inProgress
  finished : ∀ i, progressAt nodes i = .finished → progressAt nodes' i = .finished

theorem Advanced.refl (nodes : Array SearchNode) : Advanced nodes nodes :=
  ⟨rfl, fun _ => Iff.rfl, fun _ => id⟩

theorem Advanced.trans (h : Advanced nodes nodes') (k : Advanced nodes' nodes'') :
    Advanced nodes nodes'' :=
  ⟨k.size.trans h.size, fun i => (k.inProgress i).trans (h.inProgress i),
    fun i hi => k.finished i (h.finished i hi)⟩

/-- What has no mark afterwards had none before. -/
theorem Advanced.unmarked (h : Advanced nodes nodes') (hi : progressAt nodes' i = .unmarked) :
    progressAt nodes i = .unmarked := by
  cases hp : progressAt nodes i with
  | unmarked => rfl
  | inProgress =>
    rw [(h.inProgress i).2 hp] at hi
    cases hi
  | finished =>
    rw [h.finished i hp] at hi
    cases hi

/-- The files without a mark. -/
def unmarkedIn (nodes : Array SearchNode) : Finset Nat :=
  (Finset.range nodes.size).filter fun i => progressAt nodes i = .unmarked

theorem mem_unmarkedIn :
    i ∈ unmarkedIn nodes ↔ i < nodes.size ∧ progressAt nodes i = .unmarked := by
  simp [unmarkedIn]

theorem Advanced.card_le (h : Advanced nodes nodes') :
    (unmarkedIn nodes').card ≤ (unmarkedIn nodes).card := by
  refine Finset.card_le_card fun i hi => ?_
  rw [mem_unmarkedIn] at hi ⊢
  exact ⟨h.size ▸ hi.1, h.unmarked hi.2⟩

theorem card_marked_lt (hi : i < nodes.size) (hunmarked : progressAt nodes i = .unmarked) :
    (unmarkedIn (marked i .inProgress nodes)).card < (unmarkedIn nodes).card := by
  refine Finset.card_lt_card (Finset.ssubset_iff_of_subset ?_ |>.2 ?_)
  · intro j hj
    rw [mem_unmarkedIn, progressAt_marked nodes hi, size_marked] at hj
    split at hj
    · cases hj.2
    · exact mem_unmarkedIn.2 hj
  · refine ⟨i, mem_unmarkedIn.2 ⟨hi, hunmarked⟩, fun h => ?_⟩
    rw [mem_unmarkedIn, progressAt_marked nodes hi, if_pos rfl] at h
    cases h.2

/-- A search ends with everything as it should be and `Q` of the marks, or because it has found a
circle; it does not run out of fuel. -/
def Finds (edges : Nat → List Nat) (nodes : Array SearchNode) (Q : Array SearchNode → Prop) :
    Outcome (Array SearchNode) SearchEnd Unit → Prop
  | .done _ nodes' => Sound edges nodes' ∧ Advanced nodes nodes' ∧ Q nodes'
  | .stopped .circle nodes' =>
    Over edges nodes' ∧ nodes'.size = nodes.size ∧ ∃ i, TransGen (Steps edges) i i
  | .stopped .exhausted _ => False

/-- Numbers one after the other: what is done with each may rely on what was done before it. -/
theorem finds_each {f : Nat → Search Unit} (is : List Nat) (hnodes : Sound edges nodes)
    (hf : ∀ i ∈ is, ∀ nodes', Sound edges nodes' → Advanced nodes nodes' →
      Finds edges nodes' (progressAt · i = .finished) ((f i).run nodes')) :
    Finds edges nodes (fun nodes' => ∀ i ∈ is, progressAt nodes' i = .finished)
      ((each f is).run nodes) := by
  induction is generalizing nodes with
  | nil => exact ⟨hnodes, .refl nodes, by simp⟩
  | cons i rest ih =>
    obtain ⟨hhere, hrest⟩ := List.forall_mem_cons.1 hf
    have hfirst := hhere nodes hnodes (.refl nodes)
    rw [each, Action.run_bind]
    cases hrun : (f i).run nodes with
    | stopped reason nodes' =>
      rw [hrun] at hfirst
      cases reason with
      | circle => exact hfirst
      | exhausted => exact hfirst
    | done a nodes' =>
      rw [hrun] at hfirst
      obtain ⟨hnodes', hadvanced, hfinished⟩ := hfirst
      have hothers := ih hnodes' fun j hj nodes'' hnodes'' hlater =>
        hrest j hj nodes'' hnodes'' (hadvanced.trans hlater)
      dsimp only
      cases hrun' : (each f rest).run nodes' with
      | stopped reason nodes'' =>
        rw [hrun'] at hothers
        cases reason with
        | circle => exact ⟨hothers.1, hothers.2.1.trans hadvanced.size, hothers.2.2⟩
        | exhausted => exact hothers
      | done b nodes'' =>
        rw [hrun'] at hothers
        obtain ⟨hnodes'', hlater, hall⟩ := hothers
        exact ⟨hnodes'', hadvanced.trans hlater,
          List.forall_mem_cons.2 ⟨hlater.finished i hfinished, hall⟩⟩

/-- A file that had no mark is put in progress. -/
theorem Sound.marked_inProgress (h : Sound edges nodes) (hi : i < nodes.size) :
    Sound edges (marked i .inProgress nodes) where
  imports j := (imports_marked nodes hi _ j).trans (h.imports j)
  bounded j k hk := by
    rw [size_marked]
    exact h.bounded j k hk
  finished j hj := by
    rw [progressAt_marked nodes hi] at hj
    split at hj
    · cases hj
    · exact h.finished j hj

/-- A file is finished once everything that it imports is. -/
theorem Sound.marked_finished (h : Sound edges nodes) (hi : i < nodes.size)
    (hall : ∀ j ∈ edges i, progressAt nodes j = .finished) :
    Sound edges (marked i .finished nodes) where
  imports j := (imports_marked nodes hi _ j).trans (h.imports j)
  bounded j k hk := by
    rw [size_marked]
    exact h.bounded j k hk
  finished j hj := by
    rw [progressAt_marked nodes hi] at hj
    split at hj
    · next hji =>
      subst hji
      exact Acc.intro _ fun k hk => h.finished k (hall k hk)
    · exact h.finished j hj

/-- What has become of the marks when a file that had none is finished. -/
theorem Advanced.around (hi : i < nodes.size) (hunmarked : progressAt nodes i = .unmarked)
    (h : Advanced (marked i .inProgress nodes) nodes') :
    Advanced nodes (marked i .finished nodes') := by
  have hsize : nodes'.size = nodes.size := by rw [h.size, size_marked]
  have hi' : i < nodes'.size := hsize ▸ hi
  refine ⟨by rw [size_marked, hsize], fun j => ?_, fun j hj => ?_⟩
  · rw [progressAt_marked nodes' hi']
    by_cases hji : j = i
    · rw [if_pos hji, hji, hunmarked]
      simp
    · rw [if_neg hji, h.inProgress, progressAt_marked nodes hi, if_neg hji]
  · rw [progressAt_marked nodes' hi']
    by_cases hji : j = i
    · rw [if_pos hji]
    · rw [if_neg hji]
      refine h.finished j ?_
      rw [progressAt_marked nodes hi, if_neg hji]
      exact hj

/-- **Searching a file finishes it or finds a circle**, if the files in progress lead to it and there
is fuel for those without a mark. -/
theorem finds_visit (fuel : Nat) (hnodes : Sound edges nodes) (hi : i < nodes.size)
    (hway : ∀ j, progressAt nodes j = .inProgress → TransGen (Steps edges) j i)
    (hfuel : (unmarkedIn nodes).card < fuel) :
    Finds edges nodes (progressAt · i = .finished) ((visit fuel i).run nodes) := by
  induction fuel generalizing nodes i with
  | zero => exact absurd hfuel (Nat.not_lt_zero _)
  | succ fuel ih =>
    rw [visit, Action.run_bind, Action.run_state]
    dsimp only
    have hprogress : (nodeAt nodes i).progress = progressAt nodes i := rfl
    rw [hprogress]
    cases hp : progressAt nodes i with
    | finished => exact ⟨hnodes, .refl nodes, hp⟩
    | inProgress => exact ⟨hnodes.toOver, rfl, i, hway i hp⟩
    | unmarked =>
      dsimp only
      rw [Action.run_bind, Action.run_change]
      dsimp only
      have hbelow := finds_each (f := visit fuel) (nodeAt nodes i).imports
        (hnodes.marked_inProgress hi) fun j hj nodes' hnodes' hadvanced => by
          rw [hnodes.imports] at hj
          refine ih hnodes' ?_ (fun k hk => ?_) ?_
          · rw [hadvanced.size, size_marked]
            exact hnodes.bounded i j hj
          · rw [hadvanced.inProgress, progressAt_marked nodes hi] at hk
            split at hk
            · next hki => exact hki ▸ TransGen.single hj
            · exact (hway k hk).tail hj
          · have := hadvanced.card_le
            have := card_marked_lt hi hp
            omega
      rw [Action.run_bind]
      cases hrun : (each (visit fuel) (nodeAt nodes i).imports).run (marked i .inProgress nodes) with
      | stopped reason nodes' =>
        rw [hrun] at hbelow
        cases reason with
        | circle => exact ⟨hbelow.1, by rw [hbelow.2.1, size_marked], hbelow.2.2⟩
        | exhausted => exact hbelow
      | done a nodes' =>
        rw [hrun] at hbelow
        obtain ⟨hnodes', hadvanced, hall⟩ := hbelow
        rw [hnodes.imports] at hall
        have hi' : i < nodes'.size := by
          rw [hadvanced.size, size_marked]
          exact hi
        refine ⟨hnodes'.marked_finished hi' hall, hadvanced.around hi hp, ?_⟩
        show progressAt (marked i .finished nodes') i = .finished
        rw [progressAt_marked nodes' hi', if_pos rfl]

theorem finds_visitUnmarked {fuel : Nat} (hnodes : Sound edges nodes) (hi : i < nodes.size)
    (hnone : ∀ j, progressAt nodes j ≠ .inProgress) (hfuel : nodes.size < fuel) :
    Finds edges nodes (progressAt · i = .finished) ((visitUnmarked fuel i).run nodes) := by
  have hcard : (unmarkedIn nodes).card < fuel := by
    have := Finset.card_filter_le (Finset.range nodes.size) fun i => progressAt nodes i = .unmarked
    rw [Finset.card_range] at this
    exact Nat.lt_of_le_of_lt this hfuel
  rw [visitUnmarked, Action.run_bind, Action.run_state]
  dsimp only
  change Finds edges nodes _ (Action.run (if progressAt nodes i = .unmarked then _ else _) nodes)
  cases hp : progressAt nodes i with
  | unmarked =>
    rw [if_pos rfl]
    exact finds_visit fuel hnodes hi (fun j hj => absurd hj (hnone j)) hcard
  | inProgress => exact absurd hp (hnone i)
  | finished =>
    rw [if_neg (by simp)]
    exact ⟨hnodes, .refl nodes, hp⟩

/-! ## A whole search -/

theorem nodeAt_unmark (nodes : Array SearchNode) (i : Nat) :
    nodeAt (unmark nodes) i = { nodeAt nodes i with progress := .unmarked } := by
  unfold nodeAt unmark
  by_cases h : i < nodes.size
  · simp [Array.getD, h]
  · simp [Array.getD, h]

theorem size_unmark (nodes : Array SearchNode) : (unmark nodes).size = nodes.size :=
  Array.size_map

theorem progressAt_unmark (nodes : Array SearchNode) (i : Nat) :
    progressAt (unmark nodes) i = .unmarked := by
  rw [progressAt, nodeAt_unmark]

theorem sound_unmark (h : Over edges nodes) : Sound edges (unmark nodes) where
  imports j := by rw [nodeAt_unmark, ← h.imports]
  bounded j k hk := by
    rw [size_unmark]
    exact h.bounded j k hk
  finished j hj := by
    rw [progressAt_unmark] at hj
    cases hj

/-- No circle goes through a file that no endless way starts at. -/
theorem not_circle_of_acc (h : Acc (fun j i => Steps edges i j) i) :
    ¬TransGen (Steps edges) i i := by
  induction h with
  | intro i _ ih =>
    intro hcircle
    obtain ⟨j, hij, hji⟩ := TransGen.head'_iff.1 hcircle
    exact ih j hij (TransGen.tail' hji hij)

/-- **A search of all files gives the right answer**, whatever marks there were before. -/
theorem finds_all (h : Over edges nodes) {fuel : Nat} (hfuel : nodes.size < fuel) :
    Finds edges (unmark nodes) (fun _ => ¬∃ i, TransGen (Steps edges) i i)
      ((each (visitUnmarked fuel) (List.range nodes.size)).run (unmark nodes)) := by
  have heach := finds_each (f := visitUnmarked fuel) (List.range nodes.size) (sound_unmark h)
    fun i hi nodes' hnodes' hadvanced => by
      have hsize : nodes'.size = nodes.size := by rw [hadvanced.size, size_unmark]
      refine finds_visitUnmarked hnodes' (hsize ▸ List.mem_range.1 hi) (fun j hj => ?_)
        (hsize ▸ hfuel)
      rw [hadvanced.inProgress, progressAt_unmark] at hj
      cases hj
  cases hrun : (each (visitUnmarked fuel) (List.range nodes.size)).run (unmark nodes) with
  | stopped reason nodes' =>
    rw [hrun] at heach
    cases reason with
    | circle => exact heach
    | exhausted => exact heach
  | done a nodes' =>
    rw [hrun] at heach
    obtain ⟨hnodes', hadvanced, hall⟩ := heach
    refine ⟨hnodes', hadvanced, ?_⟩
    rintro ⟨i, hcircle⟩
    obtain ⟨j, hij, -⟩ := TransGen.head'_iff.1 hcircle
    by_cases hi : i < nodes.size
    · exact not_circle_of_acc (hnodes'.finished i (hall i (List.mem_range.2 hi))) hcircle
    · -- a number that no file has leads nowhere
      have hnone : edges i = [] := by
        rw [← h.imports i]
        simp [nodeAt, Array.getD, hi]
      rw [Steps, hnone] at hij
      cases hij

end Edges

end Search

namespace SearchGraph

open Search DependencyGraph

/-! ## Numbers stand for names -/

/-- A name has a number. -/
def Numbers (g : SearchGraph) (name : String) (i : Nat) : Prop :=
  g.index.get? name = some i

/-- The numbers of a file's imports. -/
def importsOf (g : SearchGraph) (i : Nat) : List Nat :=
  (nodeAt g.nodes i).imports

/-- The graph holds what has been recorded: names are numbered apart from each other, and unless the
graph is closed the imports between numbers are those between names. -/
structure Records (root : String) (calls : List Dependency) (g : SearchGraph) : Prop where
  zero : g.Numbers root 0
  bounded : ∀ a i, g.Numbers a i → i < g.nodes.size
  apart : ∀ a b i, g.Numbers a i → g.Numbers b i → a = b
  closed_iff : g.closed = true ↔ ∃ a, Leads calls a root
  known : g.closed = false → ∀ a b, Leads calls a b → ∃ i j, g.Numbers a i ∧ g.Numbers b j
  imports : g.closed = false → ∀ i j, j ∈ g.importsOf i ↔
    ∃ a b, Leads calls a b ∧ g.Numbers a i ∧ g.Numbers b j

section Records

variable {root : String} {calls : List Dependency} {g : SearchGraph}

theorem Numbers.unique {name : String} {i j : Nat} (hi : g.Numbers name i) (hj : g.Numbers name j) :
    i = j :=
  Option.some.inj (hi.symm.trans hj)

theorem Records.over (h : Records root calls g) (hopen : g.closed = false) :
    Over g.importsOf g.nodes where
  imports _ := rfl
  bounded i j hj := by
    obtain ⟨a, b, -, -, hb⟩ := (h.imports hopen i j).1 hj
    exact h.bounded b j hb

/-- A way along numbers is a way along names. -/
theorem Records.transGen_leads (h : Records root calls g) (hopen : g.closed = false) {i j : Nat}
    (hij : TransGen (Steps g.importsOf) i j) :
    ∃ a b, g.Numbers a i ∧ g.Numbers b j ∧ TransGen (Leads calls) a b := by
  induction hij with
  | single hij =>
    obtain ⟨a, b, hab, ha, hb⟩ := (h.imports hopen _ _).1 hij
    exact ⟨a, b, ha, hb, .single hab⟩
  | tail _ hjk ih =>
    obtain ⟨a, b, ha, hb, hab⟩ := ih
    obtain ⟨b', c, hbc, hb', hc⟩ := (h.imports hopen _ _).1 hjk
    obtain rfl := h.apart _ _ _ hb hb'
    exact ⟨a, c, ha, hc, hab.tail hbc⟩

/-- A way along names is a way along numbers. -/
theorem Records.transGen_steps (h : Records root calls g) (hopen : g.closed = false) {a b : String}
    (hab : TransGen (Leads calls) a b) :
    ∃ i j, g.Numbers a i ∧ g.Numbers b j ∧ TransGen (Steps g.importsOf) i j := by
  induction hab with
  | single hab =>
    obtain ⟨i, j, hi, hj⟩ := h.known hopen _ _ hab
    exact ⟨i, j, hi, hj, .single ((h.imports hopen i j).2 ⟨_, _, hab, hi, hj⟩)⟩
  | tail _ hbc ih =>
    obtain ⟨i, j, hi, hj, hij⟩ := ih
    obtain ⟨j', k, hj', hk⟩ := h.known hopen _ _ hbc
    obtain rfl := hj.unique hj'
    exact ⟨i, k, hi, hk, hij.tail ((h.imports hopen j k).2 ⟨_, _, hbc, hj, hk⟩)⟩

/-- Numbers go in a circle exactly if names do. -/
theorem Records.circle_iff (h : Records root calls g) (hopen : g.closed = false) :
    (∃ i, TransGen (Steps g.importsOf) i i) ↔ Cyclic calls := by
  constructor
  · rintro ⟨i, hi⟩
    obtain ⟨a, b, ha, hb, hab⟩ := h.transGen_leads hopen hi
    obtain rfl := h.apart a b i ha hb
    exact ⟨a, hab⟩
  · rintro ⟨a, ha⟩
    obtain ⟨i, j, hi, hj, hij⟩ := h.transGen_steps hopen ha
    obtain rfl := hi.unique hj
    exact ⟨i, hij⟩

/-! ## What is recorded -/

theorem numbers_ofRoot {name : String} {i : Nat} :
    (ofRoot root).Numbers name i ↔ name = root ∧ i = 0 := by
  have hindex : (ofRoot root).index.get? name = if name == root then some 0 else none := by
    rw [show (ofRoot root).index = ({} : OrderedMap String Nat).insert root 0 from rfl,
      OrderedMap.get?_insert]
    rfl
  rw [Numbers, hindex]
  by_cases h : name = root
  · simp [h, eq_comm]
  · simp [h]

theorem records_ofRoot (root : String) : Records root [] (ofRoot root) where
  zero := numbers_ofRoot.2 ⟨rfl, rfl⟩
  bounded a i h := by
    rw [(numbers_ofRoot.1 h).2]
    exact Nat.one_pos
  apart a b i ha hb := (numbers_ofRoot.1 ha).1.trans (numbers_ofRoot.1 hb).1.symm
  closed_iff := ⟨nofun, fun ⟨_, h⟩ => nomatch h⟩
  known _ _ _ h := nomatch h
  imports _ i j := by
    have hnone : (ofRoot root).importsOf i = [] := by
      show (nodeAt #[{}] i).imports = []
      cases i <;> rfl
    rw [hnone]
    exact ⟨nofun, fun ⟨_, _, h, _⟩ => nomatch h⟩

/-- Numbering a name gives it a number and changes nothing else. -/
theorem Records.number (h : Records root calls g) (name : String) :
    Records root calls (g.number name).2 ∧ (g.number name).2.Numbers name (g.number name).1 ∧
      (g.number name).2.closed = g.closed ∧
      ∀ a i, g.Numbers a i → (g.number name).2.Numbers a i := by
  unfold SearchGraph.number
  cases hname : g.index.get? name with
  | some i => exact ⟨h, hname, rfl, fun _ _ => id⟩
  | none =>
    dsimp only
    set g' : SearchGraph :=
      { g with index := g.index.insert name g.nodes.size, nodes := g.nodes.push {} } with hg'
    have hnumbers : ∀ a i, g'.Numbers a i ↔ (a = name ∧ i = g.nodes.size) ∨ g.Numbers a i := by
      intro a i
      show (g.index.insert name g.nodes.size).get? a = some i ↔ _
      rw [OrderedMap.get?_insert, Numbers]
      by_cases ha : a = name
      · simp [ha, hname, eq_comm]
      · simp [ha]
    have hkept : ∀ a i, g.Numbers a i → g'.Numbers a i := fun a i hi => (hnumbers a i).2 (.inr hi)
    have himports : ∀ i, g'.importsOf i = g.importsOf i := by
      intro i
      show (nodeAt (g.nodes.push {}) i).imports = (nodeAt g.nodes i).imports
      unfold nodeAt
      by_cases hi : i < g.nodes.size
      · simp [Array.getD, hi, Nat.lt_succ_of_lt hi, Array.getElem_push]
      · by_cases hlast : i = g.nodes.size
        · simp [Array.getD, hlast]
        · have habove : ¬i < g.nodes.size + 1 := by omega
          simp [Array.getD, hi, habove]
    refine ⟨⟨hkept _ _ h.zero, fun a i hi => ?_, fun a b i ha hb => ?_, h.closed_iff,
      fun hopen a b hab => ?_, fun hopen i j => ?_⟩, (hnumbers _ _).2 (.inl ⟨rfl, rfl⟩), rfl, hkept⟩
    · rw [hg', Array.size_push]
      rcases (hnumbers a i).1 hi with ⟨-, rfl⟩ | hi
      · exact Nat.lt_succ_self _
      · exact Nat.lt_succ_of_lt (h.bounded a i hi)
    · rcases (hnumbers a i).1 ha with ⟨hnew, hi⟩ | hold
      · rcases (hnumbers b i).1 hb with ⟨hnew', -⟩ | hold'
        · exact hnew.trans hnew'.symm
        · exact absurd (hi ▸ h.bounded b i hold') (Nat.lt_irrefl _)
      · rcases (hnumbers b i).1 hb with ⟨-, hi⟩ | hold'
        · exact absurd (hi ▸ h.bounded a i hold) (Nat.lt_irrefl _)
        · exact h.apart a b i hold hold'
    · obtain ⟨i, j, hi, hj⟩ := h.known hopen a b hab
      exact ⟨i, j, hkept a i hi, hkept b j hj⟩
    · rw [himports, h.imports hopen]
      constructor
      · rintro ⟨a, b, hab, ha, hb⟩
        exact ⟨a, b, hab, hkept a i ha, hkept b j hb⟩
      · rintro ⟨a, b, hab, ha, hb⟩
        obtain ⟨i', j', hi', hj'⟩ := h.known hopen a b hab
        obtain rfl := ha.unique (hkept a i' hi')
        obtain rfl := hb.unique (hkept b j' hj')
        exact ⟨a, b, hab, hi', hj'⟩

/-- Once the root is imported, nothing but that matters. -/
theorem Records.close (h : Records root calls g) {calls' : List Dependency} {a : String}
    (ha : Leads calls' a root) : Records root calls' { g with closed := true } where
  zero := h.zero
  bounded := h.bounded
  apart := h.apart
  closed_iff := ⟨fun _ => ⟨a, ha⟩, fun _ => rfl⟩
  known := nofun
  imports := nofun

theorem leads_concat {file imported a b : String} :
    Leads (calls ++ [(file, imported)]) a b ↔ Leads calls a b ∨ (a = file ∧ b = imported) := by
  simp [Leads]

theorem importsOf_link (hi : i < g.nodes.size) (j k l : Nat) :
    l ∈ (g.link i j).importsOf k ↔ l ∈ g.importsOf k ∨ (k = i ∧ l = j) := by
  show l ∈ (nodeAt (g.nodes.modify i _) k).imports ↔ l ∈ (nodeAt g.nodes k).imports ∨ _
  rw [nodeAt_modify g.nodes _ hi]
  by_cases hk : k = i
  · simp [hk]
  · simp [hk]

/-- An import between numbered files is recorded between their numbers. -/
theorem Records.link (h : Records root calls g) (hopen : g.closed = false) {file imported : String}
    {i j : Nat} (hi : g.Numbers file i) (hj : g.Numbers imported j) (hj0 : j ≠ 0) :
    Records root (calls ++ [(file, imported)]) (g.link i j) where
  zero := h.zero
  bounded a k hk := by
    rw [SearchGraph.link, Array.size_modify]
    exact h.bounded a k hk
  apart := h.apart
  closed_iff := by
    refine h.closed_iff.trans (exists_congr fun a => ?_)
    rw [leads_concat, or_iff_left]
    rintro ⟨-, rfl⟩
    exact hj0 (hj.unique h.zero)
  known _ a b hab := by
    rcases leads_concat.1 hab with hold | ⟨rfl, rfl⟩
    · exact h.known hopen a b hold
    · exact ⟨i, j, hi, hj⟩
  imports _ k l := by
    rw [importsOf_link (h.bounded file i hi), h.imports hopen]
    constructor
    · rintro (⟨a, b, hab, ha, hb⟩ | ⟨rfl, rfl⟩)
      · exact ⟨a, b, leads_concat.2 (.inl hab), ha, hb⟩
      · exact ⟨file, imported, leads_concat.2 (.inr ⟨rfl, rfl⟩), hi, hj⟩
    · rintro ⟨a, b, hab, ha, hb⟩
      rcases leads_concat.1 hab with hold | ⟨rfl, rfl⟩
      · exact .inl ⟨a, b, hold, ha, hb⟩
      · exact .inr ⟨Numbers.unique ha hi, Numbers.unique hb hj⟩

/-- **What is added is recorded**, unless the graph is closed. -/
theorem Records.add (h : Records root calls g) (file imported : String) :
    Records root (calls ++ [(file, imported)]) (g.add file imported) := by
  unfold SearchGraph.add
  by_cases hclosed : g.closed = true
  · rw [if_pos hclosed]
    obtain ⟨a, ha⟩ := h.closed_iff.1 hclosed
    have hsame : { g with closed := true } = g := by rw [← hclosed]
    exact hsame ▸ h.close (leads_concat.2 (.inl ha))
  · rw [if_neg hclosed]
    obtain ⟨h₁, hfile, hclosed₁, -⟩ := h.number file
    obtain ⟨h₂, himported, hclosed₂, hkept⟩ := h₁.number imported
    have hopen : ((g.number file).2.number imported).2.closed = false := by
      rw [hclosed₂, hclosed₁]
      exact Bool.not_eq_true _ ▸ hclosed
    dsimp only
    split
    · next hzero =>
      -- only the root is number zero
      rw [hzero] at himported
      exact h₂.close (leads_concat.2 (.inr ⟨rfl, h₂.apart _ _ _ h₂.zero himported⟩))
    · next hzero => exact h₂.link hopen (hkept _ _ hfile) himported hzero

/-- **A search answers**, and leaves all that has been recorded. -/
theorem Records.search (h : Records root calls g) :
    Records root calls g.search.2 ∧ ∃ circular, g.search.1 = some circular ∧
      (circular = true ↔ (∃ a, Leads calls a root) ∨ Cyclic calls) := by
  unfold SearchGraph.search
  by_cases hclosed : g.closed = true
  · rw [if_pos hclosed]
    exact ⟨h, true, rfl, fun _ => .inl (h.closed_iff.1 hclosed), fun _ => rfl⟩
  · rw [if_neg hclosed]
    have hopen : g.closed = false := Bool.not_eq_true _ ▸ hclosed
    have hroot : ¬∃ a, Leads calls a root := fun ha => hclosed (h.closed_iff.2 ha)
    have hkeeps : ∀ nodes, Over g.importsOf nodes → nodes.size = g.nodes.size →
        Records root calls { g with nodes } := by
      intro nodes hover hsize
      refine ⟨h.zero, fun a i hi => ?_, h.apart, h.closed_iff, h.known, fun hopen i j => ?_⟩
      · rw [hsize]
        exact h.bounded a i hi
      · refine Iff.trans ?_ (h.imports hopen i j)
        show j ∈ (nodeAt nodes i).imports ↔ _
        rw [hover.imports]
    have hfinds := finds_all (h.over hopen) (Nat.lt_succ_self g.nodes.size)
    dsimp only
    cases hrun : (each (visitUnmarked (g.nodes.size + 1)) (List.range g.nodes.size)).run
        (unmark g.nodes) with
    | done a nodes =>
      rw [hrun] at hfinds
      obtain ⟨hsound, hadvanced, hnone⟩ := hfinds
      refine ⟨hkeeps nodes hsound.toOver (by rw [hadvanced.size, size_unmark]), false, rfl,
        fun hfalse => absurd hfalse Bool.false_ne_true, ?_⟩
      rintro (hleads | hcyclic)
      · exact absurd hleads hroot
      · exact absurd ((h.circle_iff hopen).2 hcyclic) hnone
    | stopped reason nodes =>
      rw [hrun] at hfinds
      cases reason with
      | exhausted => exact hfinds.elim
      | circle =>
        obtain ⟨hover, hsize, hcircle⟩ := hfinds
        exact ⟨hkeeps nodes hover (by rw [hsize, size_unmark]), true, rfl,
          fun _ => .inr ((h.circle_iff hopen).1 hcircle), fun _ => rfl⟩

end Records

/-! ## Any imports, any searches -/

/-- The graphs that come about from a root when imports are recorded in the given order, with any
number of searches before, between and after them. -/
inductive Arises (root : String) : List Dependency → SearchGraph → Prop
  | new : Arises root [] (ofRoot root)
  | added {calls : List Dependency} {g : SearchGraph} (h : Arises root calls g)
    (file imported : String) : Arises root (calls ++ [(file, imported)]) (g.add file imported)
  | searched {calls : List Dependency} {g : SearchGraph} (h : Arises root calls g) :
    Arises root calls g.search.2

theorem Arises.records {root : String} {calls : List Dependency} {g : SearchGraph}
    (h : Arises root calls g) : Records root calls g := by
  induction h with
  | new => exact records_ofRoot root
  | added _ file imported ih => exact ih.add file imported
  | searched _ ih => exact ih.search.1

end SearchGraph

namespace DependencyGraph

instance (edges : List Dependency) (a b : String) : Decidable (Leads edges a b) :=
  inferInstanceAs (Decidable ((a, b) ∈ edges))

/-- The graph of a root in which imports have been recorded in the given order. -/
def ofCalls (root : String) (calls : List Dependency) : DependencyGraph :=
  calls.foldl (fun g call => g.add call.1 call.2) { root }

/-- Every import that is recorded is one of a file that is reached from the root by those before. -/
inductive FromRoot (root : String) : List Dependency → Prop
  | nil : FromRoot root []
  | concat {calls : List Dependency} {file : String} (h : FromRoot root calls)
    (hreached : ReflTransGen (Leads calls) root file) (imported : String) :
    FromRoot root (calls ++ [(file, imported)])

/-- If only imports of reached files are recorded, an import of the root goes in a circle. -/
theorem FromRoot.cyclic {root : String} {calls : List Dependency} (h : FromRoot root calls)
    {a : String} (ha : Leads calls a root) : Cyclic calls := by
  induction h with
  | nil => cases ha
  | @concat calls file _ hreached imported ih =>
    have hgrown : ∀ b c, Leads calls b c → Leads (calls ++ [(file, imported)]) b c :=
      fun _ _ hbc => SearchGraph.leads_concat.2 (.inl hbc)
    rcases SearchGraph.leads_concat.1 ha with hold | ⟨rfl, rfl⟩
    · obtain ⟨b, hb⟩ := ih hold
      exact ⟨b, TransGen.mono hgrown b b hb⟩
    · exact ⟨_, TransGen.tail' (ReflTransGen.mono hgrown _ _ hreached) ha⟩

/-- A graph is closed by an import of the root; up to then it has all imports. -/
theorem ofCalls_spec (root : String) (calls : List Dependency) :
    (ofCalls root calls).root = root ∧
      ((ofCalls root calls).closed = true ↔ ∃ a, Leads calls a root) ∧
      ((ofCalls root calls).closed = false → (ofCalls root calls).edges = calls) := by
  induction calls using List.reverseRecOn with
  | nil => exact ⟨rfl, ⟨nofun, fun ⟨_, h⟩ => nomatch h⟩, fun _ => rfl⟩
  | append_singleton calls call ih =>
    obtain ⟨file, imported⟩ := call
    obtain ⟨hroot, hclosed, hedges⟩ := ih
    have hadd : ofCalls root (calls ++ [(file, imported)]) = (ofCalls root calls).add file imported :=
      List.foldl_concat _ _ _ _
    rw [hadd]
    simp only [SearchGraph.leads_concat]
    unfold add
    by_cases h : (ofCalls root calls).closed = true
    · rw [if_pos h]
      obtain ⟨a, ha⟩ := hclosed.1 h
      exact ⟨hroot, ⟨fun _ => ⟨a, .inl ha⟩, fun _ => h⟩, fun hopen => absurd h (by simp [hopen])⟩
    · rw [if_neg h]
      by_cases himported : (imported == (ofCalls root calls).root) = true
      · rw [if_pos himported]
        rw [hroot] at himported
        exact ⟨hroot, ⟨fun _ => ⟨file, .inr ⟨rfl, (eq_of_beq himported).symm⟩⟩, fun _ => rfl⟩, nofun⟩
      · rw [if_neg himported]
        rw [hroot] at himported
        have hother : root ≠ imported := by
          rintro rfl
          exact himported (beq_self_eq_true root)
        refine ⟨hroot, ?_, fun hopen => ?_⟩
        · simp [hother, hclosed]
        · rw [hedges hopen]

/-- The graph of imports is circular if the root is imported, or if the imports have a circle. -/
theorem isCircular_ofCalls (root : String) (calls : List Dependency) :
    (ofCalls root calls).isCircular = true ↔ (∃ a, Leads calls a root) ∨ Cyclic calls := by
  obtain ⟨-, hclosed, hedges⟩ := ofCalls_spec root calls
  rw [isCircular_iff, ← hclosed]
  cases h : (ofCalls root calls).closed with
  | true => simp
  | false => simp [hedges h]

end DependencyGraph

namespace SearchGraph

open DependencyGraph

/-- **The search finds circles, and nothing else.** -/
theorem search_iff {root : String} {calls : List Dependency} {g : SearchGraph}
    (h : Arises root calls g) :
    ∃ circular, g.search.1 = some circular ∧
      (circular = true ↔ (∃ file, (file, root) ∈ calls) ∨ Cyclic calls) ∧
      (FromRoot root calls → (circular = true ↔ Cyclic calls)) ∧
      (∀ g', Arises root calls g' → g'.search.1 = some circular) ∧
      (ofCalls root calls).isCircular = circular := by
  obtain ⟨circular, hanswer, hiff⟩ := h.records.search.2
  refine ⟨circular, hanswer, hiff, fun hfrom => ?_, fun g' h' => ?_, ?_⟩
  · rw [hiff, or_iff_right_of_imp]
    rintro ⟨a, ha⟩
    exact hfrom.cyclic ha
  · obtain ⟨circular', hanswer', hiff'⟩ := h'.records.search.2
    rw [hanswer', Bool.eq_iff_iff.2 (hiff'.trans hiff.symm)]
  · exact Bool.eq_iff_iff.2 ((isCircular_ofCalls root calls).trans hiff.symm)

/-- A circle that is closed after a search, away from the root, is found by the next. -/
theorem search_iff_later :
    let calls : List Dependency := [("main", "a"), ("a", "b"), ("b", "a")]
    let g := (((ofRoot "main").add "main" "a").add "a" "b").search.2.add "b" "a"
    Arises "main" calls g ∧ FromRoot "main" calls ∧ Cyclic calls ∧ g.search.1 = some true := by
  intro calls g
  have harises : Arises "main" calls g :=
    ((Arises.new.added "main" "a").added "a" "b").searched.added "b" "a"
  have hmain : Leads [("main", "a")] "main" "a" := List.mem_cons_self
  have ha : Leads [("main", "a"), ("a", "b")] "a" "b" := by decide
  have hfrom : FromRoot "main" calls :=
    ((FromRoot.nil.concat .refl "a").concat (.single hmain) "b").concat
      (.tail (.single (by decide)) ha) "a"
  have hcyclic : Cyclic calls := ⟨"a", .tail (.single (by decide : Leads calls "a" "b")) (by decide)⟩
  obtain ⟨circular, hanswer, -, hiff, -⟩ := search_iff harises
  refine ⟨harises, hfrom, hcyclic, ?_⟩
  rw [hanswer, (hiff hfrom).2 hcyclic]

end SearchGraph

end Catena

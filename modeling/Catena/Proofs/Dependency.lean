import Catena.Dependency
import Mathlib.Data.Set.Finite.Basic
import Mathlib.Data.Fintype.EquivFin
import Mathlib.Order.WellFounded

/-!
# Peeling finds the circles

An edge on a circle leads to the source of the next edge of the circle, so peeling never takes it
away. What peeling leaves has only edges that lead on; since there are finitely many of them, going
on from one of them must come back. Hence a graph has something left exactly if it has a circle
(`core_ne_nil_iff`), and a graph of imports is circular exactly if its root is imported or some file
imports itself through others (`isCircular_iff`).
-/

namespace Catena.DependencyGraph

open Relation

/-- An edge leads from `a` to `b`. -/
def Leads (edges : List Dependency) (a b : String) : Prop :=
  (a, b) ∈ edges

/-- Some node is reached from itself along edges. -/
def Cyclic (edges : List Dependency) : Prop :=
  ∃ a, TransGen (Leads edges) a a

theorem hasSource_iff {edges : List Dependency} {a : String} :
    hasSource edges a = true ↔ ∃ b, Leads edges a b := by
  unfold hasSource
  rw [List.any_eq_true]
  constructor
  · rintro ⟨⟨a', b⟩, hmem, heq⟩
    obtain rfl := eq_of_beq heq
    exact ⟨b, hmem⟩
  · rintro ⟨b, hmem⟩
    exact ⟨(a, b), hmem, beq_self_eq_true a⟩

theorem leads_peel_iff {edges : List Dependency} {a b : String} :
    Leads (peel edges) a b ↔ Leads edges a b ∧ ∃ c, Leads edges b c := by
  rw [← hasSource_iff]
  exact List.mem_filter

/-! ## Circles survive -/

theorem exists_leads_of_transGen {edges : List Dependency} {a b : String}
    (h : TransGen (Leads edges) a b) : ∃ c, Leads edges a c := by
  obtain ⟨c, hc, -⟩ := TransGen.head'_iff.1 h
  exact ⟨c, hc⟩

theorem transGen_peel {edges : List Dependency} {a b : String} (h : TransGen (Leads edges) a b)
    (hb : ∃ c, Leads edges b c) : TransGen (Leads (peel edges)) a b := by
  induction h using TransGen.head_induction_on with
  | single h => exact TransGen.single (leads_peel_iff.2 ⟨h, hb⟩)
  | head h hrest ih =>
    exact TransGen.head (leads_peel_iff.2 ⟨h, exists_leads_of_transGen hrest⟩) ih

theorem Cyclic.peel {edges : List Dependency} (h : Cyclic edges) : Cyclic (peel edges) := by
  obtain ⟨a, ha⟩ := h
  exact ⟨a, transGen_peel ha (exists_leads_of_transGen ha)⟩

theorem Cyclic.core_ne_nil {edges : List Dependency} (h : Cyclic edges) : core edges ≠ [] := by
  fun_induction core edges with
  | case1 edges _ ih => exact ih h.peel
  | case2 edges _ =>
    rintro rfl
    obtain ⟨a, ha⟩ := h
    obtain ⟨b, hb⟩ := exists_leads_of_transGen ha
    exact List.not_mem_nil hb

/-! ## Nothing else survives -/

theorem core_subset (edges : List Dependency) : core edges ⊆ edges := by
  fun_induction core edges with
  | case1 edges _ ih => exact fun e he => List.mem_of_mem_filter (ih he)
  | case2 edges _ => exact List.Subset.refl edges

/-- Every edge that is left leads on to another. -/
theorem leads_on_of_mem_core {edges : List Dependency} {a b : String}
    (h : Leads (core edges) a b) : ∃ c, Leads (core edges) b c := by
  fun_induction core edges with
  | case1 edges _ ih => exact ih h
  | case2 edges hlen =>
    -- nothing was peeled off, so `peel` is the identity here
    have same : peel edges = edges :=
      List.filter_sublist.eq_of_length_le (Nat.not_lt.1 hlen)
    have hpeel : Leads (peel edges) a b := by rw [same]; exact h
    exact (leads_peel_iff.1 hpeel).2

/-- Finitely many edges that all lead on go in a circle. -/
theorem cyclic_of_leads_on {edges : List Dependency} (hne : edges ≠ [])
    (hon : ∀ a b, Leads edges a b → ∃ c, Leads edges b c) : Cyclic edges := by
  by_contra hacyclic
  let beyond (e f : { e // e ∈ edges }) : Prop := TransGen (Leads edges) f.1.1 e.1.1
  have : IsTrans { e // e ∈ edges } beyond := ⟨fun _ _ _ hef hfg => hfg.trans hef⟩
  have : Std.Irrefl beyond := ⟨fun e he => hacyclic ⟨e.1.1, he⟩⟩
  have : Nonempty { e // e ∈ edges } :=
    let ⟨e, he⟩ := List.exists_mem_of_ne_nil edges hne
    ⟨⟨e, he⟩⟩
  have : Finite { e // e ∈ edges } := (List.finite_toSet edges).to_subtype
  have wf : WellFounded beyond := Finite.wellFounded_of_trans_of_irrefl beyond
  obtain ⟨last, -, hlast⟩ := wf.has_min Set.univ Set.univ_nonempty
  obtain ⟨c, hc⟩ := hon last.1.1 last.1.2 last.2
  exact hlast ⟨(last.1.2, c), hc⟩ trivial (TransGen.single last.2)

/-- **Peeling leaves something exactly if there is a circle.** -/
theorem core_ne_nil_iff {edges : List Dependency} : core edges ≠ [] ↔ Cyclic edges := by
  refine ⟨fun h => ?_, Cyclic.core_ne_nil⟩
  obtain ⟨a, ha⟩ := cyclic_of_leads_on h fun _ _ => leads_on_of_mem_core
  exact ⟨a, TransGen.mono (fun _ _ hab => core_subset edges hab) a a ha⟩

theorem isCircular_iff {g : DependencyGraph} :
    g.isCircular = true ↔ g.closed = true ∨ Cyclic g.edges := by
  unfold isCircular
  rw [Bool.or_eq_true, ← core_ne_nil_iff]
  simp

theorem not_isCircular_iff {g : DependencyGraph} :
    g.isCircular = false ↔ g.closed = false ∧ ¬Cyclic g.edges := by
  rw [← Bool.not_eq_true, isCircular_iff, not_or, Bool.not_eq_true]

/-- One edge between two names goes in no circle. -/
theorem isCircular_single {a b : String} (hab : a ≠ b) :
    (({ root := a } : DependencyGraph).add a b).isCircular = false := by
  have hgraph : ({ root := a } : DependencyGraph).add a b = { root := a, edges := [(a, b)] } := by
    simp [add, hab.symm]
  rw [hgraph, not_isCircular_iff]
  refine ⟨rfl, ?_⟩
  rintro ⟨c, hc⟩
  obtain ⟨d, hcd, hdc⟩ := TransGen.head'_iff.1 hc
  cases List.mem_singleton.1 hcd
  rcases ReflTransGen.cases_head hdc with heq | ⟨e, hbe, -⟩
  · exact hab heq.symm
  · cases List.mem_singleton.1 hbe
    exact hab rfl

end Catena.DependencyGraph

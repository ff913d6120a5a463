import Catena.Proofs.Evaluation.Course

/-!
# More fuel

More fuel never changes an outcome, only that there is one (`outlasts_step`), and a run comes to all
that it comes to with less (`exists_visit_of_le`).
-/

namespace Catena

open Catena.Eval

namespace Evaluation

/-- An outcome, with the code that was started on the way, and another with more fuel: they are the
same, or the first is out of fuel and the second has started at least as much. -/
def Outlasts {α : Type} (o : Outcome Interpreter Halt α) (sts : List Start)
    (o' : Outcome Interpreter Halt α) (sts' : List Start) : Prop :=
  (o' = o ∧ sts' = sts) ∨ (∃ t, o = .stopped .exhausted t) ∧ sts ⊆ sts'

namespace Outlasts

variable {α β : Type} {s : Interpreter} {sts sts' : List Start}
  {o o' : Outcome Interpreter Halt α}

theorem refl (o : Outcome Interpreter Halt α) (sts : List Start) : Outlasts o sts o sts :=
  .inl ⟨rfl, rfl⟩

theorem starting (h : Outlasts o [] o' []) (sts : List Start) : Outlasts o sts o' sts := by
  rcases h with ⟨rfl, -⟩ | ⟨hexhausted, -⟩
  · exact refl _ _
  · exact .inr ⟨hexhausted, fun _ => id⟩

theorem subset (h : Outlasts o sts o' sts') : sts ⊆ sts' := by
  rcases h with ⟨-, rfl⟩ | ⟨-, h⟩
  · exact fun _ => id
  · exact h

theorem eq_of_done {a : α} {t : Interpreter} (h : Outlasts o sts o' sts') (ho : o = .done a t) :
    o' = .done a t := by
  rcases h with ⟨h, -⟩ | ⟨⟨u, hu⟩, -⟩
  · exact h.trans ho
  · rw [ho] at hu
    cases hu

theorem bind {m m' : Eval α} {f f' : α → Eval β} {k k' : α → Interpreter → List Start}
    (hm : Outlasts (m.run s) sts (m'.run s) sts')
    (hf : ∀ a t, Outlasts ((f a).run t) (k a t) ((f' a).run t) (k' a t)) :
    Outlasts ((m >>= f).run s) (sts ++ following m k s) ((m' >>= f').run s)
      (sts' ++ following m' k' s) := by
  rw [Action.run_bind, Action.run_bind]
  unfold following
  rcases hm with ⟨hsame, rfl⟩ | ⟨⟨t, ht⟩, hsub⟩
  · rw [hsame]
    cases m.run s with
    | stopped halt t => exact refl _ _
    | done a t =>
      rcases hf a t with ⟨hsame, hsts⟩ | ⟨hexhausted, hsub⟩
      · exact .inl ⟨hsame, congrArg (sts' ++ ·) hsts⟩
      · exact .inr ⟨hexhausted, List.append_subset.2 ⟨List.subset_append_left _ _,
          List.subset_append_of_subset_right _ hsub⟩⟩
  · rw [ht]
    refine .inr ⟨⟨t, rfl⟩, ?_⟩
    rw [followed, List.append_nil]
    exact List.subset_append_of_subset_left _ hsub

theorem bind_same {m : Eval α} {f f' : α → Eval β} {k k' : α → Interpreter → List Start}
    (hf : ∀ a t, Outlasts ((f a).run t) (k a t) ((f' a).run t) (k' a t)) :
    Outlasts ((m >>= f).run s) (following m k s) ((m >>= f').run s) (following m k' s) :=
  bind (refl (m.run s) []) hf

theorem bind_nil {m m' : Eval α} {f f' : α → Eval β} (hm : Outlasts (m.run s) sts (m'.run s) sts')
    (hf : ∀ a t, Outlasts ((f a).run t) [] ((f' a).run t) []) :
    Outlasts ((m >>= f).run s) sts ((m' >>= f').run s) sts' := by
  have h := bind hm hf
  rwa [following, following, followed_nil, followed_nil, List.append_nil, List.append_nil] at h

theorem continued {f : α → Eval β} (h : Outlasts o sts o' sts') :
    Outlasts (goOn f o) sts (goOn f o') sts' := by
  rcases h with ⟨rfl, rfl⟩ | ⟨⟨t, rfl⟩, hsub⟩
  · exact refl _ _
  · exact .inr ⟨⟨t, rfl⟩, hsub⟩

theorem moved {g : Interpreter → Interpreter} (h : Outlasts o sts o' sts') :
    Outlasts (moved g o) sts (Evaluation.moved g o') sts' := by
  rcases h with ⟨rfl, rfl⟩ | ⟨⟨t, rfl⟩, hsub⟩
  · exact refl _ _
  · exact .inr ⟨⟨g t, rfl⟩, hsub⟩

theorem onFailure {m m' : Eval α} {f : Option String → Diagnostic → Diagnostic}
    (h : Outlasts (m.run s) sts (m'.run s) sts') :
    Outlasts ((Eval.onFailure f m).run s) sts ((Eval.onFailure f m').run s) sts' := by
  unfold Eval.onFailure
  dsimp only
  rcases h with ⟨hsame, rfl⟩ | ⟨⟨t, ht⟩, hsub⟩
  · rw [hsame]
    exact refl _ _
  · rw [ht]
    exact .inr ⟨⟨t, rfl⟩, hsub⟩

end Outlasts

section Functions

variable {run run' : Code → Eval Unit}
  (hrun : ∀ code s, Outlasts ((run code).run s) [] ((run' code).run s) [])

include hrun

theorem outlasts_rounds (body : Code) {limit limit' : Nat} (hlimit : limit ≤ limit') (times : Float)
    (s : Interpreter) :
    Outlasts ((Library.rounds (run body) limit times).run s) (roundStarts run body limit times s)
      ((Library.rounds (run' body) limit' times).run s) (roundStarts run' body limit' times s) := by
  induction limit generalizing limit' times s with
  | zero =>
    by_cases htimes : times > 0.0
    · refine .inr ⟨⟨s, ?_⟩, List.nil_subset _⟩
      simp [Library.rounds, htimes]
    · cases limit' <;> simp [Library.rounds, roundStarts, htimes, Outlasts.refl]
  | succ limit ih =>
    obtain ⟨limit', rfl⟩ := Nat.exists_eq_add_one_of_ne_zero (Nat.ne_zero_of_lt hlimit)
    unfold Library.rounds roundStarts
    by_cases htimes : times > 0.0
    · simp only [htimes, if_true]
      exact Outlasts.bind ((hrun body s).starting [⟨.sequence, body, s⟩]) fun _ t =>
        ih (Nat.le_of_succ_le_succ hlimit) (times - 1.0) t
    · simp only [htimes, if_false]
      exact Outlasts.refl _ _

theorem outlasts_mapItems (body : Code) (items : List Literal) (array : TypedArray) (index : Nat)
    (s : Interpreter) :
    Outlasts ((Library.mapItems (run body) array index items).run s)
      (itemStarts run body array index items s)
      ((Library.mapItems (run' body) array index items).run s)
      (itemStarts run' body array index items s) := by
  induction items generalizing array index s with
  | nil => exact Outlasts.refl _ _
  | cons item rest ih =>
    unfold Library.mapItems itemStarts
    refine Outlasts.bind_same fun _ t => ?_
    refine Outlasts.bind ((hrun body t).starting [⟨.sequence, body, t⟩]) fun _ u => ?_
    exact Outlasts.bind_same fun mapped u => Outlasts.bind_same fun array u => ih array (index + 1) u

theorem outlasts_native (access : Access) {limit limit' : Nat} (hlimit : limit ≤ limit') (f : Native)
    (s : Interpreter) :
    Outlasts ((Library.perform limit run access f).run s) (nativeStarts limit run f s)
      ((Library.perform limit' run' access f).run s) (nativeStarts limit' run' f s) := by
  cases f with
  | exec => exact Outlasts.bind_same fun sequence t => (hrun sequence.body t).starting _
  | repeated =>
    exact Outlasts.bind_same fun sequence t => Outlasts.bind_same fun times t =>
      outlasts_rounds hrun sequence.body hlimit times t
  | arrayMap =>
    refine Outlasts.bind_same fun sequence t => Outlasts.bind_same fun array t => ?_
    have hmap := outlasts_mapItems hrun sequence.body array.items.toList array 0 t
    exact hmap.bind_nil fun array t => Outlasts.refl ((push (.array array)).run t) []
  | _ => exact Outlasts.refl _ _

theorem outlasts_perform {limit limit' : Nat} (hlimit : limit ≤ limit') (f : Function)
    (s : Interpreter) :
    Outlasts ((perform limit run f).run s) (functionStarts limit run f s)
      ((perform limit' run' f).run s) (functionStarts limit' run' f s) := by
  cases f with
  | native function access => exact outlasts_native hrun access hlimit function s
  | defined definition => exact (hrun definition.body s).starting _
  | constant value home => exact Outlasts.refl _ _

theorem outlasts_invoke {limit limit' : Nat} (hlimit : limit ≤ limit') {s : Interpreter}
    {m : Mark NodeId} {qualifier : Option Token} {name : String} {f : Function}
    (hf : lookUp s qualifier (s.scopes.nameOf m.tag name) = .ok f) :
    Outlasts ((invoke limit run f m.token.lexeme).run s)
      (starts limit run s (.identifier m qualifier name))
      ((invoke limit' run' f m.token.lexeme).run s)
      (starts limit' run' s (.identifier m qualifier name)) := by
  rw [starts_identifier, starts_identifier, run_invoke, run_invoke, callee?_eq hf]
  cases s.stack.requireShape .pre f.pre m.token.lexeme with
  | error e => exact Outlasts.refl _ _
  | ok _ =>
    by_cases hdepth : s.maxDepth ≤ s.depth
    · simp only [hdepth, if_true]
      exact Outlasts.refl _ _
    · simp only [hdepth, if_false]
      exact (outlasts_perform hrun hlimit f (enter f s)).moved.continued

theorem outlasts_node {limit limit' : Nat} (hlimit : limit ≤ limit') (n : Node NodeId)
    (s : Interpreter) :
    Outlasts ((node limit run n).run s) (starts limit run s n) ((node limit' run' n).run s)
      (starts limit' run' s n) := by
  cases n with
  | condition m form =>
    rw [node, node, condition_eq, condition_eq]
    refine Outlasts.bind_same fun code t => ?_
    cases code with
    | none => exact Outlasts.refl _ _
    | some code => exact (hrun code t).starting _
  | identifier m qualifier name =>
    rw [node, node, run_callName, run_callName]
    cases hf : lookUp s qualifier (s.scopes.nameOf m.tag name) with
    | error e =>
      rw [starts_identifier, starts_identifier, callee?_eq_none hf]
      exact Outlasts.refl _ _
    | ok f => exact (outlasts_invoke hrun hlimit hf).onFailure
  | program m info nodes =>
    rw [node, node, run_program, run_program]
    rcases hrun nodes (opened info s) with ⟨hsame, -⟩ | ⟨⟨t, ht⟩, -⟩
    · rw [hsame]
      exact Outlasts.refl _ _
    · rw [ht]
      exact .inr ⟨⟨_, rfl⟩, fun _ => id⟩
  | _ => exact Outlasts.refl _ _

end Functions

theorem outlasts_each {f f' : Node NodeId → Eval Unit}
    (h : ∀ n s, Outlasts ((f n).run s) [] ((f' n).run s) []) (code : Code) (s : Interpreter) :
    Outlasts ((each f code).run s) [] ((each f' code).run s) [] := by
  induction code generalizing s with
  | nil => exact Outlasts.refl _ _
  | cons n rest ih =>
    exact (h n s).bind_nil fun _ t => ih t

theorem outlasts_exec {fuel fuel' : Nat} (hfuel : fuel ≤ fuel') (code : Code) (s : Interpreter) :
    Outlasts ((exec fuel code).run s) [] ((exec fuel' code).run s) [] := by
  induction fuel generalizing fuel' code s with
  | zero => exact .inr ⟨⟨s, rfl⟩, fun _ => id⟩
  | succ fuel ih =>
    obtain ⟨fuel', rfl⟩ := Nat.exists_eq_add_one_of_ne_zero (Nat.ne_zero_of_lt hfuel)
    have hle := Nat.le_of_succ_le_succ hfuel
    refine outlasts_each (fun n s => ?_) code s
    rcases (outlasts_node (ih hle) hle n s).onFailure with ⟨hsame, -⟩ | ⟨hexhausted, -⟩
    · exact .inl ⟨hsame, rfl⟩
    · exact .inr ⟨hexhausted, fun _ => id⟩

theorem outlasts_step {fuel fuel' : Nat} (hfuel : fuel ≤ fuel') (n : Node NodeId) (s : Interpreter) :
    Outlasts ((step fuel (exec fuel) n).run s) (starts fuel (exec fuel) s n)
      ((step fuel' (exec fuel') n).run s) (starts fuel' (exec fuel') s n) :=
  (outlasts_node (outlasts_exec hfuel) hfuel n s).onFailure

/-- **With more fuel a run comes to all that it came to**, and maybe further. -/
theorem exists_visit_of_le {fuel fuel' : Nat} (hfuel : fuel ≤ fuel') {ways : List Way} {code : Code}
    {s : Interpreter} {v : Visit} (h : v ∈ visits fuel ways code s) :
    ∃ n, { v with fuel := n } ∈ visits fuel' ways code s := by
  induction fuel generalizing fuel' ways code s with
  | zero => cases h
  | succ fuel ihfuel =>
    obtain ⟨fuel', rfl⟩ := Nat.exists_eq_add_one_of_ne_zero (Nat.ne_zero_of_lt hfuel)
    have hle := Nat.le_of_succ_le_succ hfuel
    induction code generalizing s with
    | nil => cases h
    | cons n rest ih =>
      have hstep := outlasts_step hle n s
      rcases mem_visits_cons.1 h with rfl | ⟨start, hmem, hv⟩ | ⟨t, hdone, hv⟩
      · exact ⟨fuel', mem_visits_cons.2 (.inl rfl)⟩
      · obtain ⟨k, hk⟩ := ihfuel hle hv
        exact ⟨k, mem_visits_cons.2 (.inr (.inl ⟨start, hstep.subset hmem, hk⟩))⟩
      · obtain ⟨k, hk⟩ := ih hv
        exact ⟨k, mem_visits_cons.2 (.inr (.inr ⟨t, hstep.eq_of_done hdone, hk⟩))⟩

end Evaluation

end Catena

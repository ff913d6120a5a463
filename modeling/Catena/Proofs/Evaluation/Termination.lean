import Catena.Proofs.Evaluation.Fuel
import Catena.Proofs.Evaluation.Linked
import Catena.Proofs.Evaluation.Stock

/-!
# When runs come to an end

Calls are counted, and no more than `maxDepth` of them nest. Branches are not counted: a condition
runs its branch in place, and a branch may come to a condition again. So a run without loops comes to
an end exactly if its branches nest to a bounded depth (`ends_iff_branches_bounded`), and there are
programs whose branches nest without end (`not_ends_endless`).

A run is bounded by three numbers, in this order: the branches that may still be nested, the calls
that may still be nested, and the size of the code (`ends_of_bounded`).
-/

namespace Catena

open Catena.Eval

/-- The discipline of code without conditions. -/
def Discipline.unconditional : Discipline where
  node n := ∀ m form, n ≠ .condition m form
  array _ := True
  error _ := True
  modules := True
  node_literal _ _ _ _ := nofun
  node_sequence _ _ _ _ _ := nofun
  node_array _ _ _ _ := nofun
  node_program _ := trivial
  array_ofLiterals _ := trivial
  array_push _ _ := trivial
  array_set _ _ := trivial
  array_pop _ := trivial
  error_of _ := trivial

namespace Evaluation

/-! ## Runs that come to an end -/

/-- Whether code comes to be run as a branch. -/
def Way.isBranch : Way → Bool
  | .branch => true
  | _ => false

/-- Some fuel is enough to run code in a state. -/
def Ends (code : Code) (s : Interpreter) : Prop :=
  ∃ fuel, ∀ t, (exec fuel code).run s ≠ .stopped .exhausted t

/-- The branches inside each other in which a visit takes place. -/
def Visit.branches (v : Visit) : Nat :=
  v.ways.countP Way.isBranch

/-- A run that never loops and nests at most `k` branches, besides those that it is in. -/
def Bounded (k : Nat) (ways : List Way) (code : Code) (s : Interpreter) : Prop :=
  ∀ fuel, ∀ v ∈ visits fuel ways code s,
    (∀ access, ¬Calls v.state v.node (.native .repeated access)) ∧
      v.branches ≤ ways.countP Way.isBranch + k

theorem exec_eq_of_le {fuel fuel' : Nat} (hfuel : fuel ≤ fuel') {code : Code} {s : Interpreter}
    (h : ∀ t, (exec fuel code).run s ≠ .stopped .exhausted t) :
    (exec fuel' code).run s = (exec fuel code).run s := by
  rcases outlasts_exec hfuel code s with ⟨hsame, -⟩ | ⟨⟨t, ht⟩, -⟩
  · exact hsame
  · exact absurd ht (h t)

/-- Everything in a list of starts comes to its end with the given fuel. -/
def Enough (fuel : Nat) (sts : List Start) : Prop :=
  ∀ start ∈ sts, ∀ t, (exec fuel start.code).run start.state ≠ .stopped .exhausted t

theorem Enough.mono {fuel fuel' : Nat} {sts : List Start} (h : Enough fuel sts)
    (hfuel : fuel ≤ fuel') : Enough fuel' sts := by
  intro start hmem t
  rw [exec_eq_of_le hfuel (h start hmem)]
  exact h start hmem t

theorem Enough.cons {fuel : Nat} {start : Start} {sts : List Start}
    (h : ∀ t, (exec fuel start.code).run start.state ≠ .stopped .exhausted t)
    (hsts : Enough fuel sts) : Enough fuel (start :: sts) :=
  List.forall_mem_cons.2 ⟨h, hsts⟩

theorem exists_enough {sts : List Start} (h : ∀ start ∈ sts, Ends start.code start.state) :
    ∃ fuel, Enough fuel sts := by
  induction sts with
  | nil => exact ⟨0, fun _ hmem => by cases hmem⟩
  | cons start rest ih =>
    obtain ⟨⟨f, hf⟩, hrest⟩ := List.forall_mem_cons.1 h
    obtain ⟨g, hg⟩ := ih hrest
    have hstart : Enough f [start] := Enough.cons hf fun _ hmem => by cases hmem
    refine ⟨max f g, Enough.cons ?_ (hg.mono (Nat.le_max_right f g))⟩
    exact (hstart.mono (Nat.le_max_left f g)) start (List.mem_singleton_self start)

/-- Once the items have been gone through, more fuel starts nothing else. -/
theorem itemStarts_eq_of_le {fuel fuel' : Nat} (hfuel : fuel ≤ fuel') {body : Code}
    {array : TypedArray} {index : Nat} {items : List Literal} {s : Interpreter}
    (h : Enough fuel (itemStarts (exec fuel) body array index items s)) :
    itemStarts (exec fuel') body array index items s =
      itemStarts (exec fuel) body array index items s := by
  rcases outlasts_mapItems (outlasts_exec hfuel) body items array index s with
    ⟨-, hsame⟩ | ⟨⟨t, ht⟩, -⟩
  · exact hsame
  · have hthreads : Threads (exec fuel) False s _ _ :=
      threads_mapItems (exec fuel) body items array index s
    rcases hthreads.exhausted ht with hloop | ⟨start, hmem, u, hstart⟩
    · exact hloop.elim
    · exact absurd hstart (h start hmem u)

/-- The items of an array are gone through one after the other: enough fuel for all is the most that
one of them takes. -/
theorem exists_enough_itemStarts (body : Code) (items : List Literal) (array : TypedArray)
    (index : Nat) (s : Interpreter)
    (h : ∀ fuel, ∀ start ∈ itemStarts (exec fuel) body array index items s,
      Ends start.code start.state) :
    ∃ fuel, Enough fuel (itemStarts (exec fuel) body array index items s) := by
  induction items generalizing array index s with
  | nil => exact ⟨0, fun _ hmem => by cases hmem⟩
  | cons item rest ih =>
    let t : Interpreter := { s with stack := s.stack.push (.literal item) }
    let later (fuel : Nat) : Outcome Interpreter Halt Unit → List Start :=
      followed fun _ => following (onStack Stack.pop) fun mapped =>
        following (demand (array.set index mapped)) fun array =>
          itemStarts (exec fuel) body array (index + 1) rest
    have hstarts : ∀ fuel, itemStarts (exec fuel) body array index (item :: rest) s =
        ⟨.sequence, body, t⟩ :: later fuel ((exec fuel body).run t) := fun fuel => rfl
    obtain ⟨f, hf⟩ := h 0 ⟨.sequence, body, t⟩ (by rw [hstarts]; exact List.mem_cons_self)
    have hsame : ∀ {fuel}, f ≤ fuel → (exec fuel body).run t = (exec f body).run t :=
      fun hle => exec_eq_of_le hle hf
    -- enough for the first item is enough for all, unless the rest has to be gone through
    have hdone : (∀ fuel, later fuel ((exec f body).run t) = []) →
        ∃ fuel, Enough fuel (itemStarts (exec fuel) body array index (item :: rest) s) := by
      intro hnone
      refine ⟨f, ?_⟩
      rw [hstarts, hnone]
      exact Enough.cons hf fun _ hmem => by cases hmem
    cases hbody : (exec f body).run t with
    | stopped halt u => exact hdone fun fuel => by rw [hbody]; rfl
    | done a u =>
      cases hpop : (onStack Stack.pop).run u with
      | stopped halt w =>
        exact hdone fun fuel => by simp only [hbody, later, followed, following, hpop]
      | done mapped w =>
        cases hset : (demand (array.set index mapped)).run w with
        | stopped halt x =>
          exact hdone fun fuel => by simp only [hbody, later, followed, following, hpop, hset]
        | done array' x =>
          have hlater : ∀ fuel, later fuel ((exec f body).run t) =
              itemStarts (exec fuel) body array' (index + 1) rest x := fun fuel => by
            simp only [hbody, later, followed, following, hpop, hset]
          have hrest : ∀ fuel, ∀ start ∈ itemStarts (exec fuel) body array' (index + 1) rest x,
              Ends start.code start.state := by
            intro fuel start hmem
            refine h (max f fuel) start ?_
            rw [hstarts, hsame (Nat.le_max_left f fuel), hlater]
            exact List.mem_cons_of_mem _ ((outlasts_mapItems
              (outlasts_exec (Nat.le_max_right f fuel)) body rest array' (index + 1) x).subset hmem)
          obtain ⟨g, hg⟩ := ih array' (index + 1) x hrest
          refine ⟨max f g, ?_⟩
          rw [hstarts, hsame (Nat.le_max_left f g), hlater,
            itemStarts_eq_of_le (Nat.le_max_right f g) hg]
          refine Enough.cons ?_ (hg.mono (Nat.le_max_right f g))
          intro u hu
          exact hf u ((hsame (Nat.le_max_left f g)).symm.trans hu)

theorem exists_enough_map (s : Interpreter)
    (h : ∀ fuel, ∀ start ∈ nativeStarts fuel (exec fuel) .arrayMap s, Ends start.code start.state) :
    ∃ fuel, Enough fuel (nativeStarts fuel (exec fuel) .arrayMap s) := by
  unfold nativeStarts following at *
  cases hsequence : (onStack Stack.popSequence).run s with
  | stopped halt t => exact ⟨0, fun _ hmem => by simp [hsequence, followed] at hmem⟩
  | done sequence t =>
    cases harray : (onStack Stack.popArray).run t with
    | stopped halt u => exact ⟨0, fun _ hmem => by simp [hsequence, harray, followed] at hmem⟩
    | done array u =>
      simp only [hsequence, harray, followed] at h ⊢
      exact exists_enough_itemStarts sequence.body array.items.toList array 0 u h

/-- If everything that a node can start comes to its end, then so does the node. -/
theorem exists_fuel_step {n : Node NodeId} {s : Interpreter}
    (hrepeat : ∀ access, ¬Calls s n (.native .repeated access))
    (h : ∀ fuel, ∀ start ∈ starts fuel (exec fuel) s n, Ends start.code start.state) :
    ∃ fuel, ∀ t, (step fuel (exec fuel) n).run s ≠ .stopped .exhausted t := by
  have hfuel : ∃ fuel, Enough fuel (starts fuel (exec fuel) s n) := by
    cases n with
    | identifier m qualifier name =>
      simp only [starts_identifier] at h ⊢
      cases hcallee : callee? s m qualifier name with
      | none => exact ⟨0, fun _ hmem => by cases hmem⟩
      | some f =>
        simp only [hcallee, Option.elim_some] at h ⊢
        cases f with
        | constant value home => exact exists_enough (h 0)
        | defined d => exact exists_enough (h 0)
        | native function access =>
          cases function with
          | repeated => exact absurd ⟨m, qualifier, name, rfl, hcallee⟩ (hrepeat access)
          | arrayMap => exact exists_enough_map (enter _ s) h
          | _ => exact exists_enough (h 0)
    | _ => exact exists_enough (h 0)
  obtain ⟨fuel, henough⟩ := hfuel
  refine ⟨fuel, fun t ht => ?_⟩
  rcases (accounts_step fuel n s).exhausted t ht with ⟨access, hcalls⟩ | ⟨start, hmem, u, hstart⟩
  · exact hrepeat access hcalls
  · exact henough start hmem u hstart

section Bounded

variable {k : Nat} {ways : List Way} {n : Node NodeId} {rest : Code} {s : Interpreter}

theorem Bounded.next (h : Bounded k ways (n :: rest) s) {fuel : Nat} {t : Interpreter}
    (hstep : (step fuel (exec fuel) n).run s = .done () t) : Bounded k ways rest t := by
  intro fuel' v hv
  obtain ⟨m, hm⟩ := exists_visit_of_le (Nat.le_trans (Nat.le_max_right fuel fuel')
    (Nat.le_succ (max fuel fuel'))) hv
  have hsame := (outlasts_step (Nat.le_max_left fuel fuel') n s).eq_of_done hstep
  exact h _ { v with fuel := m } (mem_visits_cons.2 (.inr (.inr ⟨t, hsame, hm⟩)))

theorem Bounded.started (h : Bounded k ways (n :: rest) s) {fuel : Nat} {start : Start}
    (hstart : start ∈ starts fuel (exec fuel) s n) (fuel' : Nat) :
    ∀ v ∈ startVisits fuel' ways start, (∀ access, ¬Calls v.state v.node (.native .repeated access)) ∧
      v.branches ≤ ways.countP Way.isBranch + k := by
  intro v hv
  obtain ⟨m, hm⟩ := exists_visit_of_le (Nat.le_max_right fuel fuel') hv
  have hmem := (outlasts_step (Nat.le_max_left fuel fuel') n s).subset hstart
  exact h _ { v with fuel := m } (mem_visits_cons.2 (.inr (.inl ⟨start, hmem, hm⟩)))

/-- Code that is not a branch may nest as many branches as the code that starts it. -/
theorem Bounded.start (h : Bounded k ways (n :: rest) s) {fuel : Nat} {start : Start}
    (hstart : start ∈ starts fuel (exec fuel) s n) (hway : start.way.isBranch = false) :
    Bounded k (start.way :: ways) start.code start.state := by
  intro fuel' v hv
  rw [List.countP_cons_of_neg (by simp [hway])]
  exact h.started hstart fuel' v hv

/-- A branch may nest one less, and there is none in it if no more may be nested. -/
theorem Bounded.branch (h : Bounded k ways (n :: rest) s) {fuel : Nat} {start : Start}
    (hstart : start ∈ starts fuel (exec fuel) s n) (hway : start.way.isBranch = true) :
    start.code = [] ∨ ∃ j, k = j + 1 ∧ Bounded j (start.way :: ways) start.code start.state := by
  have hcount : (start.way :: ways).countP Way.isBranch = ways.countP Way.isBranch + 1 :=
    List.countP_cons_of_pos hway
  cases k with
  | succ j =>
    refine .inr ⟨j, rfl, fun fuel' v hv => ?_⟩
    obtain ⟨hrepeat, hbranches⟩ := h.started hstart fuel' v hv
    rw [hcount]
    exact ⟨hrepeat, by omega⟩
  | zero =>
    left
    cases hcode : start.code with
    | nil => rfl
    | cons n' rest' =>
      -- its first node would be visited inside one branch too many
      have hfirst : (⟨n', start.state, start.way :: ways, 0⟩ : Visit) ∈ startVisits 1 ways start := by
        unfold startVisits
        rw [hcode]
        exact mem_visits_cons.2 (.inl rfl)
      have hbranches : (start.way :: ways).countP Way.isBranch ≤ _ :=
        (h.started hstart 1 _ hfirst).2
      omega

end Bounded

/-- The number of calls that may still be nested. -/
def room (s : Interpreter) : Nat :=
  s.maxDepth - s.depth

theorem room_lt_of_calls {s t : Interpreter} {n : Node NodeId} {f : Function} (h : Calls s n f)
    (hdepth : t.depth = s.depth + 1) (hmax : t.maxDepth = s.maxDepth) : room t < room s := by
  obtain ⟨m, qualifier, name, -, hcallee⟩ := h
  have hroom := (lookUp_of_callee? hcallee).2
  unfold room
  omega

/-- Code that is no branch leaves less room for calls, or is smaller. -/
theorem Leads.lighter {s : Interpreter} {n : Node NodeId} {start : Start} (h : Leads s n start)
    (hway : start.way.isBranch = false) :
    room start.state < room s ∨ room start.state = room s ∧ sizeOf start.code < sizeOf n := by
  cases h with
  | branch => cases hway
  | sequence hcalls hframe => exact .inl (room_lt_of_calls hcalls hframe.depth hframe.maxDepth)
  | body hcalls => exact .inl (room_lt_of_calls hcalls rfl rfl)
  | @module m info nodes =>
    right
    constructor
    · unfold room opened
      split <;> rfl
    · simp only [Node.program.sizeOf_spec]
      omega

theorem exec_cons_ne_exhausted {n : Node NodeId} {rest : Code} {s : Interpreter} {fuel : Nat}
    (hstep : ∀ t, (step fuel (exec fuel) n).run s ≠ .stopped .exhausted t)
    (hrest : ∀ t, (step fuel (exec fuel) n).run s = .done () t →
      ∀ u, (exec (fuel + 1) rest).run t ≠ .stopped .exhausted u) (u : Interpreter) :
    (exec (fuel + 1) (n :: rest)).run s ≠ .stopped .exhausted u := by
  rw [exec_cons, Action.run_bind]
  cases hrun : (step fuel (exec fuel) n).run s with
  | done a t => exact hrest t hrun u
  | stopped halt t =>
    intro hexhausted
    cases hexhausted
    exact hstep u hrun

/-- **A run that nests boundedly many branches comes to an end.** -/
theorem ends_of_bounded {k : Nat} {ways : List Way} {code : Code} {s : Interpreter}
    (h : Bounded k ways code s) : Ends code s := by
  -- a branch may nest fewer branches, a call leaves less room for calls, and all else is smaller
  induction k using Nat.strongRecOn generalizing ways code s with
  | _ k ihbranches =>
  induction hr : room s using Nat.strongRecOn generalizing ways code s with
  | _ r ihroom =>
  induction hz : sizeOf code using Nat.strongRecOn generalizing ways code s with
  | _ z ihsize =>
  subst hr hz
  cases code with
  | nil => exact ⟨1, fun t ht => by cases ht⟩
  | cons n rest =>
    have hrepeat := (h 1 ⟨n, s, ways, 0⟩ (mem_visits_cons.2 (.inl rfl))).1
    have hstarts : ∀ fuel, ∀ start ∈ starts fuel (exec fuel) s n, Ends start.code start.state := by
      intro fuel start hmem
      cases hway : start.way.isBranch with
      | true =>
        rcases h.branch hmem hway with hnil | ⟨j, rfl, hbounded⟩
        · exact ⟨1, fun t ht => by rw [hnil] at ht; cases ht⟩
        · exact ihbranches j (Nat.lt_succ_self j) hbounded
      | false =>
        have hbounded := h.start hmem hway
        rcases (leads_starts hmem).lighter hway with hless | ⟨hroom, hsize⟩
        · exact ihroom _ hless hbounded rfl
        · refine ihsize _ ?_ hbounded hroom rfl
          rw [List.cons.sizeOf_spec]
          omega
    obtain ⟨f, hf⟩ := exists_fuel_step hrepeat hstarts
    cases hstep : (step f (exec f) n).run s with
    | stopped halt t =>
      exact ⟨f + 1, exec_cons_ne_exhausted hf fun u hu => by rw [hstep] at hu; cases hu⟩
    | done a t =>
      have hroom : room t = room s := by
        have hframe := frame_of_step hstep
        unfold room
        rw [hframe.depth, hframe.maxDepth]
      have hsize : sizeOf rest < sizeOf (n :: rest) := by
        rw [List.cons.sizeOf_spec]
        omega
      obtain ⟨g, hg⟩ := ihsize _ hsize (h.next hstep) hroom rfl
      -- fuel that is enough for the node and for what follows it
      have hsame := (outlasts_step (Nat.le_max_left f g) n s).eq_of_done hstep
      refine ⟨max f g + 1, exec_cons_ne_exhausted (fun u hu => ?_) fun u hu => ?_⟩
      · rw [hsame] at hu
        cases hu
      · rw [hsame] at hu
        cases hu
        have hle : g ≤ max f g + 1 := Nat.le_succ_of_le (Nat.le_max_right f g)
        rw [exec_eq_of_le hle hg]
        exact hg

/-! ## What a run that has come to its end has nested -/

section Ended

variable {fuel fuel' : Nat} {n : Node NodeId} {rest : Code} {s : Interpreter}

theorem outlasts_of_ne_exhausted
    (h : ∀ t, (step fuel (exec fuel) n).run s ≠ .stopped .exhausted t) :
    Outlasts ((step fuel' (exec fuel') n).run s) (starts fuel' (exec fuel') s n)
      ((step fuel (exec fuel) n).run s) (starts fuel (exec fuel) s n) := by
  rcases Nat.le_total fuel' fuel with hle | hle
  · exact outlasts_step hle n s
  · rcases outlasts_step hle n s with ⟨hsame, hstarts⟩ | ⟨⟨t, ht⟩, -⟩
    · rw [hsame, hstarts]
      exact Outlasts.refl _ _
    · exact absurd ht (h t)

theorem step_ne_exhausted (h : ∀ t, (exec (fuel + 1) (n :: rest)).run s ≠ .stopped .exhausted t)
    (t : Interpreter) : (step fuel (exec fuel) n).run s ≠ .stopped .exhausted t := by
  intro hstep
  refine h t ?_
  rw [exec_cons, Action.run_bind, hstep]

theorem rest_ne_exhausted (h : ∀ t, (exec (fuel + 1) (n :: rest)).run s ≠ .stopped .exhausted t)
    {t : Interpreter} (hstep : (step fuel (exec fuel) n).run s = .done () t) (u : Interpreter) :
    (exec (fuel + 1) rest).run t ≠ .stopped .exhausted u := by
  intro hrest
  refine h u ?_
  rw [exec_cons, Action.run_bind, hstep]
  exact hrest

end Ended

/-- A run with enough fuel has nested no more code than there was fuel, and does not with more. -/
theorem length_ways_le {fuel fuel' : Nat} {ways : List Way} {code : Code} {s : Interpreter}
    (h : ∀ t, (exec fuel code).run s ≠ .stopped .exhausted t) {v : Visit}
    (hv : v ∈ visits fuel' ways code s) : v.ways.length ≤ ways.length + fuel := by
  induction fuel generalizing fuel' ways code s with
  | zero => exact absurd rfl (h s)
  | succ fuel ihfuel =>
    cases fuel' with
    | zero => cases hv
    | succ fuel' =>
      induction code generalizing s with
      | nil => cases hv
      | cons n rest ih =>
        have hstep := step_ne_exhausted h
        have hout := @outlasts_of_ne_exhausted fuel fuel' n s hstep
        rcases mem_visits_cons.1 hv with rfl | ⟨start, hmem, hv⟩ | ⟨t, hdone, hv⟩
        · exact Nat.le_add_right _ _
        · have hstart : ∀ u, (exec fuel start.code).run start.state ≠ .stopped .exhausted u := by
            intro u hu
            obtain ⟨t, ht⟩ := (accounts_step fuel n s).stopped start (hout.subset hmem) u hu
            exact hstep t ht
          have hlength := ihfuel hstart hv
          rw [List.length_cons] at hlength
          omega
        · exact ih (rest_ne_exhausted h (hout.eq_of_done hdone)) hv

/-! ## Code without native functions and code without conditions -/

/-- Functions that a program defines itself. -/
def Own : Function → Prop
  | .native _ _ => False
  | _ => True

theorem own_of_lookUp {s : Interpreter} (h : Every Own s.stock) {qualifier : Option Token}
    {name : String} {f : Function} (hf : lookUp s qualifier name = .ok f) : Own f := by
  obtain ⟨space, hspace⟩ := function?_of_lookUp hf
  exact h.bound space name f hspace

/-- Code that imports nothing, where nothing has been imported, calls no native function. -/
theorem not_calls_native {code : Code} {s : Interpreter} (hcode : Node.AllIn Node.Plain code)
    (hs : Discipline.plain.Holds s) (hown : Every Own s.stock) {fuel : Nat} {ways : List Way} :
    ∀ v ∈ visits fuel ways code s, ∀ f access, ¬Calls v.state v.node (.native f access) := by
  have hplain : ∀ v ∈ visits fuel ways code s, v.node.All Node.Plain := fun v hv =>
    (allowed_visits (D := .plain) (fun _ _ h => (h : False).elim) hs hcode v hv).2
  have hstock := every_visits hown fun v hv hstock => hstock.effect (fun _ _ _ _ => trivial)
    (fun _ _ _ _ _ _ _ => trivial) fun m request hnode => by
      have himport := hplain v hv
      rw [hnode] at himport
      exact himport.elim
  rintro v hv f access ⟨m, qualifier, name, -, hcallee⟩
  exact own_of_lookUp (hstock v hv) (lookUp_of_callee? hcallee).1

theorem branches_eq_zero {code : Code} {s : Interpreter} (hs : Discipline.unconditional.Holds s)
    (hcode : Discipline.unconditional.AllowsCode code) {fuel : Nat} {ways : List Way}
    (hways : ways.countP Way.isBranch = 0) : ∀ v ∈ visits fuel ways code s, v.branches = 0 := by
  have himports : ∀ m request, Discipline.unconditional.node (.importing m request) →
      Discipline.unconditional.Alike (importNames request) (importNames request) fun _ => True :=
    fun _ _ _ => Discipline.alike_importNames trivial fun _ => trivial
  refine forall_visits (I := fun ways code s => Discipline.unconditional.Holds s ∧
    Discipline.unconditional.AllowsCode code ∧ ways.countP Way.isBranch = 0) ?_ ?_ ?_
    ⟨hs, hcode, hways⟩
  · rintro ways n rest s fuel ⟨-, -, hways⟩
    exact hways
  · rintro ways n rest s fuel t ⟨hs, hcode, hways⟩ hstep
    have hends := (alike_step himports fuel hcode.1 s hs).2
    rw [hstep] at hends
    exact ⟨hends.1, hcode.2, hways⟩
  · rintro ways n rest s fuel ⟨hs, hcode, hways⟩ start hmem
    obtain ⟨hholds, hallowed, hleads⟩ :=
      leads_of_mem_starts (fun _ => alike_exec himports fuel) hs hcode.1 hmem
    refine ⟨hholds, hallowed, ?_⟩
    cases hleads with
    | @branch m form code t hstill => exact absurd rfl (hcode.1.self m form)
    | sequence | body | module => exact hways

/-! ## Whole programs -/

theorem interpret_ends_iff {scopes : ScopeTable} {p : Program NodeId} {s : Interpreter} :
    (∃ fuel, ∀ t, (interpret fuel scopes p).run s ≠ .stopped .exhausted t) ↔
      Ends p.nodes (begun scopes p s) := by
  refine exists_congr fun fuel => ?_
  rw [run_interpret]
  constructor
  · intro h t ht
    rw [ht] at h
    exact h _ rfl
  · intro h t ht
    split at ht
    · cases ht
    · next halt u hrun =>
      cases ht
      exact h u hrun

/-- **A program that never loops comes to an end exactly if its branches nest to a bounded depth.**
Calls need no bound of their own, whatever the limit on them is. -/
theorem ends_iff_branches_bounded (scopes : ScopeTable) (p : Program NodeId) (s : Interpreter)
    (hrepeat : ∀ fuel, ∀ v ∈ visited fuel scopes p s, ∀ access,
      ¬Calls v.state v.node (.native .repeated access)) :
    (∃ fuel, ∀ t, (interpret fuel scopes p).run s ≠ .stopped .exhausted t) ↔
      ∃ k, ∀ fuel, ∀ v ∈ visited fuel scopes p s, v.branches ≤ k := by
  rw [interpret_ends_iff]
  constructor
  · rintro ⟨fuel, hfuel⟩
    refine ⟨1 + fuel, fun fuel' v hv => ?_⟩
    exact Nat.le_trans List.countP_le_length (length_ways_le hfuel hv)
  · rintro ⟨k, hk⟩
    have hbounded : Bounded k [.module p.info] p.nodes (begun scopes p s) := fun fuel v hv =>
      ⟨hrepeat fuel v hv, Nat.le_trans (hk fuel v hv) (Nat.le_add_left k _)⟩
    exact ends_of_bounded hbounded

/-- What a text is read as, numbered, with its scopes, if it passes the check of scopes. -/
def loaded? (source : String) : Option (Program NodeId × ScopeTable) :=
  match Tree.ofSource "main" source with
  | .error _ => none
  | .ok p =>
    let analysis := Scope.analyse (p.number 1).1
    if analysis.failed then none else some ((p.number 1).1, analysis.table)

/-- A function that calls itself and nothing else, whatever happens. -/
def runaway : String :=
  "def f { f } f"

def isRunaway : Code → Bool
  | [.definition _ _ [.identifier _ none _], .identifier _ none _] => true
  | _ => false

/-- Runaway recursion is stopped, since there are no branches in it. -/
theorem ends_runaway : ∃ p scopes, loaded? runaway = some (p, scopes) ∧ ∀ console,
    (∀ fuel, ∀ v ∈ visited fuel scopes p (.withNatives console), ∀ access,
      ¬Calls v.state v.node (.native .repeated access)) ∧
    ∃ fuel, ∀ t, (interpret fuel scopes p).run (.withNatives console) ≠ .stopped .exhausted t := by
  have hcheck : ((loaded? runaway).any fun x => isRunaway x.1.nodes) = true := by decide +kernel
  cases hloaded : loaded? runaway with
  | none => rw [hloaded] at hcheck; cases hcheck
  | some x =>
    obtain ⟨p, scopes⟩ := x
    rw [hloaded, Option.any_some] at hcheck
    refine ⟨p, scopes, rfl, fun console => ?_⟩
    have hfresh := Fresh.withNatives console
    have hcode : Node.AllIn Node.Plain p.nodes ∧ Discipline.unconditional.AllowsCode p.nodes := by
      unfold isRunaway at hcheck
      split at hcheck
      · next hnodes =>
        rw [hnodes]
        exact ⟨⟨⟨trivial, trivial, trivial⟩, trivial, trivial⟩,
          ⟨⟨nofun, nofun, trivial⟩, nofun, trivial⟩⟩
      · cases hcheck
    have hrepeat : ∀ fuel, ∀ v ∈ visited fuel scopes p (.withNatives console), ∀ access,
        ¬Calls v.state v.node (.native .repeated access) := fun fuel v hv access =>
      not_calls_native hcode.1 (holds_begun (hfresh.holds _) scopes p)
        (every_begun (hfresh.every _) scopes p) v hv .repeated access
    refine ⟨hrepeat, (ends_iff_branches_bounded scopes p _ hrepeat).2 ⟨0, fun fuel v hv => ?_⟩⟩
    exact Nat.le_of_eq (branches_eq_zero (holds_begun (hfresh.holds _) scopes p) hcode.2 rfl v hv)

/-! ## Branches without end -/

/-- A sequence that comes to itself again, in the branch of a condition. -/
def endless : String :=
  "{ true s ?? } let s true s ??"

/-- Code that chooses what `s` stands for as its branch. -/
def choosing (m m' m'' : Mark NodeId) : Code :=
  [.literal m (.boolean true), .identifier m' none "s", .condition m'' .single]

theorem run_branch_single (lexeme : String) (block : NodeId) (body : Code) (s : Interpreter) :
    (branch lexeme .single).run
      { s with stack := (s.stack.push (.boolean true)).push (.sequence ⟨block, body⟩) } =
      .done (some body) s := rfl

/-- If `s` stands for code that chooses `s`, there is no end to it. -/
theorem exec_choosing {s : Interpreter} {m m' m'' : Mark NodeId} {block : NodeId}
    {home : NamespaceId} (hscopes : s.scopes.names = [])
    (hs : lookUp s none "s" = .ok (.constant (.sequence ⟨block, choosing m m' m''⟩) home))
    (hdepth : s.depth < s.maxDepth) (fuel : Nat) (k k' k'' : Mark NodeId) :
    ∃ t, (exec fuel (choosing k k' k'')).run s = .stopped .exhausted t := by
  induction fuel generalizing k k' k'' with
  | zero => exact ⟨s, rfl⟩
  | succ fuel ih =>
    obtain ⟨t, ht⟩ := ih m m' m''
    let u : Interpreter := { s with stack := s.stack.push (.boolean true) }
    have hpush : (node fuel (exec fuel) (.literal k (.boolean true))).run s = .done () u := rfl
    have hname : u.scopes.nameOf k'.tag "s" = "s" := by
      show (s.scopes.names.lookup k'.tag).getD "s" = "s"
      rw [hscopes]
      rfl
    have hu : lookUp u none (u.scopes.nameOf k'.tag "s") =
        .ok (.constant (.sequence ⟨block, choosing m m' m''⟩) home) := by
      rw [hname]
      exact hs
    have hcall : (node fuel (exec fuel) (.identifier k' none "s")).run u =
        .done () { u with stack := u.stack.push (.sequence ⟨block, choosing m m' m''⟩) } := by
      have hroom : ¬u.maxDepth ≤ u.depth := Nat.not_le.2 hdepth
      rw [run_constant hu, if_neg hroom]
    have hbranch : (node fuel (exec fuel) (.condition k'' .single)).run
        { u with stack := u.stack.push (.sequence ⟨block, choosing m m' m''⟩) } =
          .stopped .exhausted t := by
      rw [node, condition_eq, Action.run_bind, run_branch_single]
      exact ht
    refine ⟨t, ?_⟩
    unfold choosing
    rw [exec_cons, Action.run_bind, step_of_done hpush]
    dsimp only
    rw [exec_cons, Action.run_bind, step_of_done hcall]
    dsimp only
    rw [exec_cons, Action.run_bind]
    unfold step onFailure
    dsimp only
    rw [hbranch]

/-- A sequence that chooses `s` is bound to `s` and then chosen. -/
def isEndless : Code → Bool
  | [.sequence _ _ [.literal _ (.boolean true), .identifier _ none first, .condition _ .single],
      .binding _ second _, .literal _ (.boolean true), .identifier _ none third,
      .condition _ .single] => first == "s" && second == "s" && third == "s"
  | _ => false

theorem exists_of_isEndless {code : Code} (h : isEndless code = true) :
    ∃ k block m m' m'' j isPublic l l' l'',
      code = .sequence k block (choosing m m' m'') :: .binding j "s" isPublic :: choosing l l' l'' := by
  unfold isEndless at h
  split at h
  · next k block m m' first m'' j second isPublic l l' third l'' =>
    simp only [Bool.and_eq_true, beq_iff_eq] at h
    obtain ⟨⟨rfl, rfl⟩, rfl⟩ := h
    exact ⟨k, block, m, m', m'', j, isPublic, l, l', l'', rfl⟩
  · cases h

theorem exec_endless {code : Code} (hcode : isEndless code = true) {s : Interpreter}
    (hscopes : s.scopes.names = []) (hcurrent : s.current < s.spaces.spaces.size)
    (hdepth : s.depth < s.maxDepth) (fuel : Nat) :
    ∃ t, (exec fuel code).run s = .stopped .exhausted t := by
  cases fuel with
  | zero => exact ⟨s, rfl⟩
  | succ fuel =>
    obtain ⟨k, block, m, m', m'', j, isPublic, l, l', l'', rfl⟩ := exists_of_isEndless hcode
    let value : Value := .sequence ⟨block, choosing m m' m''⟩
    let u : Interpreter := { s with stack := s.stack.push value }
    have hpush : (node fuel (exec fuel) (.sequence k block (choosing m m' m''))).run s =
        .done () u := rfl
    have hname : u.scopes.nameOf j.tag "s" = "s" := by
      show (s.scopes.names.lookup j.tag).getD "s" = "s"
      rw [hscopes]
      rfl
    let w : Interpreter :=
      { s with spaces := s.spaces.define s.current "s" (.function (.constant value s.current)) isPublic }
    have hbind : (node fuel (exec fuel) (.binding j "s" isPublic)).run u = .done () w := by
      rw [node, run_bindValue, hname]
      rfl
    have hw : lookUp w none "s" = .ok (.constant value s.current) := by
      refine lookUp_of_bound ?_
      rw [Namespace.function?_eq_some_iff]
      show ((s.spaces.define _ _ _ _).get s.current).get? "s" = _
      rw [Namespaces.get_define_self _ hcurrent, Namespace.get?_define]
      rfl
    obtain ⟨t, ht⟩ := exec_choosing (s := w) hscopes hw hdepth (fuel + 1) l l' l''
    refine ⟨t, ?_⟩
    rw [exec_cons, Action.run_bind, step_of_done hpush]
    dsimp only
    rw [exec_cons, Action.run_bind, step_of_done hbind]
    exact ht

/-- **Branches can nest without end**: this program imports nothing and so never loops, and calls do
not nest in it at all, but no fuel is enough for it. -/
theorem not_ends_endless : ∃ p scopes, loaded? endless = some (p, scopes) ∧ ∀ console,
    (∀ fuel, ∀ v ∈ visited fuel scopes p (.withNatives console), ∀ f access,
      ¬Calls v.state v.node (.native f access)) ∧
    ∀ fuel, ∃ t, (interpret fuel scopes p).run (.withNatives console) = .stopped .exhausted t := by
  have hcheck : ((loaded? endless).any fun x =>
      x.1.info.isRoot && x.2.names.isEmpty && isEndless x.1.nodes) = true := by decide +kernel
  cases hloaded : loaded? endless with
  | none => rw [hloaded] at hcheck; cases hcheck
  | some x =>
    obtain ⟨p, scopes⟩ := x
    rw [hloaded, Option.any_some, Bool.and_eq_true, Bool.and_eq_true, List.isEmpty_iff] at hcheck
    obtain ⟨⟨hroot, hnames⟩, hshape⟩ := hcheck
    refine ⟨p, scopes, rfl, fun console => ⟨fun fuel => ?_, fun fuel => ?_⟩⟩
    · have hplain : Node.AllIn Node.Plain p.nodes := by
        obtain ⟨k, block, m, m', m'', j, isPublic, l, l', l'', hnodes⟩ := exists_of_isEndless hshape
        rw [hnodes]
        exact ⟨⟨trivial, trivial, trivial, trivial, trivial⟩, trivial, trivial, trivial, trivial,
          trivial⟩
      have hfresh := Fresh.withNatives console
      exact not_calls_native hplain (holds_begun (hfresh.holds .plain) scopes p)
        (every_begun (hfresh.every Own) scopes p)
    · have hbegun : begun scopes p (.withNatives console) =
          { Interpreter.withNatives console with
            scopes := ({} : ScopeTable).extend scopes
            file := p.info.file.or none } := if_pos hroot
      have hextend : (({} : ScopeTable).extend scopes).names = [] := by
        show scopes.names ++ [] = []
        rw [hnames]
        rfl
      have hlimit : 0 < defaultMaxDepth := by decide
      obtain ⟨t, ht⟩ := exec_endless hshape (s := begun scopes p (.withNatives console))
        (by rw [hbegun]; exact hextend) (by rw [hbegun]; exact Nat.zero_lt_one)
        (by rw [hbegun]; exact hlimit) fuel
      rw [run_interpret, ht]
      exact ⟨_, rfl⟩

end Evaluation

end Catena

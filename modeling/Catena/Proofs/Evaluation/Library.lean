import Catena.Proofs.Evaluation.Discipline
import Catena.Proofs.TypedArray

/-!
# The native functions keep to every discipline

One lemma for each native function, built like the function from the rules for its steps. The
functions that run code are compared under two meanings of code, `run` and `run'`, that are alike on
allowed code; the others are compared with themselves.
-/

namespace Catena.Discipline

open Catena.Eval

variable {D : Discipline} {access : Access} {run run' : Code → Eval Unit}

theorem alike_write (text : String) :
    D.Alike (Library.write access text) (Library.write access text) fun _ => True :=
  Alike.ite (fun _ => Alike.onConsole fun _ => D.error_of fun _ => nofun)
    fun _ => Alike.fail (D.error_of fun _ => nofun)

theorem alike_readLine :
    D.Alike (Library.readLine access) (Library.readLine access) fun _ => True :=
  Alike.ite
    (fun _ => Alike.bind (Alike.onConsole fun _ => D.error_of fun _ => nofun)
      fun _ _ => Alike.pure trivial)
    fun _ => Alike.fail (D.error_of fun _ => nofun)

theorem alike_dup : D.Alike Library.dup Library.dup fun _ => True :=
  Alike.bind Alike.pop fun _ htop =>
    Alike.bind (Alike.push htop) fun _ _ => Alike.push htop

theorem alike_dup2 : D.Alike Library.dup2 Library.dup2 fun _ => True :=
  Alike.bind Alike.pop fun _ htop => Alike.bind Alike.pop fun _ hsecond =>
    Alike.bind (Alike.push hsecond) fun _ _ => Alike.bind (Alike.push htop) fun _ _ =>
      Alike.bind (Alike.push hsecond) fun _ _ => Alike.push htop

theorem alike_discard : D.Alike Library.discard Library.discard fun _ => True :=
  Alike.bind Alike.pop fun _ _ => Alike.pure trivial

theorem alike_swap : D.Alike Library.swap Library.swap fun _ => True :=
  Alike.bind Alike.pop fun _ ha => Alike.bind Alike.pop fun _ hb =>
    Alike.bind (Alike.push ha) fun _ _ => Alike.push hb

theorem alike_rotate : D.Alike Library.rotate Library.rotate fun _ => True :=
  Alike.bind Alike.pop fun _ ha => Alike.bind Alike.pop fun _ hb => Alike.bind Alike.pop fun _ hc =>
    Alike.bind (Alike.push hb) fun _ _ => Alike.bind (Alike.push ha) fun _ _ => Alike.push hc

theorem alike_print (ending : String) :
    D.Alike (Library.print access ending) (Library.print access ending) fun _ => True :=
  Alike.bind Alike.pop fun _ _ => alike_write _

theorem alike_ask : D.Alike (Library.ask access) (Library.ask access) fun _ => True :=
  Alike.bind Alike.popString fun _ _ => Alike.bind (alike_write _) fun _ _ => alike_readLine

theorem alike_inputNumber :
    D.Alike (Library.inputNumber access) (Library.inputNumber access) fun _ => True := by
  refine Alike.bind alike_ask fun line _ => ?_
  split
  · exact Alike.push trivial
  · exact Alike.fail (D.error_of fun _ => nofun)

theorem alike_inputString :
    D.Alike (Library.inputString access) (Library.inputString access) fun _ => True :=
  Alike.bind alike_ask fun _ _ => Alike.push trivial

/-! ## Functions that run code -/

section Code

variable (hrun : ∀ code, D.AllowsCode code → D.Alike (run code) (run' code) fun _ => True)

include hrun in
theorem alike_exec : D.Alike (Library.exec run) (Library.exec run') fun _ => True :=
  Alike.bind Alike.popSequence fun sequence hbody => hrun sequence.body hbody

/-- Rounds that are alike stay so however many there are. -/
theorem alike_rounds {round round' : Eval Unit} (h : D.Alike round round' fun _ => True)
    (limit : Nat) (times : Float) :
    D.Alike (Library.rounds round limit times) (Library.rounds round' limit times)
      fun _ => True := by
  induction limit generalizing times with
  | zero =>
    unfold Library.rounds
    exact Alike.ite (fun _ => Alike.exhausted) fun _ => Alike.pure trivial
  | succ limit ih =>
    unfold Library.rounds
    refine Alike.ite (fun _ => ?_) fun _ => Alike.pure trivial
    exact Alike.bind h fun _ _ => ih (times - 1.0)

include hrun in
theorem alike_repeated (limit : Nat) :
    D.Alike (Library.repeated limit run) (Library.repeated limit run') fun _ => True :=
  Alike.bind Alike.popSequence fun sequence hbody => Alike.bind Alike.popNumber fun times _ =>
    alike_rounds (hrun sequence.body hbody) limit times

theorem alike_set {array : TypedArray} (harray : D.array array) (index : Nat) (value : Value) :
    D.Alike (Eval.demand (array.set index value)) (Eval.demand (array.set index value)) D.array := by
  refine Alike.demand (fun b => D.array_set harray) ?_
  intro e he
  rw [TypedArray.set_error he]
  exact D.error_of fun _ => nofun

theorem alike_mapItems {code code' : Eval Unit} (h : D.Alike code code' fun _ => True)
    (items : List Literal) (array : TypedArray) (harray : D.array array) (index : Nat) :
    D.Alike (Library.mapItems code array index items) (Library.mapItems code' array index items)
      D.array := by
  induction items generalizing array index with
  | nil => exact Alike.pure harray
  | cons item rest ih =>
    unfold Library.mapItems
    refine Alike.bind (Alike.push trivial) fun _ _ => Alike.bind h fun _ _ =>
      Alike.bind Alike.pop fun mapped _ => ?_
    exact Alike.bind (alike_set harray index mapped) fun b hb => ih b hb (index + 1)

include hrun in
theorem alike_arrayMap :
    D.Alike (Library.arrayMap run) (Library.arrayMap run') fun _ => True :=
  Alike.bind Alike.popSequence fun sequence hbody => Alike.bind Alike.popArray fun array harray =>
    Alike.bind (alike_mapItems (hrun sequence.body hbody) array.items.toList array harray 0)
      fun _ hmapped => Alike.push hmapped

end Code

/-! ## Sequences, arrays and text -/

/-- A curried node pushes what the value was, so it is allowed if the value is. -/
theorem allowsCode_pushing {id : NodeId} {value : Value} {node : Node NodeId}
    (h : Library.pushing id value = .ok node) (hvalue : D.AllowsValue value) :
    node.All D.node := by
  cases value with
  | sequence s => cases h; exact ⟨D.node_sequence _ _ _, hvalue⟩
  | array a => cases h; exact D.node_array _ hvalue
  | literal l => cases h; exact D.node_literal _ _

theorem alike_curry : D.Alike Library.curry Library.curry fun _ => True := by
  refine Alike.bind Alike.popSequence fun sequence hbody => Alike.bind Alike.pop fun value hvalue =>
    Alike.bind Alike.freshId fun id _ => ?_
  refine Alike.bind (Q := Node.All D.node)
    (Alike.demand (fun node hnode => allowsCode_pushing hnode hvalue) ?_) fun node hnode =>
      Alike.push ⟨hnode, hbody⟩
  intro e he
  refine D.error_of ?_
  cases value with
  | sequence s => cases he
  | array a => cases he
  | literal l => cases he

theorem alike_arrayLength : D.Alike Library.arrayLength Library.arrayLength fun _ => True :=
  Alike.bind Alike.pop fun _ hvalue => Alike.bind (Alike.push hvalue) fun _ _ => Alike.push trivial

theorem alike_arrayPush : D.Alike Library.arrayPush Library.arrayPush fun _ => True := by
  refine Alike.bind Alike.pop fun value _ => Alike.bind Alike.popArray fun array harray => ?_
  refine Alike.bind (Q := D.array) (Alike.demand (fun b => D.array_push harray) ?_)
    fun _ hb => Alike.push hb
  intro e he
  refine D.error_of ?_
  obtain rfl | ⟨found, rfl⟩ := TypedArray.push_error he <;> exact fun _ => nofun

theorem alike_arrayPop : D.Alike Library.arrayPop Library.arrayPop fun _ => True := by
  refine Alike.bind Alike.popArray fun array harray => ?_
  have rest : D.array array.pop.2 := D.array_pop harray
  split
  · next item a h =>
    rw [h] at rest
    have hitem : D.AllowsValue item := by
      have hitem := congrArg Prod.fst h
      obtain ⟨l, -, rfl⟩ := Option.map_eq_some_iff.1 hitem
      exact trivial
    exact Alike.bind (Alike.push rest) fun _ _ => Alike.push hitem
  · next a h =>
    rw [h] at rest
    exact Alike.bind (Alike.push rest) fun _ _ => Alike.fail (D.error_of fun _ => nofun)

theorem alike_changeString (f : String → String) :
    D.Alike (Library.changeString f) (Library.changeString f) fun _ => True :=
  Alike.bind Alike.popString fun _ _ => Alike.push trivial

theorem mem_of_fill {index : Nat} {template text : List Char} {values rest : List Value}
    (h : Library.fill index template values = some (text, rest)) : ∀ v ∈ rest, v ∈ values := by
  induction values generalizing index template with
  | nil =>
    unfold Library.fill at h
    split at h
    · cases h
    · cases h; exact fun v hv => hv
  | cons value values ih =>
    unfold Library.fill at h
    split at h
    · exact fun v hv => List.mem_cons_of_mem _ (ih h v hv)
    · cases h; exact fun v hv => hv

theorem allowsStackOp_formatTop : D.AllowsStackOp Library.formatTop D.AllowsValue := by
  intro stack hv
  unfold Library.formatTop
  split
  · exact ⟨hv, by simp, fun e he => by cases he; exact D.error_of fun _ => nofun⟩
  · next template values h =>
    rw [h] at hv
    split
    · next text rest hfill =>
      refine ⟨fun v h => hv v (List.mem_cons_of_mem _ (mem_of_fill hfill v h)), ?_, by simp⟩
      intro value hvalue
      cases hvalue
      exact trivial
    · exact ⟨by simp, by simp, fun e he => by cases he; exact D.error_of fun _ => nofun⟩

theorem alike_format : D.Alike Library.format Library.format fun _ => True :=
  Alike.bind (Alike.onStack allowsStackOp_formatTop) fun _ hvalue => Alike.push hvalue

theorem alike_draw : D.Alike Library.draw Library.draw fun _ => True :=
  fun _ hs =>
    ⟨rfl, hs.of_eq rfl rfl rfl, .of_eq rfl rfl rfl rfl rfl rfl (.refl _), trivial⟩

theorem alike_random : D.Alike Library.random Library.random fun _ => True :=
  Alike.bind Alike.popNumber fun _ _ => Alike.bind Alike.popNumber fun _ _ =>
    Alike.bind alike_draw fun _ _ => Alike.push trivial

theorem alike_floor : D.Alike Library.floor Library.floor fun _ => True :=
  Alike.bind Alike.popNumber fun _ _ => Alike.push trivial

theorem alike_printStack :
    D.Alike (Library.printStack access) (Library.printStack access) fun _ => True :=
  Alike.bind Alike.state fun _ _ => alike_write _

theorem alike_printArray :
    D.Alike (Library.printArray access) (Library.printArray access) fun _ => True :=
  Alike.bind Alike.state fun _ _ => alike_write _

/-- Every native function keeps to the discipline. -/
theorem alike_native (limit : Nat)
    (hrun : ∀ code, D.AllowsCode code → D.Alike (run code) (run' code) fun _ => True)
    (f : Native) :
    D.Alike (Library.perform limit run access f) (Library.perform limit run' access f)
      fun _ => True := by
  cases f with
  | dup => exact alike_dup
  | dup2 => exact alike_dup2
  | discard => exact alike_discard
  | swap => exact alike_swap
  | rotate => exact alike_rotate
  | print => exact alike_print ""
  | println => exact alike_print "\n"
  | inputNumber => exact alike_inputNumber
  | inputString => exact alike_inputString
  | exec => exact alike_exec hrun
  | repeated => exact alike_repeated hrun limit
  | curry => exact alike_curry
  | arrayLength => exact alike_arrayLength
  | arrayPush => exact alike_arrayPush
  | arrayPop => exact alike_arrayPop
  | arrayMap => exact alike_arrayMap hrun
  | lower => exact alike_changeString Text.toLower
  | upper => exact alike_changeString Text.toUpper
  | reverse => exact alike_changeString Library.reverseText
  | format => exact alike_format
  | random => exact alike_random
  | floor => exact alike_floor
  | printStack => exact alike_printStack
  | printArray => exact alike_printArray

end Catena.Discipline

import Catena.Proofs.Evaluation.Contracts
import Catena.Proofs.Tree.Heads

/-!
# Signatures mean what they say

The types of a signature are written in the order in which the values are pushed, the parser turns them
round, and the check before and after a call goes through the stack from the top. Together these give
back the written order: a stack is accepted if its last values, the oldest first, have the written
types (`Stack.endsWith_iff`). So a call of a function that was read from a text runs the body exactly on
the stacks that end as the text asks for, and succeeds exactly if the body leaves such a stack
(`signatures_mean`).
-/

namespace Catena

open Catena.Eval

namespace Stack

/-- The last values of a stack, the oldest first, have the given types, where each value has the type
`any`. -/
def EndsWith (s : Stack) (types : List ValueType) : Prop :=
  ∃ below last, s.items.reverse = below ++ last ∧
    List.Forall₂ (fun type value => type = .any ∨ value.type = type) types last

theorem accepts_iff {expected : ValueType} {value : Value} :
    expected.accepts value.type = true ↔ expected = .any ∨ value.type = expected := by
  rw [ValueType.accepts, Bool.or_eq_true, beq_iff_eq, beq_iff_eq]
  exact or_congr_right eq_comm

/-- The types at the top, the top first, as a part of the stack. -/
theorem meets_iff_append {types : List ValueType} {values : List Value} :
    Meets types values ↔ ∃ top below, values = top ++ below ∧
      List.Forall₂ (fun type value => type = .any ∨ value.type = type) types top := by
  constructor
  · intro h
    induction h with
    | nil values => exact ⟨[], values, rfl, .nil⟩
    | cons haccepts _ ih =>
      obtain ⟨top, below, rfl, htypes⟩ := ih
      exact ⟨_ :: top, below, rfl, .cons (accepts_iff.1 haccepts) htypes⟩
  · rintro ⟨top, below, rfl, htypes⟩
    induction htypes with
    | nil => exact .nil _
    | cons hvalue _ ih => exact .cons (accepts_iff.2 hvalue) ih

/-- From the top down the types are those of the last values in reverse. -/
theorem endsWith_iff {s : Stack} {types : List ValueType} :
    s.EndsWith types ↔ Meets types.reverse s.items := by
  rw [meets_iff_append]
  constructor
  · rintro ⟨below, last, hitems, htypes⟩
    refine ⟨last.reverse, below.reverse, ?_, List.forall₂_reverse_iff.2 htypes⟩
    rw [← List.reverse_append, ← hitems, List.reverse_reverse]
  · rintro ⟨top, below, hitems, htypes⟩
    refine ⟨below.reverse, top.reverse, ?_, ?_⟩
    · rw [hitems, List.reverse_append]
    · rw [← List.reverse_reverse types]
      exact List.forall₂_reverse_iff.2 htypes

end Stack

namespace Evaluation

/-! ## Calls -/

section Calls

variable {limit : Nat} {run : Code → Eval Unit} {s t : Interpreter} {m : Mark NodeId}
  {qualifier : Option Token} {name : String} {f : Function}

theorem step_of_invoked (hf : lookUp s qualifier (s.scopes.nameOf m.tag name) = .ok f)
    (h : (invoke limit run f m.token.lexeme).run s = .done () t) :
    (step limit run (.identifier m qualifier name)).run s = .done () t := by
  refine step_of_done ?_
  rw [node, run_callName, hf]
  unfold onFailure
  dsimp only
  rw [h]

theorem step_of_refused {d : Diagnostic} (hf : lookUp s qualifier (s.scopes.nameOf m.tag name) = .ok f)
    (h : (invoke limit run f m.token.lexeme).run s = .stopped (.failed d) t) :
    ∃ d', (step limit run (.identifier m qualifier name)).run s = .stopped (.failed d') t := by
  unfold step onFailure
  dsimp only
  rw [node, run_callName, hf]
  unfold onFailure
  dsimp only
  rw [h]
  exact ⟨_, rfl⟩

end Calls

theorem stack_leave (f : Function) (s t : Interpreter) : (leave f s t).stack = t.stack := by
  unfold leave
  split <;> rfl

/-- What a call of `d` does if it may be entered: with `pre` at the end of the stack it runs the body,
and if that leaves `post` at the end of the stack it succeeds with what the body leaves. Otherwise it
fails, at once or after the body. -/
structure Honours (d : Definition) (pre post : List ValueType) (fuel : Nat) (s : Interpreter)
    (call : Node NodeId) : Prop where
  runs : s.stack.EndsWith pre →
    starts fuel (exec fuel) s call = [⟨.body d, d.body, enter (.defined d) s⟩]
  refuses : ¬ s.stack.EndsWith pre → starts fuel (exec fuel) s call = [] ∧
    ∃ cause, (step fuel (exec fuel) call).run s = .stopped (.failed cause) s
  succeeds : ∀ t, s.stack.EndsWith pre → (exec fuel d.body).run (enter (.defined d) s) = .done () t →
    t.stack.EndsWith post → ∃ u, (step fuel (exec fuel) call).run s = .done () u ∧ u.stack = t.stack
  fails : ∀ t, s.stack.EndsWith pre → (exec fuel d.body).run (enter (.defined d) s) = .done () t →
    ¬ t.stack.EndsWith post → ∃ cause u, (step fuel (exec fuel) call).run s = .stopped (.failed cause) u

section Honours

variable {d : Definition} {pre post : List ValueType} {s : Interpreter} {m : Mark NodeId}
  {qualifier : Option Token} {name : String}

/-- How a call of a definition ends, if it may be entered. -/
theorem run_invoke_defined (hdepth : s.depth < s.maxDepth) (fuel : Nat) (lexeme : String) :
    (invoke fuel (exec fuel) (.defined d) lexeme).run s =
      match s.stack.requireShape .pre d.pre lexeme with
      | .error e => .stopped (.failed (Diagnostic.ofRuntime e)) s
      | .ok _ => goOn (fun _ => requireShape .post d.post lexeme)
          (moved (leave (.defined d) s) ((exec fuel d.body).run (enter (.defined d) s))) := by
  rw [run_invoke, if_neg (Nat.not_le.2 hdepth)]
  rfl

theorem honours_of_reverse (hpre : d.pre = pre.reverse) (hpost : d.post = post.reverse)
    (hf : lookUp s qualifier (s.scopes.nameOf m.tag name) = .ok (.defined d))
    (hdepth : s.depth < s.maxDepth) (fuel : Nat) :
    Honours d pre post fuel s (.identifier m qualifier name) := by
  have hcheck : ∀ {stack : Stack} {check : Check} {types : List ValueType},
      stack.requireShape check types.reverse m.token.lexeme = .ok () ↔ stack.EndsWith types :=
    Stack.requireShape_eq_ok_iff.trans Stack.endsWith_iff.symm
  have hcallee := callee?_eq hf
  rw [show (Function.defined d).pre = pre.reverse from hpre, if_neg (Nat.not_le.2 hdepth)] at hcallee
  have hinvoke := run_invoke_defined (d := d) hdepth fuel m.token.lexeme
  rw [hpre, hpost] at hinvoke
  -- once the body has come to its end only the second check is left
  have hafter : ∀ t : Interpreter, s.stack.EndsWith pre →
      (exec fuel d.body).run (enter (.defined d) s) = .done () t →
      (invoke fuel (exec fuel) (.defined d) m.token.lexeme).run s =
        (requireShape .post post.reverse m.token.lexeme).run (leave (.defined d) s t) := by
    intro t hends hbody
    rw [hinvoke, hcheck.2 hends, hbody]
    rfl
  refine ⟨fun hends => ?_, fun hends => ?_, fun t hends hbody hleft => ?_,
    fun t hends hbody hleft => ?_⟩
  · rw [hcheck.2 hends] at hcallee
    rw [starts_identifier, hcallee]
    rfl
  · cases hshape : s.stack.requireShape .pre pre.reverse m.token.lexeme with
    | ok _ => exact absurd (hcheck.1 hshape) hends
    | error e =>
      rw [hshape] at hcallee hinvoke
      refine ⟨?_, step_of_refused hf hinvoke⟩
      rw [starts_identifier, hcallee]
      rfl
  · have hdone := hafter t hends hbody
    rw [run_requireShape, stack_leave, hcheck.2 hleft] at hdone
    exact ⟨_, step_of_invoked hf hdone, stack_leave _ _ _⟩
  · have hfailed := hafter t hends hbody
    cases hshape : t.stack.requireShape .post post.reverse m.token.lexeme with
    | ok _ => exact absurd (hcheck.1 hshape) hleft
    | error e =>
      rw [run_requireShape, stack_leave, hshape] at hfailed
      obtain ⟨cause, hstep⟩ := step_of_refused hf hfailed
      exact ⟨cause, _, hstep⟩

end Honours

/-- **Signatures mean what they say.** Take a text that can be read and a definition in it, however
deep. Its head stands in the text, with the name that the definition is reported at. When the definition is evaluated, its name is bound to a function
which every call honours: the call runs the body if the stack ends with the types that the head writes
before the arrow, and is refused otherwise, with nothing changed; it succeeds if the body leaves a stack
that ends with the types written after the arrow, with that stack, and fails otherwise. -/
theorem signatures_mean {name source : String} {p : Program Unit}
    (hread : Tree.ofSource name source = .ok p) :
    ∃ scanned, Source.scan source = .ok scanned ∧
      Node.AllIn (fun n => ∀ mark signature body, n = .definition mark signature body →
        ∃ head : Tree.FunctionHead, head.tokens <:+: scanned.tokens ∧
          mark.token = head.name.token ∧ signature = head.signature ∧
          ∀ (k : NodeId) (limit : Nat) (run : Code → Eval Unit) (s t : Interpreter),
            (node limit run (n.number k).1).run s = .done () t →
            ∃ d : Definition,
              d.body = (Node.numberAll k body).1 ∧
              t = { s with
                spaces := s.spaces.define s.current head.name.token.lexeme (.function (.defined d))
                  head.visibility.isSome } ∧
              ∀ (fuel : Nat) (u : Interpreter) (m : Mark NodeId) (qualifier : Option Token)
                (used : String), lookUp u qualifier (u.scopes.nameOf m.tag used) = .ok (.defined d) →
                u.depth < u.maxDepth →
                Honours d head.pre head.post fuel u (.identifier m qualifier used)) p.nodes := by
  obtain ⟨scanned, hscan, hheaded⟩ := Tree.allIn_headed_of_ofSource hread
  refine ⟨scanned, hscan, hheaded.mono fun n hn => ?_⟩
  rintro mark signature body rfl
  obtain ⟨head, htokens, hname, rfl⟩ := hn mark signature body rfl
  refine ⟨head, htokens, hname, rfl, fun k limit run s t hdone => ?_⟩
  rw [Node.number, node, run_defineFunction] at hdone
  split at hdone
  · cases hdone
  · cases hdone
    refine ⟨_, rfl, rfl, fun fuel u m qualifier used hf hdepth => ?_⟩
    exact honours_of_reverse head.signature_pre head.signature_post hf hdepth fuel

/-- A function of a number and a string, in this order. -/
def mixed : String :=
  "def f (num, str -> bool) \x7b \x7d"

/-- Whether the text is one definition of `f` with the types of a stack that ends with a number and a
string. -/
def isMixed : List (Node Unit) → Bool
  | [.definition _ signature _] =>
    signature.name == "f" && signature.pre == [.string, .number] && signature.post == [.boolean]
  | _ => false

/-- A number below a string is accepted, a string below a number is not. -/
theorem signatures_mean_mixed :
    ∃ (p : Program Unit) (d : Definition) (s : Interpreter) (call : Node NodeId),
      Tree.ofSource "main" mixed = .ok p ∧
      (s.spaces.get 0).function? "f" = some (.defined d) ∧ ∀ fuel a b,
      starts fuel (exec fuel) { s with stack := ⟨[.string a, .number b]⟩ } call =
        [⟨.body d, d.body, enter (.defined d) { s with stack := ⟨[.string a, .number b]⟩ }⟩] ∧
      starts fuel (exec fuel) { s with stack := ⟨[.number b, .string a]⟩ } call = [] := by
  have hany : ((Tree.ofSource "main" mixed).toOption.any fun p => isMixed p.nodes) = true := by
    decide +kernel
  obtain ⟨p, hread, hcheck⟩ := Tree.exists_of_any_ofSource hany
  obtain ⟨scanned, -, hnodes⟩ := signatures_mean hread
  unfold isMixed at hcheck
  split at hcheck
  · next mark signature body hdefinition =>
    simp only [Bool.and_eq_true, beq_iff_eq] at hcheck
    obtain ⟨⟨-, hpre⟩, -⟩ := hcheck
    rw [hdefinition] at hnodes
    obtain ⟨head, -, -, rfl, hmeans⟩ := hnodes.1.1 mark signature body rfl
    have hwritten : head.pre = [.number, .string] := by
      rw [← List.reverse_inj, ← head.signature_pre, hpre]
      rfl
    obtain ⟨d, -, -, hcalls⟩ := hmeans 0 0 (fun _ => pure ()) {} _ rfl
    rw [hwritten] at hcalls
    have hdepth : 0 < defaultMaxDepth := by decide
    let s : Interpreter :=
      { spaces := { spaces := #[Namespace.define {} "f" (.function (.defined d)) false] } }
    refine ⟨p, d, s, .identifier ⟨0, head.name.token⟩ none "f", hread, rfl,
      fun fuel a b => ⟨?_, ?_⟩⟩
    · refine (hcalls fuel _ _ none "f" rfl hdepth).runs ?_
      exact ⟨[], [.number b, .string a], rfl, .cons (.inr rfl) (.cons (.inr rfl) .nil)⟩
    · refine ((hcalls fuel _ _ none "f" rfl hdepth).refuses ?_).1
      rw [Stack.endsWith_iff]
      rintro (_ | ⟨haccepts, -⟩)
      cases haccepts
  · cases hcheck

end Evaluation

end Catena

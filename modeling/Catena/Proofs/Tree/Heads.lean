import Catena.Proofs.Tree.Naming

/-!
# Where definitions and imports come from

Nodes that were read come from parts of their text. For definitions this is the head of a function
(`Tree.allIn_headed_of_ofSource`): they have the name that stands there, they are public if the word
stands there, and their conditions are the types that stand there, in reverse. For imports it is a
request (`Tree.allIn_requested_of_ofSource`).
-/

namespace Catena

namespace Tree

/-- The types in the order in which they are written. -/
def Types.written : Types → List ValueType
  | void _ => []
  | list types => types.items.map (·.value)

theorem Types.conditions_eq (types : Types) : types.conditions = types.written.reverse := by
  cases types <;> rfl

/-- The head of a function, as it stands in a text. -/
structure FunctionHead where
  visibility : Option (Reserved .publicWord)
  word : Reserved .defWord
  name : Ident
  conditions : Option Conditions
  brace : Punct .leftBrace

namespace FunctionHead

def head (f : FunctionHead) : Head :=
  .function f.visibility f.word f.name f.conditions f.brace

def tokens (f : FunctionHead) : List Token :=
  f.head.tokens

def signature (f : FunctionHead) : Signature :=
  Tree.signature f.name f.visibility.isSome f.conditions

/-- The types that are written before the arrow; conditions that are left out have none. -/
def pre (f : FunctionHead) : List ValueType :=
  (f.conditions.map (·.pre.written)).getD []

/-- The types that are written after the arrow. -/
def post (f : FunctionHead) : List ValueType :=
  (f.conditions.map (·.post.written)).getD []

theorem signature_pre (f : FunctionHead) : f.signature.pre = f.pre.reverse := by
  obtain ⟨visibility, word, name, conditions, brace⟩ := f
  cases conditions with
  | none => rfl
  | some c => exact c.pre.conditions_eq

theorem signature_post (f : FunctionHead) : f.signature.post = f.post.reverse := by
  obtain ⟨visibility, word, name, conditions, brace⟩ := f
  cases conditions with
  | none => rfl
  | some c => exact c.post.conditions_eq

end FunctionHead

/-! ## Definitions and imports -/

/-- A text that passes a check of its tree can be read. -/
theorem exists_of_any_ofSource {name source : String} {check : List (Node Unit) → Bool}
    (h : ((ofSource name source).toOption.any fun p => check p.nodes) = true) :
    ∃ p, ofSource name source = .ok p ∧ check p.nodes = true := by
  cases hread : ofSource name source with
  | error errors =>
    rw [hread] at h
    cases h
  | ok p =>
    rw [hread] at h
    exact ⟨p, rfl, h⟩

/-- A node is no definition, or its head stands among the tokens. -/
def Headed {ι : Type} (tokens : List Token) (node : Node ι) : Prop :=
  ∀ m signature body, node = .definition m signature body →
    ∃ f : FunctionHead, f.tokens <:+: tokens ∧ m.token = f.name.token ∧ signature = f.signature

/-- **Every definition that was read has its head in the text.** -/
theorem allIn_headed_of_ofSource {name source : String} {p : Program Unit}
    (h : ofSource name source = .ok p) :
    ∃ scanned, Source.scan source = .ok scanned ∧ Node.AllIn (Headed scanned.tokens) p.nodes := by
  refine allIn_of_ofSource h (fun tokens p _ => ?_) fun tokens head body hhead => ?_
  · intro m signature code hdefinition
    cases p <;> cases hdefinition
  · intro m signature code hdefinition
    cases head with
    | sequence brace => cases hdefinition
    | function visibility word name conditions brace =>
      cases hdefinition
      exact ⟨⟨visibility, word, name, conditions, brace⟩, hhead, rfl, rfl⟩

/-- A node is no import, or its request stands among the tokens. -/
def Requested {ι : Type} (tokens : List Token) (node : Node ι) : Prop :=
  ∀ m request, node = .importing m request →
    ∃ r : Request, r.tokens <:+: tokens ∧ request = r.import

/-- **Every import that was read has its request in the text.** -/
theorem allIn_requested_of_ofSource {name source : String} {p : Program Unit}
    (h : ofSource name source = .ok p) :
    ∃ scanned, Source.scan source = .ok scanned ∧ Node.AllIn (Requested scanned.tokens) p.nodes := by
  refine allIn_of_ofSource h (fun tokens p hphrase => ?_) fun tokens head body _ => ?_
  · intro m request himporting
    cases p with
    | importing word request =>
      cases himporting
      exact ⟨request, (List.suffix_cons _ _).isInfix.trans hphrase, rfl⟩
    | _ => cases himporting
  · intro m request himporting
    cases head <;> cases himporting

end Tree

end Catena

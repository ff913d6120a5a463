/-!
# Actions on a state

An action takes a state and gives a result or a reason to stop; either way it leaves a state. What
was done before an action stopped stays done, which is what sets actions apart from a state behind
an exception.
-/

namespace Catena

/-- What an action gives: a result, or why it stops; in both cases the state after it. -/
inductive Outcome (σ ε α : Type)
  | done (a : α) (s : σ)
  | stopped (reason : ε) (s : σ)

/-- The state that an outcome leaves. -/
def Outcome.state {σ ε α : Type} : Outcome σ ε α → σ
  | done _ s => s
  | stopped _ s => s

/-- An action on a state `σ` that gives an `α` or stops with an `ε`. -/
@[ext]
structure Action (σ ε α : Type) where
  run : σ → Outcome σ ε α

namespace Action

variable {σ ε α β γ : Type}

/-- Gives a result and changes nothing. -/
@[inline] protected def pure (a : α) : Action σ ε α :=
  ⟨fun s => .done a s⟩

/-- One action after the other; if the first stops, so do both. -/
@[inline] protected def bind (m : Action σ ε α) (f : α → Action σ ε β) : Action σ ε β :=
  ⟨fun s =>
    match m.run s with
    | .done a s => (f a).run s
    | .stopped reason s => .stopped reason s⟩

instance : Monad (Action σ ε) where
  pure := Action.pure
  bind := Action.bind

@[simp] theorem run_pure (a : α) (s : σ) : (pure a : Action σ ε α).run s = .done a s := rfl

theorem run_bind (m : Action σ ε α) (f : α → Action σ ε β) (s : σ) :
    (m >>= f).run s =
      match m.run s with
      | .done a s => (f a).run s
      | .stopped reason s => .stopped reason s := rfl

theorem bind_pure (m : Action σ ε α) : m >>= pure = m := by
  ext s
  rw [run_bind]
  cases m.run s <;> rfl

theorem bind_bind (m : Action σ ε α) (f : α → Action σ ε β) (g : β → Action σ ε γ) :
    m >>= f >>= g = m >>= fun a => f a >>= g := by
  ext s
  simp only [run_bind]
  cases m.run s <;> rfl

instance : LawfulMonad (Action σ ε) :=
  LawfulMonad.mk' (Action σ ε) bind_pure (fun _ _ => rfl) bind_bind

/-- The state. -/
def state : Action σ ε σ :=
  ⟨fun s => .done s s⟩

/-- Changes the state. -/
def change (f : σ → σ) : Action σ ε Unit :=
  ⟨fun s => .done () (f s)⟩

/-- Stops. -/
def stop (reason : ε) : Action σ ε α :=
  ⟨fun s => .stopped reason s⟩

@[simp] theorem run_state (s : σ) : (state : Action σ ε σ).run s = .done s s := rfl

@[simp] theorem run_change (f : σ → σ) (s : σ) :
    (change f : Action σ ε Unit).run s = .done () (f s) := rfl

@[simp] theorem run_stop (reason : ε) (s : σ) :
    (stop reason : Action σ ε α).run s = .stopped reason s := rfl

end Action

end Catena

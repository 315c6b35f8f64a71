/-!
# Dialogues

What the host plugs into the engine may look at and change the engine only by asking it. A dialogue is such a program:
it is done, or it asks one question and goes on with the answer. Whatever every answer keeps, every dialogue keeps.
-/

namespace WasmEngine

/-- A program that acts by asking questions of type `Op`; the answer to `op` is a `Reply op`. -/
inductive Dialogue (Op : Type) (Reply : Op → Type) (ρ : Type) : Type where
  | done (result : ρ)
  | ask (op : Op) (next : Reply op → Dialogue Op Reply ρ)

namespace Dialogue

variable {Op : Type} {Reply : Op → Type} {α β σ : Type}

/-- Asks one question and gives the answer. -/
def perform (op : Op) : Dialogue Op Reply (Reply op) :=
  .ask op .done

/-- Goes on with the result of a dialogue. -/
def bind : Dialogue Op Reply α → (α → Dialogue Op Reply β) → Dialogue Op Reply β
  | .done result, next => next result
  | .ask op answer, next => .ask op fun reply => (answer reply).bind next

instance : Monad (Dialogue Op Reply) where
  pure := .done
  bind := bind

/-- Runs a dialogue against a handler that answers questions from a state. -/
def run (handle : (op : Op) → σ → Reply op × σ) : Dialogue Op Reply α → σ → α × σ
  | .done result, state => (result, state)
  | .ask op next, state =>
    match handle op state with
    | (reply, state) => (next reply).run handle state

/-- A dialogue that goes on with another one runs the first and then the second. -/
theorem run_bind (handle : (op : Op) → σ → Reply op × σ) (first : Dialogue Op Reply α)
    (second : α → Dialogue Op Reply β) (state : σ) :
    (first.bind second).run handle state =
      (second (first.run handle state).1).run handle (first.run handle state).2 := by
  induction first generalizing state with
  | done result => rfl
  | ask op next ih => exact ih _ _

/-- What every answer keeps, a whole dialogue keeps. -/
theorem run_preserves (handle : (op : Op) → σ → Reply op × σ) (kept : σ → Prop)
    (h : ∀ op state, kept state → kept (handle op state).2) (dialogue : Dialogue Op Reply α) (state : σ)
    (hs : kept state) : kept (dialogue.run handle state).2 := by
  induction dialogue generalizing state with
  | done result => exact hs
  | ask op next ih => exact ih _ _ (h op state hs)

end Dialogue

end WasmEngine

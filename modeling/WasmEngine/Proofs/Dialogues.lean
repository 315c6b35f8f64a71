import WasmEngine.Error
import WasmEngine.Host.Dialogue

/-!
# Dialogues that may fail

Dialogues form a lawful monad. `Dialogue.exec` runs a dialogue that may fail; a failure ends the dialogue and keeps the
state that was reached.
-/

namespace WasmEngine.Dialogue

variable {Op : Type} {Reply : Op → Type} {α β σ : Type}

theorem bind_done (dialogue : Dialogue Op Reply α) : dialogue.bind .done = dialogue := by
  induction dialogue with
  | done result => rfl
  | ask op next ih => exact congrArg (ask op) (funext ih)

theorem bind_bind {γ : Type} (dialogue : Dialogue Op Reply α) (first : α → Dialogue Op Reply β)
    (second : β → Dialogue Op Reply γ) :
    (dialogue.bind first).bind second = dialogue.bind fun result => (first result).bind second := by
  induction dialogue with
  | done result => rfl
  | ask op next ih => exact congrArg (ask op) (funext ih)

instance : LawfulMonad (Dialogue Op Reply) :=
  LawfulMonad.mk' _ bind_done (fun _ _ => rfl) bind_bind

/-- Handlers that give the same answers from related states on give the same results. -/
theorem run_related {τ : Type} {handle : (op : Op) → σ → Reply op × σ} {handle' : (op : Op) → τ → Reply op × τ}
    {rel : σ → τ → Prop}
    (h : ∀ op state state', rel state state' →
      (handle op state).1 = (handle' op state').1 ∧ rel (handle op state).2 (handle' op state').2)
    (dialogue : Dialogue Op Reply α) {state : σ} {state' : τ} (hrel : rel state state') :
    (dialogue.run handle state).1 = (dialogue.run handle' state').1 ∧
      rel (dialogue.run handle state).2 (dialogue.run handle' state').2 := by
  induction dialogue generalizing state state' with
  | done result => exact ⟨rfl, hrel⟩
  | ask op next ih =>
    obtain ⟨hreply, hrel⟩ := h op state state' hrel
    change ((next (handle op state).1).run handle (handle op state).2).1 =
        ((next (handle' op state').1).run handle' (handle' op state').2).1 ∧
      rel ((next (handle op state).1).run handle (handle op state).2).2
        ((next (handle' op state').1).run handle' (handle' op state').2).2
    rw [← hreply]
    exact ih _ hrel

/-- Runs a program that may fail. -/
def exec (handle : (op : Op) → σ → Reply op × σ) (program : ExceptT Error (Dialogue Op Reply) α) (state : σ) :
    Except Error α × σ :=
  program.run.run handle state

section Bind

variable {handle : (op : Op) → σ → Reply op × σ} {first : ExceptT Error (Dialogue Op Reply) α} {state between : σ}

theorem exec_bind_ok {value : α} (h : exec handle first state = (.ok value, between))
    (second : α → ExceptT Error (Dialogue Op Reply) β) :
    exec handle (first >>= second) state = exec handle (second value) between := by
  change (Dialogue.bind first.run (ExceptT.bindCont second)).run handle state = _
  rw [run_bind, show first.run.run handle state = (.ok value, between) from h]
  rfl

theorem exec_bind_error {error : Error} (h : exec handle first state = (.error error, between))
    (second : α → ExceptT Error (Dialogue Op Reply) β) :
    exec handle (first >>= second) state = (.error error, between) := by
  change (Dialogue.bind first.run (ExceptT.bindCont second)).run handle state = _
  rw [run_bind, show first.run.run handle state = (.error error, between) from h]
  rfl

end Bind

end WasmEngine.Dialogue

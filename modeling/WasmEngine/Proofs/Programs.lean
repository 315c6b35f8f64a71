import Mathlib.Order.Defs.Unbundled

/-!
# Programs that may fail

`Keeps` relates the states before and after a program, whether it succeeds or fails. `Factors` compares two runs: a
program sees only a part of its state. `Confines` says with which errors a program may fail.
-/

namespace WasmEngine

variable {ε σ α β : Type} {first : EStateM ε σ α} {second : α → EStateM ε σ β} {value : α} {error : ε}
  {state state' : σ}

/-- The state in which a run ends. -/
def stateAfter : EStateM.Result ε σ α → σ
  | .ok _ state => state
  | .error _ state => state

/-- What a run gives. -/
def resultOf : EStateM.Result ε σ α → Except ε α
  | .ok value _ => .ok value
  | .error error _ => .error error

theorem eq_ok_of_resultOf {result : EStateM.Result ε σ α} (h : resultOf result = .ok value) :
    result = .ok value (stateAfter result) := by
  cases result with
  | ok found state => exact congrArg (EStateM.Result.ok · state) (Except.ok.inj h)
  | error error state => cases h

theorem eq_error_of_resultOf {result : EStateM.Result ε σ α} (h : resultOf result = .error error) :
    result = .error error (stateAfter result) := by
  cases result with
  | ok found state => cases h
  | error found state => exact congrArg (EStateM.Result.error · state) (Except.error.inj h)

theorem eq_ok_of_toOption {result : Except ε α} (h : result.toOption = some value) :
    result = .ok value := by
  cases result with
  | ok found => exact congrArg Except.ok (Option.some.inj h)
  | error error => cases h

theorem exists_of_isOk {result : Except ε α} (h : result.isOk = true) : ∃ value, result = .ok value := by
  cases result with
  | ok value => exact ⟨value, rfl⟩
  | error error => cases h

theorem run_get_bind (next : σ → EStateM ε σ α) (state : σ) : (get >>= next) state = next state state :=
  rfl

theorem run_set_bind (state' : σ) (next : PUnit → EStateM ε σ α) (state : σ) :
    (set state' >>= next) state = next ⟨⟩ state' :=
  rfl

theorem run_bind_of_ok (h : first state = .ok value state') : (first >>= second) state = second value state' := by
  change EStateM.bind first second state = _
  unfold EStateM.bind
  rw [h]

theorem run_bind_of_error (h : first state = .error error state') : (first >>= second) state = .error error state' := by
  change EStateM.bind first second state = _
  unfold EStateM.bind
  rw [h]

theorem run_map_of_ok {program : EStateM ε σ α} {change : α → β}
    (h : program state = .ok value state') : (change <$> program) state = .ok (change value) state' := by
  change EStateM.map change program state = _
  unfold EStateM.map
  rw [h]

theorem run_bind_eq_ok {result : β} (h : (first >>= second) state = .ok result state') :
    ∃ value between, first state = .ok value between ∧ second value between = .ok result state' := by
  change EStateM.bind first second state = _ at h
  unfold EStateM.bind at h
  cases hfirst : first state with
  | ok value between =>
    rw [hfirst] at h
    exact ⟨value, between, rfl, h⟩
  | error error between =>
    rw [hfirst] at h
    cases h

theorem run_bind_eq_error (h : (first >>= second) state = .error error state') :
    first state = .error error state' ∨
      ∃ value between, first state = .ok value between ∧ second value between = .error error state' := by
  change EStateM.bind first second state = _ at h
  unfold EStateM.bind at h
  cases hfirst : first state with
  | ok value between =>
    rw [hfirst] at h
    exact .inr ⟨value, between, rfl, h⟩
  | error stopped between =>
    rw [hfirst] at h
    cases h
    exact .inl rfl

theorem stateAfter_bind_pure (first : EStateM ε σ α) (f : α → β) (state : σ) :
    stateAfter ((first >>= fun value => pure (f value)) state) = stateAfter (first state) := by
  cases h : first state with
  | ok value between =>
    rw [run_bind_of_ok h]
    rfl
  | error error between => rw [run_bind_of_error h]; rfl

/-- Every run of a program, whether it succeeds or fails, goes from one state to a related one. -/
def Keeps (rel : σ → σ → Prop) (program : EStateM ε σ α) : Prop :=
  ∀ state, rel state (stateAfter (program state))

/-- Whatever holds of a state holds of the next one. -/
def Preserves (kept : σ → Prop) (state state' : σ) : Prop :=
  kept state → kept state'

instance (kept : σ → Prop) : Std.Refl (Preserves kept) where
  refl _ h := h

instance (kept : σ → Prop) : IsTrans σ (Preserves kept) where
  trans _ _ _ first second h := second (first h)

/-- What is seen of a state is seen of the next one. -/
def Leaves {τ : Type} (view : σ → τ) (state state' : σ) : Prop :=
  view state' = view state

instance {τ : Type} (view : σ → τ) : Std.Refl (Leaves view) where
  refl _ := rfl

instance {τ : Type} (view : σ → τ) : IsTrans σ (Leaves view) where
  trans _ _ _ first second := second.trans first

namespace Keeps

variable {rel : σ → σ → Prop} {program : EStateM ε σ α}

theorem pure [Std.Refl rel] (value : α) : Keeps rel (pure value : EStateM ε σ α) :=
  fun state => Std.Refl.refl state

theorem throw [Std.Refl rel] (error : ε) : Keeps rel (throw error : EStateM ε σ α) :=
  fun state => Std.Refl.refl state

theorem get [Std.Refl rel] : Keeps rel (get : EStateM ε σ σ) :=
  fun state => Std.Refl.refl state

theorem modify {change : σ → σ} (h : ∀ state, rel state (change state)) :
    Keeps rel (modify change : EStateM ε σ PUnit) :=
  h

theorem of_ok (h : Keeps rel program) (hrun : program state = .ok value state') : rel state state' := by
  have hkept := h state
  rwa [hrun] at hkept

theorem of_error (h : Keeps rel program) (hrun : program state = .error error state') : rel state state' := by
  have hkept := h state
  rwa [hrun] at hkept

theorem mono {rel' : σ → σ → Prop} (h : Keeps rel program)
    (hrel : ∀ {state state'}, rel state state' → rel' state state') : Keeps rel' program :=
  fun state => hrel (h state)

theorem bind [IsTrans σ rel] (hfirst : Keeps rel first) (hsecond : ∀ value, Keeps rel (second value)) :
    Keeps rel (first >>= second) := by
  intro state
  have hrun := hfirst state
  change rel state (stateAfter (EStateM.bind first second state))
  unfold EStateM.bind
  cases h : first state with
  | ok value state' =>
    rw [h] at hrun
    exact IsTrans.trans _ _ _ hrun (hsecond value state')
  | error error state' =>
    rw [h] at hrun
    exact hrun

theorem ite (condition : Prop) [Decidable condition] {first second : EStateM ε σ α} (hfirst : Keeps rel first)
    (hsecond : Keeps rel second) : Keeps rel (if condition then first else second) := by
  split
  · exact hfirst
  · exact hsecond

theorem forM [Std.Refl rel] [IsTrans σ rel] {step : α → EStateM ε σ PUnit} (items : List α)
    (h : ∀ item, Keeps rel (step item)) : Keeps rel (items.forM step) := by
  induction items with
  | nil => exact .pure _
  | cons item items ih => exact .bind (h item) fun _ => ih

end Keeps

/-- What a program gives and what is seen of its state depends on what is seen before. -/
def Factors {τ : Type} (view : σ → τ) (program : EStateM ε σ α) : Prop :=
  ∀ state state', view state = view state' →
    resultOf (program state) = resultOf (program state') ∧
      view (stateAfter (program state)) = view (stateAfter (program state'))

namespace Factors

variable {τ : Type} {view : σ → τ}

theorem pure (value : α) : Factors view (pure value : EStateM ε σ α) :=
  fun _ _ h => ⟨rfl, h⟩

theorem throw (error : ε) : Factors view (throw error : EStateM ε σ α) :=
  fun _ _ h => ⟨rfl, h⟩

theorem modify {change : σ → σ}
    (h : ∀ state state', view state = view state' → view (change state) = view (change state')) :
    Factors view (modify change : EStateM ε σ PUnit) :=
  fun state state' hview => ⟨rfl, h state state' hview⟩

theorem bind (hfirst : Factors view first) (hsecond : ∀ value, Factors view (second value)) :
    Factors view (first >>= second) := by
  intro state state' hview
  obtain ⟨hresult, hafter⟩ := hfirst state state' hview
  cases h : first state with
  | ok value next =>
    cases h' : first state' with
    | ok value' next' =>
      rw [h, h'] at hresult hafter
      cases hresult
      rw [run_bind_of_ok h, run_bind_of_ok h']
      exact hsecond value next next' hafter
    | error error' next' =>
      rw [h, h'] at hresult
      cases hresult
  | error error next =>
    cases h' : first state' with
    | ok value' next' =>
      rw [h, h'] at hresult
      cases hresult
    | error error' next' =>
      rw [h, h'] at hresult hafter
      cases hresult
      rw [run_bind_of_error h, run_bind_of_error h']
      exact ⟨rfl, hafter⟩

/-- The program goes on with what it sees of the state. -/
theorem get_bind {next : σ → EStateM ε σ α} (hnext : ∀ state, Factors view (next state))
    (h : ∀ state state', view state = view state' → next state = next state') : Factors view (get >>= next) := by
  intro state state' hview
  rw [run_get_bind, run_get_bind, h state state' hview]
  exact hnext state' state state' hview

theorem ite (condition : Prop) [Decidable condition] {first second : EStateM ε σ α} (hfirst : Factors view first)
    (hsecond : Factors view second) : Factors view (if condition then first else second) := by
  split
  · exact hfirst
  · exact hsecond

end Factors

/-- A program keeps its state of a kind and fails only with errors that are allowed. -/
def Confines (kept : σ → Prop) (allowed : ε → Prop) (program : EStateM ε σ α) : Prop :=
  ∀ state, kept state → kept (stateAfter (program state)) ∧
    ∀ error, resultOf (program state) = .error error → allowed error

namespace Confines

variable {kept : σ → Prop} {allowed : ε → Prop}

theorem pure (value : α) : Confines kept allowed (pure value : EStateM ε σ α) :=
  fun _ hkept => ⟨hkept, fun _ herror => by cases herror⟩

theorem throw (h : allowed error) : Confines kept allowed (throw error : EStateM ε σ α) :=
  fun _ hkept => ⟨hkept, fun _ herror => by cases herror; exact h⟩

theorem get : Confines kept allowed (get : EStateM ε σ σ) :=
  fun _ hkept => ⟨hkept, fun _ herror => by cases herror⟩

theorem modify {change : σ → σ} (h : ∀ state, kept state → kept (change state)) :
    Confines kept allowed (modify change : EStateM ε σ PUnit) :=
  fun state hkept => ⟨h state hkept, fun _ herror => by cases herror⟩

theorem bind (hfirst : Confines kept allowed first) (hsecond : ∀ value, Confines kept allowed (second value)) :
    Confines kept allowed (first >>= second) := by
  intro state hkept
  obtain ⟨hafter, hallowed⟩ := hfirst state hkept
  cases hrun : first state with
  | ok value between =>
    rw [hrun] at hafter
    rw [run_bind_of_ok hrun]
    exact hsecond value between hafter
  | error error between =>
    rw [hrun] at hafter hallowed
    rw [run_bind_of_error hrun]
    refine ⟨hafter, fun error' herror => ?_⟩
    cases herror
    exact hallowed error rfl

end Confines

end WasmEngine

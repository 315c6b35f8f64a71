import WasmEngine.Proofs.Machine.Constants
import WasmEngine.Proofs.Machine.Filling

/-!
# Two runs of loading

Two runs of loading start from modules of the same blueprint, in different environments and with different values left
in the modules (`Loading.Agrees`). As long as both go on they take the same steps (`LoadM.Traces`).
-/

namespace WasmEngine

open Threaded

/-- The globals that the initial value of a global is taken from. -/
def Global.sources (global : Global) : List UInt32 :=
  match global.initial with
  | none => []
  | some expr => ConstExpr.globalsRead expr

/-- Initial values are taken from globals with smaller indices. -/
def Module.ReadsBack (module : Module) : Prop :=
  ∀ (index : Nat) (global : Global), module.globals[index]? = some global →
    ∀ source ∈ global.sources, source.toNat < index

namespace Loading

/-- A state of loading where threaded code is served, of a module with a blueprint and a table of some size. -/
structure Fits (fuel : Nat) (source : Module) (room : Nat) (state : Loading) : Prop where
  serves : state.env.Serves fuel
  source : state.module.blueprint = source
  room : room ≤ state.module.table.size

/-- Two states of loading from modules of the same blueprint. The first `known` globals are set alike. -/
structure Agrees (fuel : Nat) (source : Module) (known room : Nat) (a b : Loading) : Prop where
  left : a.Fits fuel source room
  right : b.Fits fuel source room
  input : a.input = b.input
  globals : ∀ index : Nat, (index < known ∨ ∀ global, source.globals[index]? = some global → global.initial = none) →
    a.module.globals[index]? = b.module.globals[index]?

namespace Fits

variable {fuel : Nat} {source : Module} {room : Nat} {state : Loading}

theorem unset_globals (h : state.Fits fuel source room) (index : Nat) :
    state.module.globals[index]?.map Global.unset = source.globals[index]? := by
  rw [← h.source, ← Array.getElem?_map]
  rfl

theorem size_globals (h : state.Fits fuel source room) : state.module.globals.size = source.globals.size := by
  rw [← h.source]
  exact (Array.size_map ..).symm

end Fits

namespace Agrees

variable {fuel : Nat} {source : Module} {known room : Nat} {a b : Loading} (h : Agrees fuel source known room a b)

include h

/-- What happens to environment, linear memory and input does not matter. -/
theorem replace {a' b' : Loading} (hleft : a'.module = a.module)
    (hright : b'.module = b.module) (hserves : a'.env.Serves fuel) (hserves' : b'.env.Serves fuel)
    (hinput : a'.input = b'.input) : Agrees fuel source known room a' b' where
  left := ⟨hserves, hleft ▸ h.left.source, hleft ▸ h.left.room⟩
  right := ⟨hserves', hright ▸ h.right.source, hright ▸ h.right.room⟩
  input := hinput
  globals := by
    rw [hleft, hright]
    exact h.globals

theorem mono {known' room' : Nat}
    (hknown : ∀ index, index < known' → index < known ∨
      ∀ global, source.globals[index]? = some global → global.initial = none)
    (hroom : room' ≤ room) : Agrees fuel source known' room' a b where
  left := ⟨h.left.serves, h.left.source, hroom.trans h.left.room⟩
  right := ⟨h.right.serves, h.right.source, hroom.trans h.right.room⟩
  input := h.input
  globals := fun index hindex => h.globals index (hindex.elim (hknown index) .inr)

theorem blueprint_eq : a.module.blueprint = b.module.blueprint :=
  h.left.source.trans h.right.source.symm

theorem functions_eq : a.module.functions.size = b.module.functions.size := by
  have hfunctions := congrArg (fun module : Module => module.functions.size) h.blueprint_eq
  simpa [Module.blueprint, Module.outline] using hfunctions

/-- Globals that are known have the same content. -/
theorem globalSlot_eq {index : UInt32} (hindex : index.toNat < known) :
    globalSlot a.module index = globalSlot b.module index := by
  unfold globalSlot
  rw [h.globals index.toNat (.inl hindex)]

omit h in
/-- Where all globals are known, all globals are the same. -/
theorem globals_eq (h : Agrees fuel source source.globals.size room a b) : a.module.globals = b.module.globals := by
  refine Array.ext_getElem? fun index => ?_
  rcases Nat.lt_or_ge index source.globals.size with hlt | hle
  · exact h.globals index (.inl hlt)
  · rw [Array.getElem?_eq_none (h.left.size_globals.trans_le hle),
      Array.getElem?_eq_none (h.right.size_globals.trans_le hle)]

end Agrees

end Loading

namespace LoadM

open Loading

variable {α β : Type}

/-- What two runs of a program from related states have in common. `steps` is what a run fills in. -/
structure Traces (before after : Loading → Loading → Prop) (program : LoadM α) (steps : Loading → List FillStep) :
    Prop where
  module_eq : ∀ {a}, before a a → (stateAfter (program a)).module = a.module.fill (steps a)
  /-- Runs that succeed agree. -/
  agree : ∀ {a b a' b' : Loading} {value value' : α}, before a b → program a = .ok value a' →
    program b = .ok value' b' → value = value' ∧ after a' b' ∧ steps a = steps b
  /-- A run that fails does not go further than one that succeeds. -/
  within : ∀ {a b b' : Loading} {value : α}, before a b → program b = .ok value b' → steps a <+: steps b
  /-- In the same environment and linear memory there is no difference. -/
  same : ∀ {a b : Loading}, before a b → a.env = b.env → a.memory = b.memory →
    resultOf (program a) = resultOf (program b) ∧
      (stateAfter (program a)).env = (stateAfter (program b)).env ∧
      (stateAfter (program a)).memory = (stateAfter (program b)).memory ∧ steps a = steps b

/-- What is filled in by one program after another. -/
def stepsThen (first : LoadM α) (steps : Loading → List FillStep) (steps' : α → Loading → List FillStep)
    (state : Loading) : List FillStep :=
  match first state with
  | .ok value between => steps state ++ steps' value between
  | .error _ _ => steps state

namespace Traces

variable {before between after : Loading → Loading → Prop}

theorem bind {first : LoadM α} {second : α → LoadM β} {steps : Loading → List FillStep}
    {steps' : α → Loading → List FillStep} (hfirst : Traces before between first steps)
    (hsecond : ∀ value, Traces between after (second value) (steps' value)) :
    Traces before after (first >>= second) (stepsThen first steps steps') where
  module_eq := by
    intro a hbefore
    have hmodule := hfirst.module_eq hbefore
    unfold stepsThen
    cases hrun : first a with
    | ok value a' =>
      rw [hrun] at hmodule
      have hbetween : between a' a' := (hfirst.agree hbefore hrun hrun).2.1
      rw [run_bind_of_ok hrun, (hsecond value).module_eq hbetween, Module.fill_append]
      exact congrArg (Module.fill · _) hmodule
    | error error a' =>
      rw [hrun] at hmodule
      rw [run_bind_of_error hrun]
      exact hmodule
  agree := by
    intro a b a'' b'' value value' hbefore ha hb
    obtain ⟨first₁, a', ha₁, ha₂⟩ := run_bind_eq_ok ha
    obtain ⟨first₂, b', hb₁, hb₂⟩ := run_bind_eq_ok hb
    obtain ⟨rfl, hbetween, hsteps⟩ := hfirst.agree hbefore ha₁ hb₁
    obtain ⟨hvalue, hafter, hsteps'⟩ := (hsecond first₁).agree hbetween ha₂ hb₂
    refine ⟨hvalue, hafter, ?_⟩
    simp only [stepsThen, ha₁, hb₁]
    rw [hsteps, hsteps']
  within := by
    intro a b b'' value hbefore hb
    obtain ⟨found, b', hb₁, hb₂⟩ := run_bind_eq_ok hb
    have hprefix := hfirst.within hbefore hb₁
    simp only [stepsThen, hb₁]
    cases ha₁ : first a with
    | error error a' => exact hprefix.trans (List.prefix_append _ _)
    | ok found' a' =>
      obtain ⟨rfl, hbetween, hsteps⟩ := hfirst.agree hbefore ha₁ hb₁
      rw [hsteps]
      exact (List.prefix_append_right_inj _).2 ((hsecond found').within hbetween hb₂)
  same := by
    intro a b hbefore henv hmemory
    obtain ⟨hresult, henv', hmemory', hsteps⟩ := hfirst.same hbefore henv hmemory
    unfold stepsThen
    cases ha₁ : first a with
    | error error a' =>
      cases hb₁ : first b with
      | error error' b' =>
        rw [ha₁, hb₁] at hresult henv' hmemory'
        rw [run_bind_of_error ha₁, run_bind_of_error hb₁]
        cases hresult
        exact ⟨rfl, henv', hmemory', hsteps⟩
      | ok found b' =>
        rw [ha₁, hb₁] at hresult
        cases hresult
    | ok found a' =>
      cases hb₁ : first b with
      | error error' b' =>
        rw [ha₁, hb₁] at hresult
        cases hresult
      | ok found' b' =>
        obtain ⟨rfl, hbetween, -⟩ := hfirst.agree hbefore ha₁ hb₁
        rw [ha₁, hb₁] at henv' hmemory'
        obtain ⟨hresult', henv'', hmemory'', hsteps'⟩ := (hsecond found).same hbetween henv' hmemory'
        rw [run_bind_of_ok ha₁, run_bind_of_ok hb₁]
        refine ⟨hresult', henv'', hmemory'', ?_⟩
        dsimp only
        rw [hsteps, hsteps']

end Traces

/-- Some lists of steps are what the runs of a program fill in. -/
def Replays (before after : Loading → Loading → Prop) (program : LoadM α) : Prop :=
  ∃ steps, Traces before after program steps

namespace Replays

variable {before between after : Loading → Loading → Prop}

theorem bind {first : LoadM α} {second : α → LoadM β} (hfirst : Replays before between first)
    (hsecond : ∀ value, Replays between after (second value)) : Replays before after (first >>= second) := by
  obtain ⟨steps, hfirst⟩ := hfirst
  choose steps' hsecond using hsecond
  exact ⟨_, hfirst.bind hsecond⟩

theorem mono {before' after' : Loading → Loading → Prop} {program : LoadM α} (h : Replays before after program)
    (hbefore : ∀ {a b}, before' a b → before a b) (hafter : ∀ {a b}, after a b → after' a b) :
    Replays before' after' program := by
  obtain ⟨steps, h⟩ := h
  refine ⟨steps, ?_, ?_, ?_, ?_⟩
  · exact fun hab => h.module_eq (hbefore hab)
  · intro a b a' b' value value' hab ha hb
    obtain ⟨hvalue, hab', hsteps⟩ := h.agree (hbefore hab) ha hb
    exact ⟨hvalue, hafter hab', hsteps⟩
  · exact fun hab hb => h.within (hbefore hab) hb
  · exact fun hab => h.same (hbefore hab)

/-- A program that fills in nothing. -/
theorem of_unfilled {program : LoadM α} (hmodule : ∀ a, (stateAfter (program a)).module = a.module)
    (hagree : ∀ {a b a' b' : Loading} {value value' : α}, before a b → program a = .ok value a' →
      program b = .ok value' b' → value = value' ∧ after a' b')
    (hsame : ∀ {a b : Loading}, before a b → a.env = b.env → a.memory = b.memory →
      resultOf (program a) = resultOf (program b) ∧ (stateAfter (program a)).env = (stateAfter (program b)).env ∧
        (stateAfter (program a)).memory = (stateAfter (program b)).memory) : Replays before after program := by
  refine ⟨fun _ => [], fun {a} _ => hmodule a, ?_, fun _ _ => List.prefix_refl _, ?_⟩
  · intro a b a' b' value value' hab ha hb
    obtain ⟨hvalue, hafter⟩ := hagree hab ha hb
    exact ⟨hvalue, hafter, rfl⟩
  · intro a b hab henv hmemory
    obtain ⟨hresult, henv', hmemory'⟩ := hsame hab henv hmemory
    exact ⟨hresult, henv', hmemory', rfl⟩

theorem throw (error : Error) : Replays before after (throw error : LoadM α) := by
  refine of_unfilled (fun _ => rfl) ?_ fun _ henv hmemory => ⟨rfl, henv, hmemory⟩
  intro a b a' b' _ _ _ ha
  cases ha

theorem pure (value : α) : Replays before before (pure value : LoadM α) := by
  refine of_unfilled (fun _ => rfl) ?_ fun _ henv hmemory => ⟨rfl, henv, hmemory⟩
  intro a b a' b' _ _ hab ha hb
  cases ha
  cases hb
  exact ⟨rfl, hab⟩

/-- A step that is known beforehand. -/
theorem fill {change : Loading → Loading} (step : FillStep)
    (hplace : ∀ state, (change state).env = state.env ∧ (change state).memory = state.memory)
    (hmodule : ∀ {state}, before state state → (change state).module = state.module.fill [step])
    (hafter : ∀ {a b}, before a b → after (change a) (change b)) :
    Replays before after (modify change : LoadM Unit) := by
  refine ⟨fun _ => [step], fun hab => hmodule hab, ?_, fun _ _ => List.prefix_refl _, ?_⟩
  · intro a b a' b' _ _ hab ha hb
    cases ha
    cases hb
    exact ⟨rfl, hafter hab, rfl⟩
  · intro a b hab henv hmemory
    refine ⟨rfl, ?_, ?_, rfl⟩
    · exact ((hplace a).1.trans henv).trans (hplace b).1.symm
    · exact ((hplace a).2.trans hmemory).trans (hplace b).2.symm

/-- On the states in question the program is another one. -/
theorem congr {program program' : LoadM α} (h : Replays before after program')
    (heq : ∀ {a b}, before a b → program a = program' a ∧ program b = program' b) : Replays before after program := by
  obtain ⟨steps, h⟩ := h
  refine ⟨steps, ?_, ?_, ?_, ?_⟩
  · intro a hab
    rw [(heq hab).1]
    exact h.module_eq hab
  · intro a b a' b' value value' hab ha hb
    rw [(heq hab).1] at ha
    rw [(heq hab).2] at hb
    exact h.agree hab ha hb
  · intro a b b' value hab hb
    rw [(heq hab).2] at hb
    exact h.within hab hb
  · intro a b hab henv hmemory
    rw [(heq hab).1, (heq hab).2]
    exact h.same hab henv hmemory

theorem forM {step : β → LoadM PUnit} (items : List β) (h : ∀ item, Replays before before (step item)) :
    Replays before before (items.forM step) := by
  induction items with
  | nil => exact .pure _
  | cons item items ih => exact .bind (h item) fun _ => ih

/-- Looking at the state, if what is done then is the same for both. -/
theorem get_bind {next : Loading → LoadM α} (hnext : ∀ {a b}, before a b → next a = next b)
    (h : ∀ state, Replays before after (next state)) : Replays before after (get >>= next) := by
  have htraces (state : Loading) : Traces before after (next state) (h state).choose := (h state).choose_spec
  have hchoose {a b : Loading} (hab : before a b) : (h b).choose = (h a).choose := by
    have hsame : ∀ program (hprogram : Replays before after program), program = next a →
        hprogram.choose = (h a).choose := by
      rintro _ _ rfl
      rfl
    exact hsame (next b) (h b) (hnext hab).symm
  refine ⟨fun state => (h state).choose state, fun {a} hab => (htraces a).module_eq hab, ?_, ?_, ?_⟩
  · intro a b a' b' value value' hab ha hb
    rw [run_get_bind, ← hnext hab] at hb
    rw [hchoose hab]
    exact (htraces a).agree hab ha hb
  · intro a b b' value hab hb
    rw [run_get_bind, ← hnext hab] at hb
    rw [hchoose hab]
    exact (htraces a).within hab hb
  · intro a b hab henv hmemory
    rw [run_get_bind, run_get_bind, hchoose hab, ← hnext hab]
    exact (htraces a).same hab henv hmemory

end Replays

/-! ## The steps of loading -/

section Steps

variable {fuel : Nat} {source : Module} {known room : Nat}

theorem replays_read (program : Read α) :
    Replays (Agrees fuel source known room) (Agrees fuel source known room) (read program) := by
  refine .of_unfilled ?_ ?_ ?_
  · intro a
    unfold read
    cases program a.input <;> rfl
  · intro a b a' b' value value' hab ha hb
    unfold read at ha hb
    rw [hab.input] at ha
    cases hread : program b.input with
    | error error input =>
      rw [hread] at hb
      cases hb
    | ok found input =>
      rw [hread] at ha hb
      cases ha
      cases hb
      exact ⟨rfl, hab.replace rfl rfl hab.left.serves hab.right.serves rfl⟩
  · intro a b hab henv hmemory
    unfold read
    rw [hab.input]
    cases program b.input with
    | error error input => exact ⟨rfl, henv, hmemory⟩
    | ok found input => exact ⟨rfl, henv, hmemory⟩

/-- A constant expression may be evaluated once the globals that it reads are known. -/
theorem replays_constValue {expr : List UInt8} (type : ValType)
    (hreads : ∀ {a b}, Agrees fuel source known room a b → ∀ index ∈ ConstExpr.globalsRead expr,
      globalSlot a.module index = globalSlot b.module index) :
    Replays (Agrees fuel source known room) (Agrees fuel source known room) (constValue expr type) := by
  refine .of_unfilled ?_ ?_ ?_
  · intro a
    unfold constValue
    cases Environment.constValue a.module expr type a.env <;> rfl
  · intro a b a' b' value value' hab ha hb
    have hserves := hab.left.serves.constValue a.module expr type
    have hserves' := hab.right.serves.constValue b.module expr type
    unfold constValue at ha hb
    cases hfound : Environment.constValue a.module expr type a.env with
    | error error env =>
      rw [hfound] at ha
      cases ha
    | ok found env =>
      cases hfound' : Environment.constValue b.module expr type b.env with
      | error error env' =>
        rw [hfound'] at hb
        cases hb
      | ok found' env' =>
        rw [hfound] at ha hserves
        rw [hfound'] at hb hserves'
        cases ha
        cases hb
        refine ⟨?_, hab.replace rfl rfl hserves hserves' hab.input⟩
        exact Environment.constValue_agree hab.left.serves hab.right.serves (hreads hab) hfound hfound'
  · intro a b hab henv hmemory
    unfold constValue
    rw [Environment.constValue_congr hab.left.serves (hreads hab), henv]
    cases Environment.constValue b.module expr type b.env with
    | error error env => exact ⟨rfl, rfl, hmemory⟩
    | ok found env => exact ⟨rfl, rfl, hmemory⟩

/-- Once all globals are known, any constant expression may be evaluated. -/
theorem replays_constValue_settled (expr : List UInt8) (type : ValType) :
    Replays (Agrees fuel source source.globals.size room) (Agrees fuel source source.globals.size room)
      (constValue expr type) := by
  refine replays_constValue type fun hab index _ => ?_
  unfold globalSlot
  rw [hab.globals_eq]

/-- Sizing the linear memory concerns the heap at most. -/
theorem sizeMemory_eq (state : Loading) :
    ∃ memory heap, stateAfter (sizeMemory state) = { state with memory, env := { state.env with heap } } := by
  unfold sizeMemory
  split
  · exact ⟨state.memory, state.env.heap, rfl⟩
  · dsimp only
    cases LinearMemory.growTo (state.module.memory.getD ⟨0, none⟩).initial
      ⟨state.memory.setMaxPages (state.module.maxPages state.env.config), state.env.heap⟩ with
    | ok done after => exact ⟨after.memory, after.heap, rfl⟩
    | error error after => exact ⟨after.memory, after.heap, rfl⟩

theorem replays_sizeMemory :
    Replays (Agrees fuel source known room) (Agrees fuel source known room) sizeMemory := by
  refine .of_unfilled ?_ ?_ ?_
  · intro a
    obtain ⟨memory, heap, hafter⟩ := sizeMemory_eq a
    rw [hafter]
  · intro a b a' b' _ _ hab ha hb
    obtain ⟨memory, heap, hafter⟩ := sizeMemory_eq a
    obtain ⟨memory', heap', hafter'⟩ := sizeMemory_eq b
    rw [ha] at hafter
    rw [hb] at hafter'
    cases hafter
    cases hafter'
    refine ⟨rfl, hab.replace rfl rfl (hab.left.serves.samePages ?_) (hab.right.serves.samePages ?_) hab.input⟩
    · exact .rest ..
    · exact .rest ..
  · intro a b hab henv hmemory
    have himport : a.module.memoryImport = b.module.memoryImport := by
      have himport := congrArg (fun module : Module => module.memoryImport) hab.blueprint_eq
      exact himport
    have hlimits : a.module.memory = b.module.memory := by
      have hlimits := congrArg (fun module : Module => module.memory) hab.blueprint_eq
      exact hlimits
    unfold sizeMemory Module.maxPages
    rw [himport, hlimits, henv, hmemory]
    split
    · exact ⟨rfl, henv, hmemory⟩
    · dsimp only
      split <;> exact ⟨rfl, rfl, rfl⟩

/-! ### Globals -/

/-- Sets the global at an index to the initial value of a global, if there is one. -/
def assignInitial (index : Nat) : Option Global → LoadM Unit
  | none => pure ()
  | some global =>
    match global.initial with
    | none => pure ()
    | some expr => do
      let (slot, _) ← constValue expr global.type
      modify fun state =>
        { state with module := { state.module with globals := state.module.globals.modify index ({ · with slot }) } }

/-- Where the initial value comes from is in the blueprint. -/
theorem setGlobal_eq {state : Loading} (h : state.Fits fuel source room) (index : Nat) :
    setGlobal index state = assignInitial index source.globals[index]? state := by
  have hunset : assignInitial index (state.module.globals[index]?.map Global.unset) =
      assignInitial index state.module.globals[index]? := by
    cases state.module.globals[index]? <;> rfl
  rw [← h.unset_globals index, hunset]
  unfold setGlobal
  rw [run_get_bind]
  cases hglobal : state.module.globals[index]? with
  | none => rfl
  | some global => rfl

/-- A global that has an initial value is filled in. -/
theorem fill_setGlobal {module : Module} {index : Nat} {global : Global}
    (hglobal : module.globals[index]?.map Global.unset = some global) (hinitial : global.initial.isSome) (slot : Slot) :
    { module with globals := module.globals.modify index ({ · with slot }) } =
      module.fill [.setGlobal index slot] := by
  have hglobals : module.globals.modify index ({ · with slot }) = module.globals.modify index (Global.fill slot) := by
    refine Array.ext_getElem? fun other => ?_
    rw [Array.getElem?_modify, Array.getElem?_modify]
    split
    · rename_i heq
      subst heq
      cases hfound : module.globals[index]? with
      | none => rfl
      | some found =>
        rw [hfound] at hglobal
        cases hglobal
        exact congrArg some (if_pos hinitial).symm
    · rfl
  rw [hglobals]
  rfl

theorem blueprint_setGlobal (module : Module) (index : Nat) (slot : Slot) :
    Module.blueprint { module with globals := module.globals.modify index ({ · with slot }) } = module.blueprint :=
  congrArg ({ · with owner := none }) (module.outline_setGlobal index slot)

/-- A global that is set to the same value is known. -/
theorem agrees_setGlobal {a b : Loading} {index : Nat} (h : Agrees fuel source index room a b) (slot : Slot) :
    Agrees fuel source (index + 1) room
      { a with module := { a.module with globals := a.module.globals.modify index ({ · with slot }) } }
      { b with module := { b.module with globals := b.module.globals.modify index ({ · with slot }) } } where
  left := ⟨h.left.serves, (blueprint_setGlobal _ _ _).trans h.left.source, h.left.room⟩
  right := ⟨h.right.serves, (blueprint_setGlobal _ _ _).trans h.right.source, h.right.room⟩
  input := h.input
  globals := by
    intro other hother
    dsimp only
    rw [Array.getElem?_modify, Array.getElem?_modify]
    split
    · rename_i heq
      subst heq
      have hset (globals : Option Global) :
          globals.map (fun global => { global with slot }) =
            (globals.map Global.unset).map fun global => { global with slot } := by
        rw [Option.map_map]
        rfl
      rw [hset, h.left.unset_globals, ← h.right.unset_globals, ← hset]
    · rename_i hne
      refine h.globals other (hother.imp_left fun hlt => ?_)
      omega

theorem replays_setGlobal (hback : source.ReadsBack) (index : Nat) :
    Replays (Agrees fuel source index room) (Agrees fuel source (index + 1) room) (setGlobal index) := by
  refine .congr ?_ fun hab => ⟨setGlobal_eq hab.left index, setGlobal_eq hab.right index⟩
  have hskip (h : ∀ global, source.globals[index]? = some global → global.initial = none) :
      Replays (Agrees fuel source index room) (Agrees fuel source (index + 1) room) (pure () : LoadM Unit) := by
    refine (Replays.pure ()).mono id fun hab => hab.mono (fun other hlt => ?_) (Nat.le_refl _)
    rcases Nat.lt_succ_iff_lt_or_eq.1 hlt with hlt | rfl
    · exact .inl hlt
    · exact .inr h
  cases hglobal : source.globals[index]? with
  | none => exact hskip fun global h => nomatch hglobal.symm.trans h
  | some global =>
    simp only [assignInitial]
    cases hinitial : global.initial with
    | none =>
      refine hskip fun other h => ?_
      cases hglobal.symm.trans h
      exact hinitial
    | some expr =>
      have hsources : global.sources = ConstExpr.globalsRead expr := by rw [Global.sources, hinitial]
      refine .bind (replays_constValue global.type fun hab read hread => ?_) fun (slot, _) => ?_
      · exact hab.globalSlot_eq (hback index global hglobal read (hsources ▸ hread))
      · refine .fill (.setGlobal index slot) (fun _ => ⟨rfl, rfl⟩) (fun {state} hstate => ?_)
          fun hab => agrees_setGlobal hab slot
        have hfound := (hstate.left.unset_globals index).trans hglobal
        have hsome : global.initial.isSome := by rw [hinitial]; rfl
        exact fill_setGlobal hfound hsome slot

/-- Globals are set one after the other. -/
theorem replays_setGlobalsFrom (hback : source.ReadsBack) (index count : Nat) :
    Replays (Agrees fuel source index room) (Agrees fuel source (index + count) room)
      ((List.range' index count).forM setGlobal) := by
  induction count generalizing index with
  | zero => exact .pure _
  | succ count ih =>
    have hrest := ih (index + 1)
    rw [Nat.add_right_comm] at hrest
    exact .bind (replays_setGlobal hback index) fun _ => hrest

theorem replays_setGlobals (hback : source.ReadsBack) :
    Replays (Agrees fuel source 0 room) (Agrees fuel source source.globals.size room) setGlobals := by
  have hall := @replays_setGlobalsFrom fuel source room hback 0 source.globals.size
  rw [Nat.zero_add, ← List.range_eq_range'] at hall
  refine .congr hall fun {a b} hab => ?_
  rw [← hab.left.size_globals]
  refine ⟨rfl, ?_⟩
  rw [hab.left.size_globals, ← hab.right.size_globals]
  rfl

/-! ### Data segments -/

/-- Puts the bytes of a data segment into a linear memory. -/
def placeSegment (slot : Slot) (bytes : List UInt8) (memory : LinearMemory) : Except Error LinearMemory :=
  if !memory.allocated then .error .memoryUnallocated
  else if slot.toNat + bytes.length > memory.size then .error .dataSegmentOverflow
  else
    match memory.write slot.toNat bytes with
    | .ok memory => .ok memory
    | .error _ => .error .dataSegmentOverflow

/-- Works on the linear memory alone. -/
def onMemory (change : LinearMemory → Except Error LinearMemory) : LoadM Unit := fun state =>
  match change state.memory with
  | .ok memory => .ok () { state with memory }
  | .error error => .error error state

theorem copySegment_eq (segment : DataSegment) :
    copySegment segment =
      (constValue segment.offset .i32 >>= fun (slot, _) => onMemory (placeSegment slot segment.bytes)) := by
  refine congrArg (Bind.bind _) (funext fun (slot, _) => funext fun state => ?_)
  dsimp only
  rw [run_get_bind]
  unfold onMemory placeSegment
  cases state.memory.allocated with
  | false => rfl
  | true =>
    simp only [Bool.not_true, Bool.false_eq_true, if_false]
    split
    · rfl
    · cases state.memory.write slot.toNat segment.bytes <;> rfl

theorem replays_onMemory (change : LinearMemory → Except Error LinearMemory) :
    Replays (Agrees fuel source known room) (Agrees fuel source known room) (onMemory change) := by
  refine .of_unfilled ?_ ?_ ?_
  · intro a
    unfold onMemory
    cases change a.memory <;> rfl
  · intro a b a' b' _ _ hab ha hb
    unfold onMemory at ha hb
    cases hleft : change a.memory with
    | error error =>
      rw [hleft] at ha
      cases ha
    | ok memory =>
      cases hright : change b.memory with
      | error error =>
        rw [hright] at hb
        cases hb
      | ok memory' =>
        rw [hleft] at ha
        rw [hright] at hb
        cases ha
        cases hb
        exact ⟨rfl, hab.replace rfl rfl hab.left.serves hab.right.serves hab.input⟩
  · intro a b hab henv hmemory
    unfold onMemory
    rw [hmemory]
    cases change b.memory with
    | error error => exact ⟨rfl, henv, hmemory⟩
    | ok memory => exact ⟨rfl, henv, rfl⟩

theorem replays_copySegments :
    Replays (Agrees fuel source source.globals.size room) (Agrees fuel source source.globals.size room)
      copySegments := by
  refine .get_bind (fun {a b} hab => ?_) fun state => ?_
  · have hdata := congrArg (fun module : Module => module.data.toList.forM copySegment) hab.blueprint_eq
    exact hdata
  · refine .forM _ fun segment => ?_
    rw [copySegment_eq]
    exact .bind (replays_constValue_settled segment.offset .i32) fun (slot, _) => replays_onMemory _

/-! ### The table -/

/-- A slot that the table has is set. -/
theorem fill_setSlot {module : Module} {slot : Nat} (hlt : slot < module.table.size) (function : Nat) :
    { module with table := module.table.setIfInBounds slot (some function) } =
      module.fill [.setSlot slot function] := by
  have htable : extendTable module.table (slot + 1) = module.table := by
    unfold extendTable
    rw [Nat.sub_eq_zero_of_le hlt]
    simp
  change _ = { module with table := (extendTable module.table (slot + 1)).setIfInBounds slot (some function) }
  rw [htable]

/-- Changing the tables keeps modules of the same blueprint, as long as there is room. -/
theorem agrees_table {a b : Loading} (h : Agrees fuel source known room a b) {table table' : Array (Option Nat)}
    {room' : Nat} (hroom : room' ≤ table.size) (hroom' : room' ≤ table'.size) :
    Agrees fuel source known room' { a with module := { a.module with table } }
      { b with module := { b.module with table := table' } } where
  left := ⟨h.left.serves, h.left.source, hroom⟩
  right := ⟨h.right.serves, h.right.source, hroom'⟩
  input := h.input
  globals := h.globals

theorem replays_fillSlots (slot count : Nat) (hroom : slot + count ≤ room) :
    Replays (Agrees fuel source known room) (Agrees fuel source known room) (fillSlots slot count) := by
  induction count generalizing slot with
  | zero => exact .pure _
  | succ count ih =>
    refine .bind (replays_read Reader.varU32) fun function => ?_
    refine .get_bind (fun {a b} hab => ?_) fun state => ?_
    · rw [hab.functions_eq]
    · dsimp only
      split
      · exact .throw _
      · refine .bind ?_ fun _ => ih (slot + 1) (by omega)
        refine .fill (.setSlot slot function.toNat) (fun _ => ⟨rfl, rfl⟩) (fun hab => ?_) fun hab => ?_
        · exact fill_setSlot (by have := hab.left.room; omega) function.toNat
        · refine agrees_table hab ?_ ?_
          · rw [Array.size_setIfInBounds]
            exact hab.left.room
          · rw [Array.size_setIfInBounds]
            exact hab.right.room

theorem replays_extendTable (size : Nat) :
    Replays (Agrees fuel source known room) (Agrees fuel source known size)
      (modify fun state =>
        { state with module := { state.module with table := extendTable state.module.table size } } : LoadM Unit) := by
  refine .fill (.extendTable size) (fun _ => ⟨rfl, rfl⟩) (fun _ => rfl) fun hab => agrees_table hab ?_ ?_
  · rw [FillStep.size_extendTable]
    exact Nat.le_max_right _ _
  · rw [FillStep.size_extendTable]
    exact Nat.le_max_right _ _

/-- Whether a table can be backed depends on the environment alone. -/
theorem replays_reserveTable (size : Nat) :
    Replays (Agrees fuel source known room) (Agrees fuel source known room) (reserveTable size) := by
  have hrun (state : Loading) : reserveTable size state =
      if state.env.backs (size * tableSlotSize) then .ok () state else .error .outOfMemory state := by
    unfold reserveTable
    rw [run_get_bind]
    cases state.env.backs (size * tableSlotSize) <;> rfl
  refine .of_unfilled (fun a => ?_) ?_ fun {a b} _ henv hmemory => ?_
  · rw [hrun]
    split <;> rfl
  · intro a b a' b' _ _ hab ha hb
    rw [hrun] at ha hb
    split at ha
    · split at hb
      · cases ha
        cases hb
        exact ⟨rfl, hab⟩
      · cases hb
    · cases ha
  · rw [hrun, hrun, henv]
    split
    · exact ⟨rfl, henv, hmemory⟩
    · exact ⟨rfl, henv, hmemory⟩

theorem replays_segmentHead :
    Replays (Agrees fuel source source.globals.size 0) (Agrees fuel source source.globals.size 0) segmentHead := by
  refine .bind (replays_read Reader.varU32) fun index => ?_
  dsimp only
  split
  · exact .throw _
  · refine .get_bind (fun hab => ?_) fun state => ?_
    · rw [hab.input]
    · refine .bind (replays_constValue_settled _ _) fun (slot, length) => ?_
      exact .bind (replays_read _) fun _ => .bind (replays_read Reader.varU32) fun count => .pure _

theorem replays_segmentBody (offset count : UInt32) :
    Replays (Agrees fuel source known 0) (Agrees fuel source known 0) (segmentBody offset count) := by
  unfold segmentBody
  dsimp only
  split
  · exact .throw _
  · rename_i hstop
    refine .bind (replays_reserveTable _) fun _ => .bind (replays_extendTable _) fun _ => ?_
    refine (replays_fillSlots _ _ ?_).mono id fun hab => hab.mono (fun _ => .inl) (Nat.zero_le _)
    rw [UInt32.le_iff_toNat_le] at hstop
    omega

theorem replays_elementSegment :
    Replays (Agrees fuel source source.globals.size 0) (Agrees fuel source source.globals.size 0) elementSegment :=
  .bind replays_segmentHead fun (offset, count) => replays_segmentBody offset count

theorem replays_elementSegments (count : Nat) :
    Replays (Agrees fuel source source.globals.size 0) (Agrees fuel source source.globals.size 0)
      (elementSegments count) := by
  induction count with
  | zero => exact .pure _
  | succ count ih => exact .bind replays_elementSegment fun _ => ih

theorem replays_openInput :
    Replays (Agrees fuel source known room) (Agrees fuel source known room)
      (modify fun state => { state with input := .ofBytes state.module.elementBytes } : LoadM Unit) := by
  refine .of_unfilled (fun _ => rfl) ?_ fun _ henv hmemory => ⟨rfl, henv, hmemory⟩
  intro a b a' b' _ _ hab ha hb
  cases ha
  cases hb
  have hinput := congrArg (fun module : Module => Reader.ofBytes module.elementBytes) hab.blueprint_eq
  exact ⟨rfl, hab.replace rfl rfl hab.left.serves hab.right.serves hinput⟩

theorem replays_fillTable :
    Replays (Agrees fuel source source.globals.size 0) (Agrees fuel source source.globals.size 0) fillTable := by
  refine .bind replays_openInput fun _ => .get_bind (fun hab => ?_) fun state => replays_elementSegments _
  have hcount := congrArg (fun module : Module => elementSegments module.elementCount) hab.blueprint_eq
  exact hcount

/-- Two runs of loading from the same blueprint. -/
theorem replays_prepare (hback : source.ReadsBack) :
    Replays (Agrees fuel source 0 0) (Agrees fuel source source.globals.size 0) prepare := by
  refine .bind replays_sizeMemory fun _ => .bind (replays_setGlobals hback) fun _ => ?_
  exact .bind replays_copySegments fun _ => replays_fillTable

end Steps

end LoadM

end WasmEngine

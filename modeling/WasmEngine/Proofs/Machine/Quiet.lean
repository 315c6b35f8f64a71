import WasmEngine.Proofs.Machine.Work

/-!
# What operations leave alone

Of everything that an operation of a machine does, only reading a signature interns a type, and only the end of a
failed operation touches the record of the last failure.
-/

namespace WasmEngine

/-! ## Types -/

/-- No type is interned. -/
def Environment.SameTypes (env env' : Environment) : Prop :=
  env'.registry = env.registry

/-- No type is interned in the environment of an area. -/
def CodeArea.SameTypes (area area' : CodeArea) : Prop :=
  area.env.SameTypes area'.env

theorem CodeArea.types_acquire (minLines : Nat) : Keeps SameTypes (acquire minLines) := by
  intro area
  have hcases := acquired minLines area
  generalize acquire minLines area = result at hcases ⊢
  cases hcases with
  | opened htake => rfl
  | pooled hopen htake => rfl
  | served hopen hpool halloc => rfl
  | refused hopen hpool halloc => rfl

/-- No answer to a compiler or an executor interns a type. -/
theorem CodeArea.types_closed : ExecClosed SameTypes where
  refl _ := rfl
  trans first second := Eq.trans second first
  acquire := types_acquire
  release _ _ := rfl
  emit _ := rfl
  patch _ := rfl
  note _ _ := rfl
  grow _ _ _ := rfl
  yields _ _ := rfl

instance : Std.Refl Environment.SameTypes where
  refl _ := rfl

instance : IsTrans Environment Environment.SameTypes where
  trans _ _ _ first second := Eq.trans second first

theorem Machine.types_dispose (machine : Machine) (env : Environment) : env.SameTypes (machine.dispose env) := by
  unfold Machine.dispose
  cases machine.memory.grant <;> rfl

theorem Machine.types_create (slots : Nat) : Keeps Environment.SameTypes (Machine.create slots) := by
  intro env
  unfold Machine.create
  split <;> rfl

theorem Environment.types_constValue (module : Module) (expr : List UInt8) (type : ValType) :
    Keeps SameTypes (Environment.constValue module expr type) := by
  intro env
  rcases evaluated module expr type env with hsame | ⟨scratch, created, hcreate, hafter⟩
  · rw [hsame]
    rfl
  · have hcreated := (Machine.types_create env.config.constSlots).of_ok hcreate
    have hevaluated := CodeArea.types_closed.evaluate module expr type ⟨created, scratch⟩
    rw [hafter]
    exact Eq.trans (Machine.types_dispose _ _) (Eq.trans hevaluated hcreated)

/-- No type is interned while loading goes on. -/
theorem LoadM.types_prepare : Keeps (Loading.Along Environment.SameTypes) prepare :=
  along_prepare Environment.types_constValue fun _ _ _ => rfl

/-! ## Machines -/

/-- Neither the machine's number nor its record of the last failure changes. -/
structure MachineState.SameRecord (state state' : MachineState) : Prop where
  id : state'.machine.id = state.machine.id
  record : state'.machine.error = state.machine.error

instance : Std.Refl MachineState.SameRecord where
  refl _ := ⟨rfl, rfl⟩

instance : IsTrans MachineState MachineState.SameRecord where
  trans _ _ _ first second := ⟨second.id.trans first.id, second.record.trans first.record⟩

/-- Nothing is recorded, and no type is interned. -/
structure MachineState.Quiet (state state' : MachineState) : Prop extends MachineState.SameRecord state state' where
  types : state.env.SameTypes state'.env

instance : Std.Refl MachineState.Quiet where
  refl state := ⟨Std.Refl.refl state, rfl⟩

instance : IsTrans MachineState MachineState.Quiet where
  trans _ _ _ first second :=
    ⟨IsTrans.trans _ _ _ first.toSameRecord second.toSameRecord, Eq.trans second.types first.types⟩

namespace Machine

open MachineState MachineM

theorem quiet_onCode {α : Type} {step : EStateM Error CodeArea α} (h : Keeps CodeArea.SameTypes step) :
    Keeps Quiet (onCode step) := by
  intro state
  unfold onCode
  cases hstep : step ⟨state.env, state.machine.code⟩ with
  | ok value area => exact ⟨⟨rfl, rfl⟩, h.of_ok hstep⟩
  | error error area => exact ⟨⟨rfl, rfl⟩, h.of_error hstep⟩

theorem quiet_ensureCompiled (module function : Nat) : Keeps Quiet (ensureCompiled module function) := by
  refine .bind .get fun state => ?_
  cases state.machine.modules[module]? with
  | none => exact .throw _
  | some found =>
    refine .bind (quiet_onCode (CodeArea.types_closed.compileFunction found function)) fun entry => ?_
    exact .bind (.modify fun _ => ⟨⟨rfl, rfl⟩, rfl⟩) fun _ => .pure _

theorem quiet_run (module : Nat) (entry : CodeRef) (type : FuncType) (purpose : CallPurpose) :
    Keeps Quiet (run module entry type purpose) := by
  intro state
  cases hmodule : state.machine.modules[module]? with
  | none =>
    unfold run
    simp only [run_get_bind, hmodule]
    exact Std.Refl.refl state
  | some found =>
    have hexecuted := CodeArea.types_closed.execute found purpose entry
      { area := ⟨state.env, state.machine.code⟩, stack := state.machine.stack, memory := state.machine.memory }
    rcases h : ExecState.execute found purpose entry
      { area := ⟨state.env, state.machine.code⟩, stack := state.machine.stack, memory := state.machine.memory }
      with ⟨result, after⟩
    rw [h] at hexecuted
    rw [stateAfter_run hmodule h]
    exact ⟨⟨rfl, rfl⟩, hexecuted⟩

theorem quiet_store (offset : Nat) (data : List UInt8) : Keeps Quiet (store offset data) := by
  refine .bind .get fun state => ?_
  cases state.machine.memory.write offset data with
  | error error => exact .throw _
  | ok memory => exact .modify fun _ => ⟨⟨rfl, rfl⟩, rfl⟩

theorem quiet_growMemory (pages : Nat) : Keeps Quiet (onMemory (LinearMemory.growTo pages)) := by
  intro state
  unfold onMemory
  cases LinearMemory.growTo pages ⟨state.machine.memory, state.env.heap⟩ <;> exact ⟨⟨rfl, rfl⟩, rfl⟩

theorem quiet_closed : MachineM.Closed fun _ program => Keeps Quiet program where
  pure := .pure
  throw := .throw
  bind := .bind
  get := .get
  editStack _ := .modify fun _ => ⟨⟨rfl, rfl⟩, rfl⟩
  growMemory := quiet_growMemory
  store := quiet_store
  ensureCompiled := quiet_ensureCompiled
  run := quiet_run

theorem sameRecord_closed : MachineM.Closed fun _ program => Keeps SameRecord program where
  pure := .pure
  throw := .throw
  bind := .bind
  get := .get
  editStack _ := .modify fun _ => ⟨rfl, rfl⟩
  growMemory pages := (quiet_growMemory pages).mono Quiet.toSameRecord
  store offset data := (quiet_store offset data).mono Quiet.toSameRecord
  ensureCompiled module function := (quiet_ensureCompiled module function).mono Quiet.toSameRecord
  run module entry type purpose := (quiet_run module entry type purpose).mono Quiet.toSameRecord

/-- Loading a module interns no type. -/
theorem types_load (module : Module) (state : MachineState) : state.env.SameTypes (load module state).2.env := by
  have hloaded := loaded module state
  generalize load module state = outcome at hloaded ⊢
  cases hloaded with
  | present hlinked => rfl
  | refused hlinked hprepare => exact LoadM.types_prepare.of_error hprepare
  | linked hlinked hprepare hstart => exact LoadM.types_prepare.of_ok hprepare
  | started hlinked hprepare hstart hrun =>
    exact Eq.trans ((quiet_closed.runStart _ _).of_ok hrun).types (LoadM.types_prepare.of_ok hprepare)
  | startFailed hlinked hprepare hstart hrun =>
    exact Eq.trans ((quiet_closed.runStart _ _).of_error hrun).types (LoadM.types_prepare.of_ok hprepare)

end Machine

end WasmEngine

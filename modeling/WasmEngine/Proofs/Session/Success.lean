import WasmEngine.Proofs.Placement.Machines
import WasmEngine.Session.Start

/-!
# Operations that succeed

When the operations of a session go through, and what they give then. Each says what it needs and leaves the rest of
the state open.
-/

namespace WasmEngine

/-! ## Loading a module with functions only -/

theorem LinearMemory.growTo_zero (memory : LinearMemory) (heap : Heap) :
    growTo 0 ⟨memory, heap⟩ = .ok () ⟨{ memory with allocated := true }, heap⟩ := by
  unfold growTo
  rw [run_get_bind]
  simp only [Nat.not_lt_zero, gt_iff_lt, if_false]
  rfl

/-- The module has nothing but functions that loading looks at. -/
structure Module.IsPlain (module : Module) : Prop where
  memory : module.memory = none
  memoryImport : module.memoryImport = none
  globals : module.globals = #[]
  data : module.data = #[]
  elementCount : module.elementCount = 0
  start : module.start = none

theorem LoadM.prepare_of_isPlain {state : Loading} (h : state.module.IsPlain) :
    ∃ memory input, prepare state = .ok () { state with memory, input } := by
  obtain ⟨memory, hsize⟩ : ∃ memory, sizeMemory state = .ok () { state with memory } := by
    refine ⟨{ state.memory.setMaxPages (state.module.maxPages state.env.config) with allocated := true }, ?_⟩
    simp only [sizeMemory, h.memoryImport, h.memory, Option.isSome_none, Bool.false_eq_true, if_false, Option.getD_none,
      LinearMemory.growTo_zero]
  have hglobals : setGlobals { state with memory } = .ok () { state with memory } := by
    unfold setGlobals
    rw [run_get_bind, h.globals]
    rfl
  have hdata : copySegments { state with memory } = .ok () { state with memory } := by
    unfold copySegments
    rw [run_get_bind, h.data]
    rfl
  have hcount : elementSegments state.module.elementCount = pure () := by
    rw [h.elementCount]
    rfl
  refine ⟨memory, .ofBytes state.module.elementBytes, ?_⟩
  unfold prepare
  rw [run_bind_of_ok hsize, run_bind_of_ok hglobals, run_bind_of_ok hdata]
  change elementSegments state.module.elementCount _ = _
  rw [hcount]
  rfl

/-- Loading a module that has nothing but functions takes it into the machine. -/
theorem Machine.load_of_isPlain {module : Module} (howner : module.owner = none) (hplain : module.IsPlain)
    (state : MachineState) :
    ∃ memory, Machine.load module state = (.linked state.machine.modules.size, { state with
      machine := { state.machine with
        memory, modules := state.machine.modules.push { module with owner := some state.machine.id } } }) := by
  have howned : (Loading.mk state.env state.machine.memory { module with owner := some state.machine.id }
      (.ofBytes [])).module.IsPlain := { hplain with }
  obtain ⟨memory, input, hprepare⟩ := LoadM.prepare_of_isPlain howned
  refine ⟨memory, ?_⟩
  unfold Machine.load
  simp only [Module.isLinked, howner, Option.isSome_none, Bool.false_eq_true, if_false]
  rw [hprepare]
  simp only [hplain.start]

/-! ## The first function of a machine -/

namespace CodeArea

/-- The first page of a machine is asked of the heap. -/
theorem acquire_first {area : CodeArea} (hconfig : area.env.config = {}) (hpool : area.env.pool = {})
    (hcode : area.code = {}) (hheap : (area.env.heap.allocate 0x8000).isSome) :
    ∃ area', acquire area.env.config.freeLineThreshold area = .ok 0 area' ∧ area'.code.text 0 = [] ∧
      area'.code.freeLines 0 = 0x800 ∧ area'.env.host = area.env.host := by
  obtain ⟨⟨grant, heap⟩, hgrant⟩ := Option.isSome_iff_exists.1 hheap
  have hcapacity : CodePage.capacityFor? {} 5 = some 0x800 := by decide
  have hserved : CodePage.allocate area.env.config area.env.config.freeLineThreshold
      (UInt32.ofNat area.env.pagesAsked) area.env.heap =
        (some { capacity := 0x800, sequence := UInt32.ofNat area.env.pagesAsked, grant }, heap) := by
    rw [hconfig]
    simp only [CodePage.allocate, hcapacity]
    rw [show 0x800 * Line.byteSize = 0x8000 from rfl, hgrant]
    rfl
  have htake : area.env.pool.take area.env.config.freeLineThreshold = none := by
    rw [hpool]
    rfl
  have hopen : area.code.takeOpen area.env.config.freeLineThreshold = none := by
    rw [hcode]
    rfl
  unfold acquire Environment.obtainPage
  simp only [hopen, htake, hserved]
  rw [hcode]
  exact ⟨_, rfl, rfl, rfl, rfl⟩

end CodeArea

/-- The entry of a function that compiles is stored. -/
theorem Machine.ensureCompiled_of_ok {state : MachineState} {index function : Nat} {module : Module} {entry : CodeRef}
    {area : CodeArea} (hmodule : state.machine.modules[index]? = some module)
    (hcompile : CodeArea.compileFunction module function ⟨state.env, state.machine.code⟩ = .ok entry area) :
    ensureCompiled index function state =
      .ok entry ⟨area.env, { state.machine with code := area.code }.storeCode index [(function, entry)]⟩ := by
  have hcode : MachineM.onCode (CodeArea.compileFunction module function) state =
      .ok entry ⟨area.env, { state.machine with code := area.code }⟩ := by
    unfold MachineM.onCode
    rw [hcompile]
  unfold ensureCompiled
  rw [run_get_bind, hmodule]
  exact run_bind_of_ok hcode

/-! ## Calling a function -/

theorem MachineM.recording_of_ok {α : Type} {describe : Machine → Option String × Option String × String}
    {step : MachineM α} {state state' : MachineState} {value : α} (h : step state = .ok value state') :
    recording describe step state = .ok value state' := by
  unfold recording
  rw [h]

theorem MachineM.resultOf_recording {α : Type} (describe : Machine → Option String × Option String × String)
    (step : MachineM α) (state : MachineState) : resultOf (recording describe step state) = resultOf (step state) := by
  unfold recording
  cases step state with
  | ok value after => rfl
  | error error after => rfl

/-- What running code works on. -/
def MachineState.toExec (state : MachineState) : ExecState where
  area := ⟨state.env, state.machine.code⟩
  stack := state.machine.stack
  memory := state.machine.memory

section Calls

variable {index : Nat} {entry : CodeRef} {type : FuncType} {purpose : CallPurpose} {state : MachineState}
  {module : Module} {exec : ExecState}

/-- The result of a run that comes to its end is in the first slot. -/
theorem Machine.resultOf_run {result : ValType} {slot : Slot} (hmodule : state.machine.modules[index]? = some module)
    (hexec : state.toExec.execute module purpose entry = (.ok (), exec))
    (htype : type.result = some result) (hslot : exec.stack[0]? = some slot) :
    resultOf (Machine.run index entry type purpose state) = .ok (some (Value.ofSlot result slot)) := by
  unfold MachineState.toExec at hexec
  unfold Machine.run
  rw [run_get_bind]
  simp only [hmodule, hexec, run_set_bind, htype, hslot]
  rfl

theorem Machine.resultOf_run_error {error : Error} (hmodule : state.machine.modules[index]? = some module)
    (hexec : (state.toExec.execute module purpose entry).1 = .error error) :
    resultOf (Machine.run index entry type purpose state) = .error error := by
  unfold MachineState.toExec at hexec
  unfold Machine.run
  rw [run_get_bind]
  simp only [hmodule, run_set_bind, hexec]
  rfl

end Calls

/-! ## Sessions -/

namespace Session

section OnMachine

variable {α : Type} {session : Session} {name : String} {machine : Machine} {step : MachineM α}
  (hmachine : session.machines.get? name = some machine)

include hmachine

theorem onMachine_eq : session.onMachine name step =
    (some (resultOf (step ⟨session.env, machine⟩)),
      { session with
        env := (stateAfter (step ⟨session.env, machine⟩)).env
        machines := session.machines.put name (stateAfter (step ⟨session.env, machine⟩)).machine }) := by
  unfold onMachine
  rw [hmachine]
  dsimp only
  cases step ⟨session.env, machine⟩ with
  | ok value state => rfl
  | error error state => rfl

theorem onMachine_of_ok {value : α} {state : MachineState} (hstep : step ⟨session.env, machine⟩ = .ok value state) :
    session.onMachine name step =
      (some (.ok value), { session with env := state.env, machines := session.machines.put name state.machine }) := by
  rw [onMachine_eq hmachine, hstep]
  rfl

theorem outcome_onMachine : (session.onMachine name step).1 = some (resultOf (step ⟨session.env, machine⟩)) := by
  rw [onMachine_eq hmachine]

theorem get?_onMachine : (session.onMachine name step).2.machines.get? name =
    some (stateAfter (step ⟨session.env, machine⟩)).machine := by
  rw [onMachine_eq hmachine, Table.get?_put]

/-- Loading a module that has nothing but functions takes it from its slot into the machine. -/
theorem load_of_isPlain {slot : String} {module : Module} (hslot : session.slots.get? slot = some module)
    (howner : module.owner = none) (hplain : module.IsPlain) :
    ∃ memory, session.load name slot = (some (.ok machine.modules.size), { session with
      machines := session.machines.put name { machine with
        memory, modules := machine.modules.push { module with owner := some machine.id } }
      slots := session.slots.erase slot }) := by
  obtain ⟨memory, hload⟩ := Machine.load_of_isPlain howner hplain ⟨session.env, machine⟩
  refine ⟨memory, ?_⟩
  simp only [load, hmachine, hslot, hload]

end OnMachine

/-- A machine gets its stack if that is addressable. -/
theorem create_of_addressable {session : Session} {name : String} (hnone : session.machines.get? name = none)
    {stackBytes : Nat} (haddr : Heap.addressable (stackBytes / slotSize * slotSize) = true) :
    ∃ machine : Machine, session.create name stackBytes =
        (.ok (⟨UInt32.ofNat session.env.machinesMade⟩, stackBytes / slotSize), { session with
          env := { session.env with machinesMade := session.env.machinesMade + 1 }
          machines := session.machines.put name machine }) ∧
      machine.modules = #[] ∧ machine.code = {} ∧ machine.stack.size = stackBytes / slotSize := by
  simp only [create, Machine.ofStackBytes, Machine.create, haddr, if_true, hnone, Array.size_replicate]
  exact ⟨_, rfl, rfl, rfl, Array.size_replicate⟩

end Session

end WasmEngine

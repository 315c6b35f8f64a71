import WasmEngine.Machine.Compile

/-!
# Running code

The engine's side of the dialogue with an executor, and of the dialogue with a host function that the executor calls.
Functions that get compiled on the way are remembered, so that each is compiled once in a run.
-/

namespace WasmEngine

/-- What an executor works on. -/
structure ExecState where
  area : CodeArea
  stack : Array Slot
  memory : LinearMemory
  /-- The entries of functions that were compiled during the run. -/
  compiled : List (Nat × CodeRef) := []

namespace ExecState

/-- Answers about the slots from `base` on and about the linear memory. -/
def answerFrame (base : Nat) : (op : FrameOp) → ExecState → op.Reply × ExecState
  | .slot index, state =>
    match state.stack[base + index]? with
    | some value => (.ok value, state)
    | none => (.error (.trap .stackOverflow), state)
  | .setSlot index value, state =>
    if base + index < state.stack.size then
      (.ok (), { state with stack := state.stack.setIfInBounds (base + index) value })
    else (.error (.trap .stackOverflow), state)
  | .memory, state => (state.memory, state)
  | .writeMemory offset data, state =>
    match state.memory.write offset data with
    | .ok memory => (.ok (), { state with memory })
    | .error error => (.error error, state)
  | .growMemory pages, state =>
    let update (after : MemoryState) : ExecState :=
      { state with
        memory := after.memory
        area := { state.area with env := { state.area.env with heap := after.heap } } }
    match LinearMemory.growTo pages ⟨state.memory, state.area.env.heap⟩ with
    | .ok () after => (.ok (), update after)
    | .error error after => (.error error, update after)

/-- Calls a host function with its frame at a slot. -/
def callNative (function : HostFunction) (sp : Nat) (cookie : Option UInt64) (state : ExecState) :
    Except Error Unit × ExecState :=
  if sp ≤ state.stack.size then (function.body cookie).run.run (answerFrame sp) state
  else (.error (.trap .stackOverflow), state)

/-- The entry of a function of the running module, compiled on first use. -/
def ensureCompiled (module : Module) (function : Nat) (state : ExecState) : Except Error CodeRef × ExecState :=
  match state.compiled.lookup function with
  | some entry => (.ok entry, state)
  | none =>
    match CodeArea.compileFunction module function state.area with
    | .error error area => (.error error, { state with area })
    | .ok entry area =>
      let compiled :=
        if (module.codeOf function).isNone then (function, entry) :: state.compiled else state.compiled
      (.ok entry, { state with area, compiled })

/-- Answers an executor that runs code of a module. -/
def answer (module : Module) : (op : ExecOp) → ExecState → op.Reply × ExecState
  | .fetch address, state =>
    match state.area.code.line? address with
    | some line => (.ok line, state)
    | none => (.error .invalidCodeRef, state)
  | .ensureCompiled function, state => state.ensureCompiled module function
  | .yieldNow, state =>
    match Environment.yieldNow state.area.env with
    | .ok () env => (.ok (), { state with area := { state.area with env } })
    | .error error env => (.error error, { state with area := { state.area with env } })
  | .callNative function sp cookie, state => state.callNative function sp cookie
  | .slotCount, state => (state.stack.size, state)
  | .frame op, state => answerFrame 0 op state
  | .note text, state => ((), { state with area := { state.area with env := state.area.env.note text } })

/-- Runs the code at an entry with the host's executor. -/
def execute (module : Module) (purpose : CallPurpose) (entry : CodeRef) (state : ExecState) :
    Except Error Unit × ExecState :=
  (state.area.env.host.executor.run module purpose entry).run.run (answer module) state

end ExecState

end WasmEngine

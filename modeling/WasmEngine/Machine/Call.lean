import WasmEngine.Machine.Execute

/-!
# Calls

Calling a function of a loaded module: with arguments given as text, or as a command whose arguments are copied into
linear memory as strings behind a table of pointers.
-/

namespace WasmEngine.Machine

/-- A function with this name is called without arguments. -/
def startEntry : String :=
  "_start"

/-- The bytes that one command argument has to stay below, its closing zero included. -/
def commandArgumentLimit : Nat :=
  4000

/-- The entry and the type of a function that has code. -/
def entryPoint (module function : Nat) : MachineM (CodeRef × Func) := do
  match (← get).machine.modules[module]? with
  | none => throw .functionLookupFailed
  | some found =>
    match found.functions[function]? with
    | none => throw .functionIndexOutOfRange
    | some func =>
      match func.code with
      | none => throw .missingCode
      | some entry => return (entry, func)

/-- Runs the code at an entry on the stack as it is and takes the result from slot 0. -/
def run (module : Nat) (entry : CodeRef) (type : FuncType) (purpose : CallPurpose) : MachineM (Option Value) := do
  let state ← get
  match state.machine.modules[module]? with
  | none => throw .functionLookupFailed
  | some found =>
    let exec : ExecState :=
      { area := ⟨state.env, state.machine.code⟩, stack := state.machine.stack, memory := state.machine.memory }
    let (result, exec) := exec.execute found purpose entry
    let machine :=
      { state.machine with code := exec.area.code, stack := exec.stack, memory := exec.memory }
    set (MachineState.mk exec.area.env (machine.storeCode module exec.compiled))
    match result with
    | .error error => throw error
    | .ok () =>
      match type.result with
      | none => return none
      | some result =>
        match exec.stack[0]? with
        | none => throw (.trap .stackOverflow)
        | some slot => return some (Value.ofSlot result slot)

/-- Zeros in the first slots. -/
def clearSlots (stack : Array Slot) (count : Nat) : Array Slot :=
  Array.replicate count 0 ++ stack.extract count stack.size

/-- Reads argument texts into the slots from `index` on. -/
def fillArguments : Nat → List ValType → List String → MachineM Unit
  | index, type :: types, text :: texts => do
    match Value.ofText? type text with
    | .error error => throw error
    | .ok value =>
      MachineM.edit fun machine => { machine with stack := machine.stack.setIfInBounds index value.toSlot }
      fillArguments (index + 1) types texts
  | _, _, _ => pure ()

/-- The arguments that a function is called with, if they are as many as it takes. -/
def acceptArguments (func : Func) (arguments : List String) : MachineM (List String) :=
  if func.name = some startEntry then pure []
  else if arguments.length ≠ func.type.type.params.length then throw .argumentCountMismatch
  else pure arguments

/-- Calls a function with arguments given as text. -/
def invoke (module function : Nat) (arguments : List String) (purpose : CallPurpose) : MachineM (Option Value) := do
  let (entry, func) ← entryPoint module function
  let type := func.type.type
  let arguments ← acceptArguments func arguments
  MachineM.failIf (type.params.length > (← get).machine.stack.size) (.trap .stackOverflow)
  MachineM.edit fun machine => { machine with stack := clearSlots machine.stack type.params.length }
  fillArguments 0 type.params arguments
  run module entry type purpose

/-- What is recorded when a call fails. -/
def callRecord (module function : Nat) (machine : Machine) : Option String × Option String × String :=
  (machine.moduleName module, machine.describe module function, "")

/-- Calls a function with arguments given as text and gives its result. -/
def call (module function : Nat) (arguments : List String) : MachineM (Option Value) :=
  MachineM.recording (callRecord module function) (invoke module function arguments .ordinary)

/-- A 32-bit number with the low byte first. -/
def bytesOfU32 (value : Nat) : List UInt8 :=
  [UInt8.ofNat value, UInt8.ofNat (value / 0x100), UInt8.ofNat (value / 0x10000), UInt8.ofNat (value / 0x1000000)]

/-- The bytes that command arguments take up: a pointer each, and the strings with their closing zeros. -/
def commandSize : List (List UInt8) → Nat
  | [] => 0
  | argument :: arguments => 4 + argument.length + 1 + commandSize arguments

/-- Overwrites a committed range of the linear memory. -/
def store (offset : Nat) (data : List UInt8) : MachineM Unit := do
  match (← get).machine.memory.write offset data with
  | .error error => throw error
  | .ok memory => MachineM.edit fun machine => { machine with memory }

/-- Writes pointers and strings of command arguments. -/
def storeArguments : (pointer string : Nat) → List (List UInt8) → MachineM Unit
  | _, _, [] => pure ()
  | pointer, string, argument :: arguments => do
    MachineM.failIf (string ≥ 0x100000000) .memoryOverflow
    store pointer (bytesOfU32 string)
    store string argument
    store (string + argument.length) [0]
    storeArguments (pointer + 4) (string + argument.length + 1) arguments

/-- Copies command arguments past the end of the linear memory and gives the place of the pointer table. -/
def copyArguments (arguments : List (List UInt8)) : MachineM Nat := do
  MachineM.failIf (arguments.any fun argument => argument.length + 1 ≥ commandArgumentLimit) .insaneArgumentLength
  let base := (← get).machine.memory.size
  let stop := base + commandSize arguments
  MachineM.failIf (stop ≥ 0x10000000000000000) .memoryOverflow
  let pages := (stop + pageSize - 1) / pageSize
  MachineM.failIf (pages ≥ 0x100000000) .memoryOverflow
  MachineM.onMemory (LinearMemory.growTo pages)
  -- A hard cap on the memory may have cut the growth short.
  MachineM.failIf ((← get).machine.memory.size < stop) .memoryOverflow
  MachineM.failIf (base ≥ 0x100000000) .memoryOverflow
  storeArguments base (base + arguments.length * 4) arguments
  return base

/-- Hands command arguments over: their number in slot 0 and the place of their pointers in slot 1. -/
def placeArguments (arguments : List String) : MachineM Unit := do
  MachineM.failIf (arguments.length ≥ 0x100000000) .insaneArgumentCount
  MachineM.failIf ((← get).machine.stack.size < 2) (.trap .stackOverflow)
  let table ← copyArguments (arguments.map Text.Utf8.encode)
  MachineM.edit fun machine =>
    { machine with
      stack := (machine.stack.setIfInBounds 0 (UInt64.ofNat arguments.length)).setIfInBounds 1
        (UInt64.ofNat table) }

/-- Calls a function as a command. -/
def invokeMain (module function : Nat) (arguments : List String) : MachineM (Option Value) := do
  let (entry, func) ← entryPoint module function
  if !arguments.isEmpty then placeArguments arguments
  run module entry func.type.type .ordinary

/-- Calls a function as a command: it finds the number of its arguments in slot 0 and the place of their pointers in
slot 1. -/
def callMain (module function : Nat) (arguments : List String) : MachineM (Option Value) :=
  MachineM.recording (callRecord module function) (invokeMain module function arguments)

end WasmEngine.Machine

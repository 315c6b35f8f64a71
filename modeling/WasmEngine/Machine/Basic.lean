import WasmEngine.Environment

/-!
# Machines

A machine is one slot stack, one linear memory, the modules loaded into it and the code pages that their code lives
in. Every failing operation of a machine leaves a record of what went wrong.
-/

namespace WasmEngine

/-- What is known about the failure recorded last. -/
structure ErrorRecord where
  error : Option Error := none
  machine : Option MachineId := none
  module : Option String := none
  function : Option String := none
  message : String := ""

namespace ErrorRecord

/-- Whether nothing was recorded. -/
def isEmpty (record : ErrorRecord) : Bool :=
  record.error.isNone

/-- The record as a sentence. -/
def render (record : ErrorRecord) : String :=
  match record.error with
  | none => "no error"
  | some error =>
    let place (before : String) : Option String → String
      | none => ""
      | some name => before ++ Text.quoted name
    error.message ++ place " in module " record.module ++ place " function " record.function ++
      (if record.message.isEmpty then "" else ": " ++ record.message)

end ErrorRecord

/-- A machine. -/
structure Machine where
  id : MachineId
  modules : Array Module := #[]
  code : CodeStore := {}
  memory : LinearMemory
  stack : Array Slot
  error : ErrorRecord := {}

/-- The number of bytes of a slot. -/
def slotSize : Nat :=
  8

namespace Machine

/-- A new machine with a stack of so many slots. -/
def create (slots : Nat) : EStateM Error Environment Machine := fun env =>
  if Heap.addressable (slots * slotSize) then
    let id : MachineId := ⟨UInt32.ofNat env.machinesMade⟩
    let memory := { LinearMemory.create env.config id slots with backing := env.memoryBacking }
    .ok { id, memory, stack := Array.replicate slots 0 }
      { env with machinesMade := env.machinesMade + 1 }
  else .error .outOfMemory env

/-- A new machine with a stack of so many bytes. -/
def ofStackBytes (bytes : Nat) : EStateM Error Environment Machine :=
  create (bytes / slotSize)

/-- Gives back what a machine holds: its code pages go to the pool, then the bytes of its memory to the heap. -/
def dispose (machine : Machine) (env : Environment) : Environment :=
  let env := env.recycle machine.code.drain
  match machine.memory.grant with
  | none => env
  | some block => env.free block

/-- The linear memory with an index: there is one, unless it is empty. -/
def memory? (machine : Machine) (index : Nat) : Option LinearMemory :=
  if index = 0 && !machine.memory.isEmpty then some machine.memory else none

/-- There is no other linear memory. -/
theorem eq_of_memory? {machine : Machine} {index : Nat} {memory : LinearMemory}
    (h : machine.memory? index = some memory) : memory = machine.memory := by
  unfold memory? at h
  split at h
  · exact (Option.some.inj h).symm
  · cases h

/-- Records a failure. -/
def record (machine : Machine) (error : Error) (module function : Option String) (message : String) : Machine :=
  { machine with error := { error := some error, machine := some machine.id, module, function, message } }

/-- The name of a loaded module. -/
def moduleName (machine : Machine) (index : Nat) : Option String :=
  match machine.modules[index]? with
  | none => none
  | some module => module.name

/-- The name of a function of a loaded module, for people. -/
def describe (machine : Machine) (module function : Nat) : Option String :=
  match machine.modules[module]? with
  | none => none
  | some found => some (found.describe function)

/-- Stores the entries of functions that were compiled for a module, given newest first. -/
def storeCode (machine : Machine) (module : Nat) (entries : List (Nat × CodeRef)) : Machine :=
  { machine with
    modules := machine.modules.modify module fun found =>
      entries.foldr (fun (function, entry) found => found.setCode function entry) found }

end Machine

/-- A machine in its environment. -/
structure MachineState where
  env : Environment
  machine : Machine

/-- An operation of a machine. -/
abbrev MachineM := EStateM Error MachineState

namespace MachineM

/-- Does something to the machine. -/
def edit (change : Machine → Machine) : MachineM Unit :=
  modify fun state => { state with machine := change state.machine }

/-- Fails if a condition holds. -/
def failIf (condition : Prop) [Decidable condition] (error : Error) : MachineM Unit :=
  if condition then throw error else pure ()

/-- Works on the machine's code pages. -/
def onCode {α : Type} (step : EStateM Error CodeArea α) : MachineM α := fun state =>
  match step ⟨state.env, state.machine.code⟩ with
  | .ok value area => .ok value ⟨area.env, { state.machine with code := area.code }⟩
  | .error error area => .error error ⟨area.env, { state.machine with code := area.code }⟩

/-- Works on the environment. -/
def onEnvironment {α : Type} (step : EStateM Error Environment α) : MachineM α := fun state =>
  match step state.env with
  | .ok value env => .ok value { state with env }
  | .error error env => .error error { state with env }

/-- Works on the machine's linear memory. -/
def onMemory {α : Type} (step : EStateM Error MemoryState α) : MachineM α := fun state =>
  let update (after : MemoryState) : MachineState :=
    { env := { state.env with heap := after.heap }, machine := { state.machine with memory := after.memory } }
  match step ⟨state.machine.memory, state.env.heap⟩ with
  | .ok value after => .ok value (update after)
  | .error error after => .error error (update after)

/-- Records the failure of an operation, if it fails. -/
def recording {α : Type} (describe : Machine → Option String × Option String × String) (step : MachineM α) :
    MachineM α := fun state =>
  match step state with
  | .ok value after => .ok value after
  | .error error after =>
    let (module, function, message) := describe after.machine
    .error error { after with machine := after.machine.record error module function message }

end MachineM

/-- Grows the linear memory of a machine. -/
def Machine.grow (pages : Nat) : MachineM Unit :=
  MachineM.recording (fun _ => (none, none, "")) (MachineM.onMemory (LinearMemory.growTo pages))

end WasmEngine

import WasmEngine.Binary.Reader
import WasmEngine.Machine.Call
import WasmEngine.Machine.ConstValue

/-!
# Loading modules

Loading sizes the linear memory, sets the globals, copies the data segments, fills the table, links the module into the
machine and runs its start function. A module whose loading fails before it is linked is handed back; what was done to
the linear memory stays done.
-/

namespace WasmEngine

/-- The maximum that a module sets for linear memory: the one that it declares, unless that is zero, and else the
default. -/
def Module.maxPages (module : Module) (config : Config) : Nat :=
  match module.memory with
  | some ⟨_, some maximum⟩ => if maximum > 0 then maximum else config.defaultMaxPages
  | _ => config.defaultMaxPages

/-- What loading works on before the module is linked. -/
structure Loading where
  env : Environment
  memory : LinearMemory
  module : Module
  /-- The element segments not yet read. -/
  input : Reader := .ofBytes []

/-- A step of loading. -/
abbrev LoadM := EStateM Error Loading

namespace LoadM

/-- The value of a constant expression of the module, and its length. -/
def constValue (expr : List UInt8) (type : ValType) : LoadM (Slot × Nat) := fun state =>
  match Environment.constValue state.module expr type state.env with
  | .ok value env => .ok value { state with env }
  | .error error env => .error error { state with env }

/-- Reads from the element segments. -/
def read {α : Type} (read : Read α) : LoadM α := fun state =>
  match read state.input with
  | .ok value input => .ok value { state with input }
  | .error error input => .error error { state with input }

/-- Sizes the linear memory, unless it is imported. -/
def sizeMemory : LoadM Unit := fun state =>
  if state.module.memoryImport.isSome then .ok () state
  else
    let limits := state.module.memory.getD ⟨0, none⟩
    let maximum := state.module.maxPages state.env.config
    let update (after : MemoryState) : Loading :=
      { state with memory := after.memory, env := { state.env with heap := after.heap } }
    match LinearMemory.growTo limits.initial ⟨state.memory.setMaxPages maximum, state.env.heap⟩ with
    | .ok () after => .ok () (update after)
    | .error error after => .error error (update after)

/-- Sets a global to the value of its constant expression. Imported globals are left as they are. -/
def setGlobal (index : Nat) : LoadM Unit := do
  match (← get).module.globals[index]? with
  | none => pure ()
  | some global =>
    match global.initial with
    | none => pure ()
    | some expr =>
      let (slot, _) ← constValue expr global.type
      modify fun state =>
        { state with
          module := { state.module with globals := state.module.globals.modify index ({ · with slot }) } }

/-- Sets the globals in order. -/
def setGlobals : LoadM Unit := do
  (List.range (← get).module.globals.size).forM setGlobal

/-- Copies a data segment into linear memory. -/
def copySegment (segment : DataSegment) : LoadM Unit := do
  let (slot, _) ← constValue segment.offset .i32
  let offset := slot.toNat
  let state ← get
  if !state.memory.allocated then throw .memoryUnallocated
  if offset + segment.bytes.length > state.memory.size then throw .dataSegmentOverflow
  match state.memory.write offset segment.bytes with
  | .ok memory => set { state with memory }
  | .error _ => throw .dataSegmentOverflow

/-- Copies the data segments in order. -/
def copySegments : LoadM Unit := do
  (← get).module.data.toList.forM copySegment

/-- Makes table 0 at least so long; new slots are empty. -/
def extendTable (table : Array (Option Nat)) (size : Nat) : Array (Option Nat) :=
  table ++ Array.replicate (size - table.size) none

/-- Reads function indices into so many table slots from `slot` on. -/
def fillSlots (slot : Nat) : Nat → LoadM Unit
  | 0 => pure ()
  | count + 1 => do
    let function ← read Reader.varU32
    if function.toNat ≥ (← get).module.functions.size then throw .functionIndexOutOfRange
    modify fun state =>
      { state with
        module :=
          { state.module with table := state.module.table.setIfInBounds slot (some function.toNat) } }
    fillSlots (slot + 1) count

/-- The bytes that a slot of table 0 takes. -/
def tableSlotSize : Nat := 8

/-- Fails if the system cannot back a table of so many slots. It is asked even if the table is that long already, which
makes no difference on one system: such a table was backed before. -/
def reserveTable (size : Nat) : LoadM Unit := do
  if !(← get).env.backs (size * tableSlotSize) then throw .outOfMemory

/-- Reads the head of an element segment: the first table slot that it fills, and how many it fills. -/
def segmentHead : LoadM (UInt32 × UInt32) := do
  if (← read Reader.varU32) ≠ 0 then throw .elementTableIndex
  let (slot, length) ← constValue (← get).input.rest .i32
  read (Reader.skip length)
  let count ← read Reader.varU32
  return (slot.toUInt32, count)

/-- Reads the functions of an element segment into the table. The end of its slots is a 32-bit number, and a segment
that does not end after its start is refused. -/
def segmentBody (offset count : UInt32) : LoadM Unit := do
  let stop := offset + count
  if stop ≤ offset then throw .tableOverflow
  reserveTable stop.toNat
  modify fun state =>
    { state with module := { state.module with table := extendTable state.module.table stop.toNat } }
  fillSlots offset.toNat (stop.toNat - offset.toNat)

/-- Reads an element segment. -/
def elementSegment : LoadM Unit := do
  let (offset, count) ← segmentHead
  segmentBody offset count

/-- Reads so many element segments. -/
def elementSegments : Nat → LoadM Unit
  | 0 => pure ()
  | count + 1 => do
    elementSegment
    elementSegments count

/-- Fills the table. -/
def fillTable : LoadM Unit := do
  modify fun state => { state with input := .ofBytes state.module.elementBytes }
  elementSegments (← get).module.elementCount

/-- Everything that is done before the module is linked. -/
def prepare : LoadM Unit := do
  sizeMemory
  setGlobals
  copySegments
  fillTable

end LoadM

/-- How loading ended. -/
inductive LoadOutcome where
  /-- The module is linked at an index. -/
  | linked (index : Nat)
  /-- The module is handed back. -/
  | refused (error : Error) (module : Module)
  /-- The module is linked at an index, but its start function failed. -/
  | startFailed (error : Error) (index : Nat)

namespace Machine

/-- Compiles and runs a start function. -/
def runStart (module function : Nat) : MachineM Unit := do
  let _ ← ensureCompiled module function
  let _ ← invoke module function [] .start

/-- Loads a module. -/
def load (module : Module) (state : MachineState) : LoadOutcome × MachineState :=
  if module.isLinked then
    (.refused .moduleAlreadyLinked module,
      { state with machine := state.machine.record .moduleAlreadyLinked module.name none "" })
  else
    let owned := { module with owner := some state.machine.id }
    match LoadM.prepare { env := state.env, memory := state.machine.memory, module := owned } with
    | .error error after =>
      let machine := { state.machine with memory := after.memory }
      (.refused error { after.module with owner := none },
        ⟨after.env, machine.record error after.module.name none ""⟩)
    | .ok () after =>
      let index := state.machine.modules.size
      let machine :=
        { state.machine with memory := after.memory, modules := state.machine.modules.push after.module }
      match after.module.start with
      | none => (.linked index, ⟨after.env, machine⟩)
      | some start =>
        match runStart index start ⟨after.env, machine⟩ with
        | .ok () state => (.linked index, state)
        | .error error state =>
          (.startFailed error index,
            { state with
              machine := state.machine.record error (state.machine.moduleName index)
                (state.machine.describe index start) "start function failed" })

end Machine

end WasmEngine

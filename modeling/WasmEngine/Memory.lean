import WasmEngine.Config
import WasmEngine.Heap

/-!
# Linear memory

The bytes that running code loads and stores: whole pages, which only ever grow, with zeros for new ones. They are paid
for with one grant of the heap, which is obtained before the system is asked to back them.
-/

namespace WasmEngine

/-- The number of a machine within its environment. -/
structure MachineId where
  number : UInt32
  deriving DecidableEq

/-- How a machine is named to people. -/
def MachineId.label (id : MachineId) : String :=
  "runtime#" ++ toString id.number.toNat

/-- What travels with the linear memory into compiled code. -/
structure MemoryHeader where
  /-- The number of committed bytes. -/
  length : Nat := 0
  /-- The machine that the memory belongs to. -/
  owner : MachineId
  /-- The number of slots of that machine's stack. -/
  maxStack : Nat

/-- A machine's linear memory. -/
structure LinearMemory where
  header : MemoryHeader
  bytes : Array UInt8 := #[]
  numPages : Nat := 0
  maxPages : Nat
  /-- A hard cap on the number of bytes. -/
  limit : Option Nat
  /-- Whether the memory was ever sized, be it to zero pages. -/
  allocated : Bool := false
  /-- What the heap handed out for the bytes. -/
  grant : Option Block := none
  /-- The most bytes that the system can back, if there is a bound. -/
  backing : Option Nat := none

/-- A linear memory together with the heap that it grows from. -/
structure MemoryState where
  memory : LinearMemory
  heap : Heap

namespace LinearMemory

/-- The memory of a new machine. -/
def create (config : Config) (owner : MachineId) (maxStack : Nat) : LinearMemory :=
  { header := { owner, maxStack }, maxPages := config.defaultMaxPages, limit := config.memoryLimit }

/-- The number of committed bytes. -/
def size (memory : LinearMemory) : Nat :=
  memory.bytes.size

/-- Whether no byte is committed. -/
def isEmpty (memory : LinearMemory) : Bool :=
  memory.bytes.isEmpty

/-- Sets the maximum, which never passes what 32-bit addresses reach. -/
def setMaxPages (memory : LinearMemory) (pages : Nat) : LinearMemory :=
  { memory with maxPages := min pages pageCeiling }

/-- How many bytes a growth to `pages` pages commits: a hard cap is rounded down to whole pages. -/
def targetSize (memory : LinearMemory) (pages : Nat) : Nat :=
  match memory.limit with
  | none => pages * pageSize
  | some limit => min (pages * pageSize) (limit - limit % pageSize)

/-- Obtains or resizes the grant that pays for `bytes` bytes. -/
def obtainGrant (bytes : Nat) : EStateM Error MemoryState Unit := fun state =>
  let served :=
    match state.memory.grant with
    | none => state.heap.allocate bytes
    | some block => state.heap.reallocate block bytes
  match served with
  | none => .error .outOfMemory state
  | some (block, heap) => .ok () { memory := { state.memory with grant := some block }, heap }

/-- Commits `bytes` bytes in all; the new ones are zeros. -/
def commit (memory : LinearMemory) (bytes : Nat) : LinearMemory :=
  { memory with
    bytes := memory.bytes ++ Array.replicate (bytes - memory.size) 0
    numPages := bytes / pageSize
    header := { memory.header with length := bytes } }

/-- Whether the system can back so many bytes. -/
def backs (memory : LinearMemory) (bytes : Nat) : Bool :=
  match memory.backing with
  | none => true
  | some most => bytes ≤ most

/-- Commits bytes that the system can back. Those that it cannot are refused, and the grant stays as it is. -/
def commitBacked (bytes : Nat) : EStateM Error MemoryState Unit := fun state =>
  if state.memory.backs bytes then .ok () { state with memory := state.memory.commit bytes }
  else .error .outOfMemory state

/-- Grows the memory to `pages` pages. A request at or below the current size changes nothing but that the memory
counts as sized from then on. -/
def growTo (pages : Nat) : EStateM Error MemoryState Unit := do
  let state ← get
  if pages > state.memory.maxPages then throw .memoryOverflow
  modify fun state => { state with memory := { state.memory with allocated := true } }
  if pages > state.memory.numPages then
    let bytes := state.memory.targetSize pages
    if bytes > state.memory.size then
      obtainGrant bytes
      commitBacked bytes

/-- The bytes of a committed range. -/
def read (memory : LinearMemory) (offset len : Nat) : Except Error (List UInt8) :=
  if offset + len ≤ memory.size then .ok (memory.bytes.extract offset (offset + len)).toList
  else .error (.trap .memoryOutOfBounds)

/-- Puts data into an array from a place on. -/
def overwrite (bytes : Array UInt8) : Nat → List UInt8 → Array UInt8
  | _, [] => bytes
  | offset, byte :: data => overwrite (bytes.setIfInBounds offset byte) (offset + 1) data

/-- Overwrites a committed range. -/
def write (memory : LinearMemory) (offset : Nat) (data : List UInt8) : Except Error LinearMemory :=
  if offset + data.length ≤ memory.size then .ok { memory with bytes := overwrite memory.bytes offset data }
  else .error (.trap .memoryOutOfBounds)

/-- The runs of bytes other than zero, each as long as possible, with their offsets. -/
def nonzeroRuns (memory : LinearMemory) : List (Nat × List UInt8) :=
  let close (runs : List (Nat × List UInt8)) : Option (Nat × List UInt8) → List (Nat × List UInt8)
    | none => runs
    | some (start, run) => (start, run.reverse) :: runs
  let step (state : Nat × Option (Nat × List UInt8) × List (Nat × List UInt8)) (byte : UInt8) :=
    let (offset, current, runs) := state
    if byte = 0 then (offset + 1, none, close runs current)
    else
      match current with
      | none => (offset + 1, some (offset, [byte]), runs)
      | some (start, run) => (offset + 1, some (start, byte :: run), runs)
  let (_, current, runs) := memory.bytes.foldl step (0, none, [])
  (close runs current).reverse

end LinearMemory

end WasmEngine

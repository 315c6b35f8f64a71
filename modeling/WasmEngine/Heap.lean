/-!
# Heaps

A heap does the accounting for the engine's large buffers. The system heap serves every request and counts modulo `2 ^
64`. An arena is a fixed region handed out from the bottom up; only the block handed out last can be given back or
resized in place.
-/

namespace WasmEngine

/-- A region handed out by a heap. -/
structure Block where
  offset : Nat
  len : Nat
  deriving DecidableEq

/-- The least multiple of `step` that is at least `value`. -/
def roundUp (value step : Nat) : Nat :=
  (value + step - 1) / step * step

/-- A fixed region handed out from the bottom up. -/
structure Arena where
  capacity : Nat
  align : Nat
  /-- The end of the part handed out so far. -/
  top : Nat := 0
  /-- The block handed out last, unless it was given back. -/
  last : Option Block := none
  /-- How many bytes are handed out. -/
  inUse : Nat := 0

namespace Arena

/-- The alignment of blocks unless another one is asked for. -/
def defaultAlign : Nat :=
  8

/-- Whether a number is a power of two. -/
def isPowerOfTwo (n : Nat) : Bool :=
  n = Nat.pow 2 n.log2

/-- An empty arena. The alignment has to be a power of two. -/
def ofAlign? (capacity align : Nat) : Except String Arena :=
  if isPowerOfTwo align then .ok { capacity, align }
  else .error "arena alignment must be a power of two"

/-- An empty arena with the default alignment. -/
def ofCapacity (capacity : Nat) : Arena :=
  { capacity, align := defaultAlign }

/-- The aligned end of a block, if it lies within the arena. -/
def endOf? (arena : Arena) (offset len : Nat) : Option Nat :=
  let stop := roundUp (offset + len) arena.align
  if stop ≤ arena.capacity then some stop else none

/-- Hands out `len` bytes at the top. -/
def allocate (arena : Arena) (len : Nat) : Option (Block × Arena) :=
  match arena.endOf? arena.top len with
  | none => none
  | some stop =>
    let block : Block := ⟨arena.top, len⟩
    some (block, { arena with top := stop, last := some block, inUse := arena.inUse + len })

/-- Takes a block back. Its space can be handed out again only if it is the last block. -/
def free (arena : Arena) (block : Block) : Arena :=
  let arena := { arena with inUse := arena.inUse - block.len }
  if arena.last = some block then { arena with top := block.offset, last := none } else arena

/-- Resizes a block: the last one in place, any other one by moving it to the top. -/
def reallocate (arena : Arena) (block : Block) (len : Nat) : Option (Block × Arena) :=
  if arena.last = some block then
    match arena.endOf? block.offset len with
    | none => none
    | some stop =>
      let resized : Block := ⟨block.offset, len⟩
      some (resized, { arena with top := stop, last := some resized, inUse := arena.inUse - block.len + len })
  else
    match arena.allocate len with
    | none => none
    | some (moved, arena) => some (moved, arena.free block)

end Arena

/-- A heap of one of the two sorts. -/
inductive Heap where
  /-- Serves every request; counts the bytes handed out modulo `2 ^ 64`. -/
  | system (inUse : UInt64)
  | arena (arena : Arena)

namespace Heap

/-- Hands out `len` bytes. -/
def allocate : Heap → Nat → Option (Block × Heap)
  | .system inUse, len => some (⟨0, len⟩, .system (inUse + UInt64.ofNat len))
  | .arena region, len => (region.allocate len).map fun (block, region) => (block, .arena region)

/-- Resizes a block, which may move it. -/
def reallocate : Heap → Block → Nat → Option (Block × Heap)
  | .system inUse, block, len => some (⟨0, len⟩, .system (inUse + UInt64.ofNat len - UInt64.ofNat block.len))
  | .arena region, block, len => (region.reallocate block len).map fun (block, region) => (block, .arena region)

/-- Takes a block back. -/
def free : Heap → Block → Heap
  | .system inUse, block => .system (inUse - UInt64.ofNat block.len)
  | .arena region, block => .arena (region.free block)

/-- How many bytes are handed out. -/
def inUse : Heap → Nat
  | .system inUse => inUse.toNat
  | .arena region => region.inUse

/-- The end of the part of an arena handed out so far. -/
def top? : Heap → Option Nat
  | .system _ => none
  | .arena region => some region.top

/-- The size of an arena. -/
def capacity? : Heap → Option Nat
  | .system _ => none
  | .arena region => some region.capacity

/-- Whether a buffer of that many bytes fits the address space at all. -/
def addressable (bytes : Nat) : Bool :=
  bytes ≤ 0x800000000000

end Heap

end WasmEngine

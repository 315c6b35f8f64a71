import WasmEngine.Leb128.Decode

/-!
# Writing LEB128 integers

`encodeUnsigned` and `encodeSigned` give the shortest encoding of a number. `putUnsigned` and `putSigned` write the
same bytes one at a time into a `Buffer`, which either grows or overwrites a fixed number of cells and then runs out of
space.
-/

namespace WasmEngine.Leb128

/-- The last byte of an encoding, which carries the low seven bits and ends the run. -/
def lastByte (bits : Nat) : UInt8 :=
  UInt8.ofNat (bits % 128)

/-- A byte that carries the low seven bits and announces another one. -/
def moreByte (bits : Nat) : UInt8 :=
  UInt8.ofNat (bits % 128 + 128)

/-- The shortest encoding of an unsigned number. -/
def encodeUnsigned (value : Nat) : List UInt8 :=
  if value < 128 then [lastByte value]
  else moreByte value :: encodeUnsigned (value / 128)
termination_by value

/-- A signed number fits into one byte when its seven-bit two's complement form does. -/
def fitsOneGroup (value : Int) : Bool :=
  -64 ≤ value && value < 64

/-- Dropping the low seven bits of a number that does not fit into one byte makes it smaller. -/
theorem natAbs_shift_lt {value : Int} (h : fitsOneGroup value = false) :
    (value / 128).natAbs < value.natAbs := by
  simp only [fitsOneGroup, Bool.and_eq_false_iff, decide_eq_false_iff_not] at h
  omega

/-- The shortest encoding of a signed number. -/
def encodeSigned (value : Int) : List UInt8 :=
  if h : fitsOneGroup value then [lastByte (value % 128).toNat]
  else moreByte (value % 128).toNat :: encodeSigned (value / 128)
termination_by value.natAbs
decreasing_by exact natAbs_shift_lt (by simpa using h)

/-- A place that bytes are written to. -/
structure Buffer where
  /-- The bytes written so far. -/
  written : List UInt8 := []
  /-- The cells still to be overwritten, or `none` when the buffer grows as needed. -/
  room : Option (List UInt8) := none

namespace Buffer

/-- A buffer over cells that already hold `cells`. -/
def ofCells (cells : List UInt8) : Buffer :=
  { room := some cells }

/-- Everything the buffer holds: what was written and the cells left as they were. -/
def contents (buffer : Buffer) : List UInt8 :=
  buffer.written ++ buffer.room.getD []

/-- Writes one byte into the next cell. -/
def put (byte : UInt8) : EStateM Fault Buffer Unit := fun buffer =>
  match buffer.room with
  | none => .ok () { buffer with written := buffer.written ++ [byte] }
  | some [] => .error .noSpace buffer
  | some (_ :: room) => .ok () { written := buffer.written ++ [byte], room := some room }

end Buffer

/-- Writes an unsigned number and gives the number of bytes it took. -/
def putUnsigned (value : Nat) : EStateM Fault Buffer Nat :=
  if value < 128 then do
    Buffer.put (lastByte value)
    return 1
  else do
    Buffer.put (moreByte value)
    let count ← putUnsigned (value / 128)
    return count + 1
termination_by value

/-- Writes a signed number and gives the number of bytes it took. -/
def putSigned (value : Int) : EStateM Fault Buffer Nat :=
  if h : fitsOneGroup value then do
    Buffer.put (lastByte (value % 128).toNat)
    return 1
  else do
    Buffer.put (moreByte (value % 128).toNat)
    let count ← putSigned (value / 128)
    return count + 1
termination_by value.natAbs
decreasing_by exact natAbs_shift_lt (by simpa using h)

end WasmEngine.Leb128

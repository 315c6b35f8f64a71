import WasmEngine.Binary.Sequence

/-!
# Commands of scripted compilation

A scripted function body says line by line what the compiler is to do. Its commands are read from bytes until the
bytes or the commands end.
-/

namespace WasmEngine.Script

/-- What the scripted compiler is told to do. -/
inductive Command where
  /-- Fails. -/
  | fail
  /-- Emits an operation. -/
  | emitOp (code : UInt16)
  /-- Emits an immediate operand. -/
  | emitImm (value : UInt64)
  /-- Goes on with a page that has so many free lines. -/
  | switchPage (minLines : UInt64)
  /-- Replaces a line by an immediate operand. -/
  | patch (page line value : UInt64)
  /-- Notes where the code goes. -/
  | look
  /-- Fills the page. -/
  | fill
  /-- Emits a host function. -/
  | emitNative (number : UInt32)

namespace Command

/-- The byte that ends the commands. -/
def endOpcode : UInt8 :=
  0x0B

/-- The rest of a command; `none` is the end. -/
def readOperands (opcode : UInt8) : Read (Option Command) :=
  match opcode with
  | 0x00 => pure (some .fail)
  | 0x01 => (fun code => some (.emitOp code.toUInt16)) <$> Reader.varU32
  | 0x02 => (fun value => some (.emitImm value)) <$> Reader.varU64
  | 0x03 => (fun minLines => some (.switchPage minLines)) <$> Reader.varU64
  | 0x04 => do
    let page ← Reader.varU64
    let line ← Reader.varU64
    let value ← Reader.varU64
    return some (.patch page line value)
  | 0x05 => pure (some .look)
  | 0x06 => pure (some .fill)
  | 0x07 => (fun number => some (.emitNative number)) <$> Reader.varU32
  | 0x0B => pure none
  | _ => throw (.unknownOpcode opcode.toUInt16)

/-- Reads a command. There are no more at the end of the bytes. -/
def read : Read (Option Command) := fun reader =>
  if reader.isEmpty then .ok none reader else (Reader.byte >>= readOperands) reader

theorem shrinks_varU64 : Reader.Shrinks Reader.varU64 :=
  Reader.shrinks_unsigned 64

theorem shrinks_readOperands (opcode : UInt8) : Reader.Shrinks (readOperands opcode) := by
  unfold readOperands
  split
  case h_2 => exact .map _ Reader.shrinks_varU32
  case h_3 => exact .map _ shrinks_varU64
  case h_4 => exact .map _ shrinks_varU64
  case h_5 =>
    exact .bind shrinks_varU64 fun _ => .bind shrinks_varU64 fun _ => .bind shrinks_varU64 fun _ => .pure _
  case h_8 => exact .map _ Reader.shrinks_varU32
  case h_10 => exact .throw _
  all_goals exact .pure _

theorem consumes_read : Reader.Consumes read := by
  refine Reader.consumes_of_byte (fun reader => ?_) shrinks_readOperands
  by_cases h : reader.isEmpty
  · right
    intro item next
    simp [read, h]
  · left
    simp [read, h]

/-- The commands at the front of some bytes, and the cursor after them. -/
def ofBytes (bytes : List UInt8) : List Command × Except Error Reader :=
  Reader.sequence read consumes_read (.ofBytes bytes)

end Command

end WasmEngine.Script

import WasmEngine.Binary.ConstExpr
import WasmEngine.Binary.Sequence
import WasmEngine.Threaded.Opcode

/-!
# Instructions

The instructions of function bodies that the threaded compiler knows, as they are read from bytes. Constant
expressions use three of them.
-/

namespace WasmEngine.Threaded

/-- An instruction. -/
inductive Instruction where
  /-- `i32.const` or `i64.const`. -/
  | const (word : Slot)
  | globalGet (index : UInt32)
  | localGet (index : UInt32)
  | arithmetic (arithmetic : Arithmetic)
  | unreachable
  /-- `if`; its block type is of no concern here. -/
  | ifThen
  | orElse
  /-- `end`. -/
  | finish
  | ret
  | call (function : UInt32)
  | callIndirect (type : UInt32)
  | drop
  deriving DecidableEq

namespace Instruction

/-- The rest of an instruction that constant expressions may use too. -/
def readConstant? (opcode : UInt8) : Option (Read Instruction) :=
  if opcode = ConstExpr.i32Opcode then some ((fun value => .const value.toUInt32.toUInt64) <$> Reader.varI32)
  else if opcode = ConstExpr.i64Opcode then some ((fun value => .const value.toUInt64) <$> Reader.varI64)
  else if opcode = ConstExpr.globalOpcode then some (.globalGet <$> Reader.varU32)
  else none

/-- The rest of any other instruction. -/
def readOther (opcode : UInt8) : Read Instruction :=
  match opcode with
  | 0x00 => pure .unreachable
  | 0x04 => (fun _ => .ifThen) <$> Reader.byte
  | 0x05 => pure .orElse
  | 0x0B => pure .finish
  | 0x0F => pure .ret
  | 0x10 => .call <$> Reader.varU32
  | 0x11 => do
    let type ← Reader.varU32
    let _ ← Reader.byte
    return .callIndirect type
  | 0x1A => pure .drop
  | 0x20 => .localGet <$> Reader.varU32
  | 0x49 => pure (.arithmetic ⟨false, .ltU⟩)
  | 0x54 => pure (.arithmetic ⟨true, .ltU⟩)
  | 0x6A => pure (.arithmetic ⟨false, .add⟩)
  | 0x6B => pure (.arithmetic ⟨false, .sub⟩)
  | 0x7C => pure (.arithmetic ⟨true, .add⟩)
  | 0x7D => pure (.arithmetic ⟨true, .sub⟩)
  | _ => throw (.unknownOpcode opcode.toUInt16)

/-- The rest of an instruction with an opcode. -/
def readOperands (opcode : UInt8) : Read Instruction :=
  (readConstant? opcode).getD (readOther opcode)

/-- Reads an instruction of a function body. -/
def read : Read (Option Instruction) := do
  let opcode ← Reader.byte
  some <$> readOperands opcode

/-- Reads an instruction of a constant expression; there are no more after `end`. -/
def readConst : Read (Option Instruction) := do
  let opcode ← Reader.byte
  if opcode = ConstExpr.endOpcode then pure none
  else
    match readConstant? opcode with
    | some operands => some <$> operands
    | none => throw (.invalidConstExpr opcode)

theorem shrinks_readConstant {opcode : UInt8} {operands : Read Instruction} (h : readConstant? opcode = some operands) :
    Reader.Shrinks operands := by
  unfold readConstant? at h
  repeat' split at h
  · cases h
    exact .map _ Reader.shrinks_varI32
  · cases h
    exact .map _ Reader.shrinks_varI64
  · cases h
    exact .map _ Reader.shrinks_varU32
  · cases h

theorem shrinks_readOther (opcode : UInt8) : Reader.Shrinks (readOther opcode) := by
  unfold readOther
  split
  case h_2 => exact .map _ Reader.shrinks_byte
  case h_6 => exact .map _ Reader.shrinks_varU32
  case h_7 => exact .bind Reader.shrinks_varU32 fun _ => .bind Reader.shrinks_byte fun _ => .pure _
  case h_9 => exact .map _ Reader.shrinks_varU32
  case h_16 => exact .throw _
  all_goals exact .pure _

theorem shrinks_readOperands (opcode : UInt8) : Reader.Shrinks (readOperands opcode) := by
  unfold readOperands
  cases h : readConstant? opcode with
  | none => exact shrinks_readOther opcode
  | some operands => exact shrinks_readConstant h

theorem consumes_read : Reader.Consumes read :=
  Reader.consumes_of_byte (fun _ => .inl rfl) fun opcode => .map some (shrinks_readOperands opcode)

theorem consumes_readConst : Reader.Consumes readConst := by
  refine Reader.consumes_of_byte (fun _ => .inl rfl) fun opcode => ?_
  split
  · exact .pure _
  · split
    · rename_i h
      exact .map some (shrinks_readConstant h)
    · exact .throw _

/-- The instructions at the front of a function body, and why they do not go on. -/
def ofBody (body : List UInt8) : List Instruction × Except Error Reader :=
  Reader.sequence read consumes_read (.ofBytes body)

/-- The instructions of the constant expression at the front of some bytes, and the cursor after it. -/
def ofConstExpr (expr : List UInt8) : List Instruction × Except Error Reader :=
  Reader.sequence readConst consumes_readConst (.ofBytes expr)

end Instruction

end WasmEngine.Threaded

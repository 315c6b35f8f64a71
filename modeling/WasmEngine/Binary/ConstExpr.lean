import WasmEngine.Binary.Reader
import WasmEngine.Leb128.Encode

/-!
# Constant expressions

A constant expression is a run of instructions closed by `end`. `ConstExpr.skip` moves past the instructions it knows;
the other definitions write the three expressions that a host builds modules with.
-/

namespace WasmEngine.ConstExpr

/-- The opcode that closes an expression. -/
def endOpcode : UInt8 := 0x0B
/-- The opcode of `i32.const`. -/
def i32Opcode : UInt8 := 0x41
/-- The opcode of `i64.const`. -/
def i64Opcode : UInt8 := 0x42
/-- The opcode of `global.get`. -/
def globalOpcode : UInt8 := 0x23

/-- The expression `i32.const value`. -/
def ofI32 (value : Int32) : List UInt8 :=
  i32Opcode :: Leb128.encodeSigned value.toInt ++ [endOpcode]

/-- The expression `i64.const value`. -/
def ofI64 (value : Int64) : List UInt8 :=
  i64Opcode :: Leb128.encodeSigned value.toInt ++ [endOpcode]

/-- The expression `global.get index`. -/
def ofGlobal (index : Nat) : List UInt8 :=
  globalOpcode :: Leb128.encodeUnsigned index ++ [endOpcode]

/-- Whether an opcode is one of the arithmetic instructions, which have no operand. -/
def isArithmetic (opcode : UInt8) : Bool :=
  (0x6A ≤ opcode && opcode ≤ 0x6C) || (0x7C ≤ opcode && opcode ≤ 0x7E)

/-- Moves past the operand of an instruction other than `end`. -/
def skipOperand (opcode : UInt8) : Read Unit :=
  if opcode = i32Opcode then do
    let _ ← Reader.varI32
  else if opcode = i64Opcode then do
    let _ ← Reader.varI64
  else if opcode = 0x43 then Reader.skip 4
  else if opcode = 0x44 then Reader.skip 8
  else if opcode = globalOpcode || opcode = 0xD2 then do
    let _ ← Reader.varU32
  else if opcode = 0xD0 then do
    let _ ← Reader.byte
  else if isArithmetic opcode then pure ()
  else throw (.invalidConstExpr opcode)

theorem shrinks_skipOperand (opcode : UInt8) : Reader.Shrinks (skipOperand opcode) := by
  unfold skipOperand
  repeat' split
  · exact .bind Reader.shrinks_varI32 fun _ => .pure _
  · exact .bind Reader.shrinks_varI64 fun _ => .pure _
  · exact Reader.shrinks_skip 4
  · exact Reader.shrinks_skip 8
  · exact .bind Reader.shrinks_varU32 fun _ => .pure _
  · exact .bind Reader.shrinks_byte fun _ => .pure _
  · exact .pure _
  · exact .throw _

/-- Moves past an expression, its `end` included. -/
def skip (reader : Reader) : EStateM.Result Error Reader Unit :=
  match hr : reader.rest with
  | [] => .error .underrun reader
  | opcode :: rest =>
    if opcode = endOpcode then .ok () ⟨reader.position + 1, rest⟩
    else
      match ho : skipOperand opcode ⟨reader.position + 1, rest⟩ with
      | .error error stopped => .error error stopped
      | .ok () next =>
        have : next.rest.length < reader.rest.length := by
          have := shrinks_skipOperand opcode _ _ _ ho
          simp only [hr, List.length_cons]
          exact Nat.lt_succ_of_le this
        skip next
termination_by reader.rest.length
decreasing_by exact this

/-- Takes the bytes of an expression, its `end` included. -/
def take : Read (List UInt8) := fun reader =>
  match skip reader with
  | .error error stopped => .error error stopped
  | .ok () next => .ok (reader.rest.take (next.position - reader.position)) next

end WasmEngine.ConstExpr

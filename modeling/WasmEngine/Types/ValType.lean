import WasmEngine.Error

/-!
# Value types

The four number types that values and function signatures are made of.
-/

namespace WasmEngine

/-- A number type. -/
inductive ValType where
  | i32
  | i64
  | f32
  | f64
  deriving DecidableEq

namespace ValType

/-- The type that a byte of the binary format names. -/
def ofByte? (byte : UInt8) : Except Error ValType :=
  if byte = 0x7F then .ok .i32
  else if byte = 0x7E then .ok .i64
  else if byte = 0x7D then .ok .f32
  else if byte = 0x7C then .ok .f64
  else .error (.invalidValueType byte)

/-- The byte of the binary format that names the type. -/
def toByte : ValType → UInt8
  | .i32 => 0x7F
  | .i64 => 0x7E
  | .f32 => 0x7D
  | .f64 => 0x7C

/-- Whether values of the type take 64 bits. -/
def isWide : ValType → Bool
  | .i32 | .f32 => false
  | .i64 | .f64 => true

/-- How many bytes a value of the type takes. -/
def byteSize (type : ValType) : Nat :=
  if type.isWide then 8 else 4

/-- The character that names the type in a signature. -/
def signatureChar : ValType → Char
  | .i32 => 'i'
  | .i64 => 'I'
  | .f32 => 'f'
  | .f64 => 'F'

/-- The name of the type. -/
def name : ValType → String
  | .i32 => "i32"
  | .i64 => "i64"
  | .f32 => "f32"
  | .f64 => "f64"

end ValType

end WasmEngine

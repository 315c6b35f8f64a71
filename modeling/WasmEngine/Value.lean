import WasmEngine.Decimal.Reading
import WasmEngine.Text.Blank
import WasmEngine.Types.ValType

/-!
# Values

A value crosses the boundary between the host and compiled code in a 64-bit slot; 32-bit values live in its low half.
Values are read from decimal text and shown with their type.
-/

namespace WasmEngine

/-- One cell of the slot stack. -/
abbrev Slot := UInt64

/-- A number of one of the four types. Floats are kept as bit patterns. -/
inductive Value where
  | i32 (value : Int32)
  | i64 (value : Int64)
  | f32 (bits : UInt32)
  | f64 (bits : UInt64)
  deriving DecidableEq

namespace Value

/-- The type of a value. -/
def type : Value → ValType
  | .i32 _ => .i32
  | .i64 _ => .i64
  | .f32 _ => .f32
  | .f64 _ => .f64

/-- The value of a given type in a slot. -/
def ofSlot : ValType → Slot → Value
  | .i32, slot => .i32 slot.toUInt32.toInt32
  | .i64, slot => .i64 slot.toInt64
  | .f32, slot => .f32 slot.toUInt32
  | .f64, slot => .f64 slot

/-- The slot that holds a value, with zeros above a 32-bit one. -/
def toSlot : Value → Slot
  | .i32 value => value.toUInt32.toUInt64
  | .i64 value => value.toUInt64
  | .f32 bits => bits.toUInt64
  | .f64 bits => bits

/-- A value and its type as text. -/
def render : Value → String
  | .i32 value => toString value.toInt ++ ":i32"
  | .i64 value => toString value.toInt ++ ":i64"
  | .f32 bits => Decimal.render Decimal.single bits.toNat ++ ":f32"
  | .f64 bits => Decimal.render Decimal.double bits.toNat ++ ":f64"

/-- A whole number with or without a sign, in the range of the signed numbers of a width. -/
def signed? (width : Nat) (text : List Char) : Option Int :=
  match Text.integer? text with
  | none => none
  | some value =>
    if -(Nat.pow 2 (width - 1) : Nat) ≤ value ∧ value < (Nat.pow 2 (width - 1) : Nat) then some value else none

/-- A whole number without a minus sign, in the range of the unsigned numbers of a width. -/
def unsigned? (width : Nat) (text : List Char) : Option Nat :=
  match Text.unsigned? text with
  | none => none
  | some value => if value < Nat.pow 2 width then some value else none

/-- A whole number that fits a width: a signed number, or else an unsigned one. -/
def integerOfWidth? (width : Nat) (text : List Char) : Option Int :=
  match signed? width text with
  | some value => some value
  | none => (unsigned? width text).map Int.ofNat

/-- Reads trimmed text as a value of the given type. -/
def ofTrimmed? (type : ValType) (text : List Char) : Option Value :=
  match type with
  | .i32 => (integerOfWidth? 32 text).map fun value => .i32 (Int32.ofInt value)
  | .i64 => (integerOfWidth? 64 text).map fun value => .i64 (Int64.ofInt value)
  | .f32 => (Decimal.single.read? text).map fun bits => .f32 (UInt32.ofNat bits)
  | .f64 => (Decimal.double.read? text).map fun bits => .f64 (UInt64.ofNat bits)

/-- Reads text as a value of the given type, blanks at both ends left out. -/
def ofText? (type : ValType) (text : String) : Except Error Value :=
  let trimmed := Text.trim text.toList
  match ofTrimmed? type trimmed with
  | some value => .ok value
  | none => .error (.invalidArgument (String.ofList trimmed))

end Value

end WasmEngine

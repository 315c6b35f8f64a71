import Mathlib.Algebra.GroupWithZero.Nat
import Mathlib.Computability.Language
import WasmEngine.Module.Decode

/-!
# The binary format

The pieces of the binary format as languages of bytes, one for each value that a piece can stand for. A number has
several encodings, so a form has a word for each choice of them. Nothing here mentions reading.
-/

namespace WasmEngine.Form

open scoped Computability

/-! ## Numbers -/

/-- The bytes of a LEB128 integer: all but the last have the continuation bit. -/
def IsRun : List UInt8 → Prop
  | [] => False
  | byte :: rest => if byte < 0x80 then rest = [] else IsRun rest

instance IsRun.decidable : DecidablePred IsRun
  | [] => inferInstanceAs (Decidable False)
  | byte :: rest =>
    have : Decidable (IsRun rest) := IsRun.decidable rest
    inferInstanceAs (Decidable (if byte < 0x80 then rest = [] else IsRun rest))

/-- The integers of at most `limit` bytes. -/
def run (limit : Nat) : Language UInt8 :=
  {word | IsRun word ∧ word.length ≤ limit}

/-- An unsigned number of 32 bits. -/
def u32 (value : Nat) : Language UInt8 :=
  {word | word ∈ run 5 ∧ Leb128.unsignedValue word = value ∧ value < 0x100000000}

/-- Any signed number of 32 bits. -/
def i32 : Language UInt8 :=
  {word | word ∈ run 5 ∧ -0x80000000 ≤ Leb128.signedValue word ∧ Leb128.signedValue word < 0x80000000}

/-- Any signed number of 64 bits. -/
def i64 : Language UInt8 :=
  run 10

/-! ## Blocks and vectors -/

/-- Any `count` bytes. -/
def bytes (count : Nat) : Language UInt8 :=
  {word | word.length = count}

/-- A payload with its size in front. -/
def block (payload : List UInt8) : Language UInt8 :=
  u32 payload.length * {payload}

/-- Any payload of a form with its size in front. -/
def sized (payload : Language UInt8) : Language UInt8 :=
  {word | ∃ content ∈ payload, word ∈ block content}

/-- Things with their number in front. -/
def vector (items : List (Language UInt8)) : Language UInt8 :=
  u32 items.length * items.prod

/-- A text. -/
def text (content : String) : Language UInt8 :=
  block (Text.Utf8.encode content)

/-! ## Types -/

def valType (type : ValType) : Language UInt8 :=
  {[type.toByte]}

def funcType (type : FuncType) : Language UInt8 :=
  {[0x60]} * vector (type.params.map valType) * vector (type.result.toList.map valType)

/-- The limits of a table or memory. An odd number in front announces a maximum. -/
def limits (limits : MemoryLimits) : Language UInt8 :=
  {word | ∃ flags, (flags % 2 = 1 ↔ limits.maximum.isSome) ∧
    word ∈ u32 flags * u32 limits.initial * limits.maximum.elim 1 u32}

/-- The type of a global. A flag other than zero makes it mutable. -/
def globalType (type : ValType) (isMutable : Bool) : Language UInt8 :=
  {word | ∃ flag : UInt8, flag < 0x80 ∧ (flag ≠ 0 ↔ isMutable) ∧ word ∈ valType type * {[flag]}}

/-! ## Constant expressions -/

/-- The index of a global or a function. -/
def index : Language UInt8 :=
  {word | ∃ value, word ∈ u32 value}

/-- The instructions without an operand. -/
def arithmetic : Language UInt8 :=
  {word | ∃ opcode, ConstExpr.isArithmetic opcode ∧ word = [opcode]}

/-- The instructions that may stand in a constant expression. -/
def instruction : Language UInt8 :=
  {[ConstExpr.i32Opcode]} * i32 + {[ConstExpr.i64Opcode]} * i64 + {[0x43]} * bytes 4 + {[0x44]} * bytes 8 +
    {[ConstExpr.globalOpcode]} * index + {[0xD2]} * index + {[0xD0]} * bytes 1 + arithmetic

def constExpr : Language UInt8 :=
  instruction∗ * {[ConstExpr.endOpcode]}

/-! ## Functions and sections -/

/-- A number of locals of one type. -/
structure LocalGroup where
  count : Nat
  type : ValType

/-- The locals and the instructions of a function. -/
def funcBody (groups : List LocalGroup) (code : List UInt8) : Language UInt8 :=
  vector (groups.map fun group => u32 group.count * valType group.type) * {code}

/-- The magic number and the version. -/
def header : List UInt8 :=
  [0x00, 0x61, 0x73, 0x6D, 0x01, 0x00, 0x00, 0x00]

/-- A section with a given number. -/
def framed (id : UInt8) (payload : Language UInt8) : Language UInt8 :=
  {[id]} * sized payload

/-- A form that may be left out if there is nothing to say. -/
def optional (nothing : Prop) (form : Language UInt8) : Language UInt8 :=
  {word | word ∈ form ∨ nothing ∧ word = []}

/-- A section that holds a vector and may be left out if the vector is empty. -/
def vectorSection (id : UInt8) (items : List (Language UInt8)) : Language UInt8 :=
  optional (items = []) (framed id (vector items))

end WasmEngine.Form

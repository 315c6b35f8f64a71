import WasmEngine.Code.Line

/-!
# Operations of threaded code

The operations that the threaded compiler emits and the threaded executor runs. An operation is one line, followed by
its immediate operands.
-/

namespace WasmEngine.Threaded

/-- What an arithmetic operation computes. -/
inductive Calculation where
  | add
  | sub
  /-- Whether the first operand is smaller, both taken as unsigned. -/
  | ltU
  deriving DecidableEq

/-- An arithmetic operation on 32-bit or 64-bit integers. -/
structure Arithmetic where
  isWide : Bool
  calculation : Calculation
  deriving DecidableEq

namespace Arithmetic

/-- The result for a first and a second operand. The 32-bit operations look at the low halves only and leave a result
with a high half of zeros. -/
def apply (arithmetic : Arithmetic) (a b : Slot) : Slot :=
  match arithmetic.isWide, arithmetic.calculation with
  | true, .add => a + b
  | true, .sub => a - b
  | true, .ltU => if a < b then 1 else 0
  | false, .add => (a.toUInt32 + b.toUInt32).toUInt64
  | false, .sub => (a.toUInt32 - b.toUInt32).toUInt64
  | false, .ltU => if a.toUInt32 < b.toUInt32 then 1 else 0

end Arithmetic

/-- An operation. -/
inductive Op where
  /-- Opens a frame: the number of parameters, the number of locals. -/
  | enter
  /-- Pushes a constant. -/
  | push
  /-- Pushes a slot of the frame. -/
  | localGet
  /-- Pushes a global of the running module. -/
  | globalGet
  | arithmetic (arithmetic : Arithmetic)
  /-- Goes on at a line of the same page. -/
  | branch
  /-- Goes on at a line of the same page if the popped operand is zero. -/
  | branchUnless
  /-- Calls a function. -/
  | call
  /-- Ends the call; the operand on top is the result. -/
  | ret
  | drop
  | unreachable
  /-- Calls the function in the table slot on top of the operands, which has to have a given type. -/
  | callIndirect
  deriving DecidableEq

namespace Op

/-- The number that stands for an operation. -/
def code : Op → UInt16
  | .enter => 0x01
  | .push => 0x02
  | .localGet => 0x03
  | .globalGet => 0x04
  | .arithmetic ⟨false, .add⟩ => 0x10
  | .arithmetic ⟨false, .sub⟩ => 0x11
  | .arithmetic ⟨false, .ltU⟩ => 0x12
  | .arithmetic ⟨true, .add⟩ => 0x20
  | .arithmetic ⟨true, .sub⟩ => 0x21
  | .arithmetic ⟨true, .ltU⟩ => 0x22
  | .branch => 0x30
  | .branchUnless => 0x31
  | .call => 0x32
  | .ret => 0x33
  | .drop => 0x34
  | .unreachable => 0x35
  | .callIndirect => 0x36

/-- The operation that a number stands for. -/
def ofCode? : UInt16 → Option Op
  | 0x01 => some .enter
  | 0x02 => some .push
  | 0x03 => some .localGet
  | 0x04 => some .globalGet
  | 0x10 => some (.arithmetic ⟨false, .add⟩)
  | 0x11 => some (.arithmetic ⟨false, .sub⟩)
  | 0x12 => some (.arithmetic ⟨false, .ltU⟩)
  | 0x20 => some (.arithmetic ⟨true, .add⟩)
  | 0x21 => some (.arithmetic ⟨true, .sub⟩)
  | 0x22 => some (.arithmetic ⟨true, .ltU⟩)
  | 0x30 => some .branch
  | 0x31 => some .branchUnless
  | 0x32 => some .call
  | 0x33 => some .ret
  | 0x34 => some .drop
  | 0x35 => some .unreachable
  | 0x36 => some .callIndirect
  | _ => none

/-- Every operation is found by its number. -/
theorem ofCode?_code (op : Op) : ofCode? op.code = some op := by
  cases op with
  | arithmetic arithmetic =>
    obtain ⟨isWide, calculation⟩ := arithmetic
    cases isWide <;> cases calculation <;> rfl
  | _ => rfl

/-- The line of an operation. -/
def line (op : Op) : Line :=
  .op op.code

end Op

end WasmEngine.Threaded

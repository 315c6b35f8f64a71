import WasmEngine.Proofs.Threaded.Constants

/-!
# The constant expressions that hosts write

A constant of 32 bits, a constant of 64 bits, and the content of a global. Each is one instruction, and reading it
stops right behind its `end`, whatever follows.
-/

namespace WasmEngine

open Threaded

/-! ## Reading -/

namespace Reader

section Sequence

variable {α : Type} {read : Read (Option α)} (h : Consumes read) {reader next : Reader}

theorem sequence_of_none (hread : read reader = .ok none next) : sequence read h reader = ([], .ok next) := by
  rw [sequence]
  split
  · rename_i heq
    cases hread.symm.trans heq
  · rename_i heq
    cases hread.symm.trans heq
    rfl
  · rename_i heq
    cases hread.symm.trans heq

theorem sequence_of_some {item : α} (hread : read reader = .ok (some item) next) :
    sequence read h reader = (item :: (sequence read h next).1, (sequence read h next).2) := by
  rw [sequence]
  split
  · rename_i heq
    cases hread.symm.trans heq
  · rename_i heq
    cases hread.symm.trans heq
  · rename_i heq
    cases hread.symm.trans heq
    rfl

end Sequence

/-- An unsigned number of 32 bits is read back. -/
theorem reads_encodeUnsigned (value : UInt32) : Reads varU32 {Leb128.encodeUnsigned value.toNat} value := by
  rintro word rfl
  have hread := reads_varU32 value.toNat _ (Leb128.encodeUnsigned_mem_u32 value.toNat_lt)
  rwa [UInt32.ofNat_toNat] at hread

/-- A signed number that fits so many groups is read back. -/
theorem reads_signed {value : Int64} {maxBits n : Nat} (hlimit : Leb128.groupLimit maxBits = n + 1)
    (hrange : -(64 * 128 ^ n : Int) ≤ value.toInt ∧ value.toInt < 64 * 128 ^ n) :
    Reads (signed maxBits) {Leb128.encodeSigned value.toInt} value := by
  have hrun : Leb128.encodeSigned value.toInt ∈ Form.run (Leb128.groupLimit maxBits) := by
    refine ⟨Leb128.isRun_encodeSigned _, ?_⟩
    rw [hlimit]
    exact (Leb128.length_encodeSigned_le_iff _ _).2 hrange
  have hvalue : Int64.ofInt (Leb128.signedValue (Leb128.encodeSigned value.toInt)) = value := by
    rw [Leb128.signedValue_encodeSigned, Int64.ofInt_toInt]
  refine (reads_groups hrun).bind_still fun _ => ?_
  rw [hvalue]
  rfl

theorem reads_encodeSigned32 (value : Int32) : Reads varI32 {Leb128.encodeSigned value.toInt} value := by
  have hlow := value.le_toInt
  have hhigh := value.toInt_lt
  have hsigned : Reads (signed 32) {Leb128.encodeSigned value.toInt64.toInt} value.toInt64 := by
    refine reads_signed (n := 4) rfl ?_
    rw [Int32.toInt_toInt64]
    omega
  rw [Int32.toInt_toInt64] at hsigned
  refine reads_narrow hsigned ?_
  rw [Int32.toInt_toInt64, if_pos ⟨by omega, by omega⟩, Int32.toInt32_toInt64]

theorem reads_encodeSigned64 (value : Int64) : Reads varI64 {Leb128.encodeSigned value.toInt} value := by
  have hlow := value.le_toInt
  have hhigh := value.toInt_lt
  refine reads_signed (n := 9) rfl ?_
  omega

end Reader

/-! ## Initializers -/

/-- A constant expression that hosts write. -/
inductive Initializer where
  | i32 (value : Int32)
  | i64 (value : Int64)
  | global (index : UInt32)

namespace Initializer

/-- Its bytes. -/
def bytes : Initializer → List UInt8
  | .i32 value => ConstExpr.ofI32 value
  | .i64 value => ConstExpr.ofI64 value
  | .global index => ConstExpr.ofGlobal index.toNat

/-- Its instruction. -/
def instruction : Initializer → Instruction
  | .i32 value => .const value.toUInt32.toUInt64
  | .i64 value => .const value.toUInt64
  | .global index => .globalGet index

/-- Its value, where globals are as given. -/
def value (lookup : Nat → Option Global) : Initializer → Option Slot
  | .i32 value => some value.toUInt32.toUInt64
  | .i64 value => some value.toUInt64
  | .global index => (lookup index.toNat).map fun global => global.value.toSlot

/-- The instruction pushes the value. -/
theorem pushed_instruction {initializer : Initializer} {module : Module} {slot : Slot}
    (h : initializer.value (module.globals[·]?) = some slot) : pushed module initializer.instruction = .ok slot := by
  cases initializer with
  | i32 value =>
    cases h
    rfl
  | i64 value =>
    cases h
    rfl
  | global index =>
    obtain ⟨global, hglobal, rfl⟩ := Option.map_eq_some_iff.1 h
    change module.globals[index.toNat]? = _ at hglobal
    change globalSlot module index = _
    unfold globalSlot
    rw [hglobal]

/-- The opcode and the operand of an instruction are read, and its `end` is left. -/
theorem readConst_of_operand {opcode : UInt8} {operand : List UInt8} {operands : Read Instruction}
    {instruction : Instruction} (hopcode : opcode ≠ ConstExpr.endOpcode)
    (hoperands : Instruction.readConstant? opcode = some operands) (hreads : Reads operands {operand} instruction)
    (position : Nat) (rest : List UInt8) :
    Instruction.readConst ⟨position, opcode :: operand ++ rest⟩ =
      .ok (some instruction) ⟨position + (1 + operand.length), rest⟩ := by
  have hbyte : Reader.byte ⟨position, opcode :: operand ++ rest⟩ = .ok opcode ⟨position + 1, operand ++ rest⟩ := rfl
  have hread : operands ⟨position + 1, operand ++ rest⟩ = .ok instruction ⟨position + (1 + operand.length), rest⟩ := by
    rw [← Nat.add_assoc]
    exact hreads operand rfl rest trivial (position + 1)
  unfold Instruction.readConst
  rw [run_bind_of_ok hbyte, if_neg hopcode, hoperands]
  exact run_map_of_ok hread

/-- An instruction with its `end` is a constant expression. -/
theorem ofConstExpr_of_operand {opcode : UInt8} {operand : List UInt8} {operands : Read Instruction}
    {instruction : Instruction} (hopcode : opcode ≠ ConstExpr.endOpcode)
    (hoperands : Instruction.readConstant? opcode = some operands) (hreads : Reads operands {operand} instruction)
    (rest : List UInt8) :
    Instruction.ofConstExpr (opcode :: operand ++ [ConstExpr.endOpcode] ++ rest) =
      ([instruction], .ok ⟨(opcode :: operand ++ [ConstExpr.endOpcode]).length, rest⟩) := by
  have hfirst := readConst_of_operand hopcode hoperands hreads 0 (ConstExpr.endOpcode :: rest)
  have hend (position : Nat) : Instruction.readConst ⟨position, ConstExpr.endOpcode :: rest⟩ =
      .ok none ⟨position + 1, rest⟩ := rfl
  unfold Instruction.ofConstExpr Reader.ofBytes
  rw [List.append_assoc, List.singleton_append, Reader.sequence_of_some _ hfirst,
    Reader.sequence_of_none _ (hend _)]
  simp [Nat.add_comm]

/-- Reading an initializer gives its instruction and stops behind it. -/
theorem ofConstExpr_bytes (initializer : Initializer) (rest : List UInt8) :
    Instruction.ofConstExpr (initializer.bytes ++ rest) =
      ([initializer.instruction], .ok ⟨initializer.bytes.length, rest⟩) := by
  cases initializer with
  | i32 value =>
    refine ofConstExpr_of_operand (by decide) rfl ?_ rest
    exact (Reader.reads_encodeSigned32 value).bind_still fun _ => rfl
  | i64 value =>
    refine ofConstExpr_of_operand (by decide) rfl ?_ rest
    exact (Reader.reads_encodeSigned64 value).bind_still fun _ => rfl
  | global index =>
    refine ofConstExpr_of_operand (by decide) rfl ?_ rest
    exact (Reader.reads_encodeUnsigned index).bind_still fun _ => rfl

/-- The code of an initializer takes three lines. -/
theorem length_constantCode (initializer : Initializer) : (constantCode [initializer.instruction]).length = 3 := by
  cases initializer <;> rfl

end Initializer

end WasmEngine

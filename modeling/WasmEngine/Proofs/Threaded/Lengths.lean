import WasmEngine.Proofs.Binary.Locality
import WasmEngine.Proofs.Machine.Supply

/-!
# Where constant expressions end

A constant expression is measured twice: decoding moves past it (`ConstExpr.skip`), and the threaded compiler says how
many bytes it has compiled. The two agree. `ConstExpr.Meets` says which opcodes are met on the way to the `end`.
-/

namespace WasmEngine

/-! ## Moving past an expression -/

namespace ConstExpr

/-- Moving past the expression at a cursor meets some opcodes before its `end`. -/
inductive Meets : Reader → List UInt8 → Reader → Prop where
  | finish (position : Nat) (rest : List UInt8) : Meets ⟨position, endOpcode :: rest⟩ [] ⟨position + 1, rest⟩
  | step {position : Nat} {opcode : UInt8} {rest opcodes : List UInt8} {between next : Reader}
      (hopcode : opcode ≠ endOpcode) (hoperand : skipOperand opcode ⟨position + 1, rest⟩ = .ok () between)
      (hrest : Meets between opcodes next) : Meets ⟨position, opcode :: rest⟩ (opcode :: opcodes) next

theorem skip_eq_ok_iff {reader next : Reader} : skip reader = .ok () next ↔ ∃ opcodes, Meets reader opcodes next := by
  constructor
  · intro h
    fun_induction skip reader with
    | case1 reader hrest => cases h
    | case2 reader rest hrest =>
      obtain ⟨position, _⟩ := reader
      cases hrest
      cases h
      exact ⟨[], .finish position rest⟩
    | case3 reader opcode rest hrest hopcode error stopped hoperand => cases h
    | case4 reader opcode rest hrest hopcode between hoperand hlt ih =>
      obtain ⟨position, _⟩ := reader
      cases hrest
      obtain ⟨opcodes, hmeets⟩ := ih h
      exact ⟨opcode :: opcodes, .step hopcode hoperand hmeets⟩
  · rintro ⟨opcodes, hmeets⟩
    induction hmeets with
    | finish position rest =>
      rw [skip]
      dsimp only
      rw [if_pos rfl]
    | step hopcode hoperand hrest ih =>
      rw [skip]
      dsimp only
      rw [if_neg hopcode]
      split
      · rename_i heq
        cases hoperand.symm.trans heq
      · rename_i heq
        cases hoperand.symm.trans heq
        exact ih

theorem local_skipOperand (opcode : UInt8) : Reader.Local (skipOperand opcode) := by
  unfold skipOperand
  repeat' split
  · exact Reader.local_varI32.bind fun _ => .pure _
  · exact Reader.local_varI64.bind fun _ => .pure _
  · exact Reader.local_skip 4
  · exact Reader.local_skip 8
  · exact Reader.local_varU32.bind fun _ => .pure _
  · exact Reader.local_byte.bind fun _ => .pure _
  · exact .pure _
  · exact .throw _

/-- The same expression can stand anywhere. -/
theorem Meets.elsewhere {reader next : Reader} {opcodes : List UInt8} (h : Meets reader opcodes next) :
    ∃ word, reader.rest = word ++ next.rest ∧ next.position = reader.position + word.length ∧
      ∀ position rest, Meets ⟨position, word ++ rest⟩ opcodes ⟨position + word.length, rest⟩ := by
  induction h with
  | finish position rest => exact ⟨[endOpcode], rfl, rfl, fun position rest => .finish position rest⟩
  | @step position opcode rest opcodes between next hopcode hoperand hrest ih =>
    obtain ⟨operand, happend, hposition, hreads⟩ := local_skipOperand opcode _ _ _ hoperand
    obtain ⟨word, happend', hposition', hmeets⟩ := ih
    refine ⟨opcode :: (operand ++ word), ?_, ?_, fun position rest => ?_⟩
    · rw [List.cons_append, List.append_assoc, ← happend', ← happend]
    · rw [hposition', hposition, List.length_cons, List.length_append]
      dsimp only
      omega
    · have hread := hreads operand rfl (word ++ rest) trivial (position + 1)
      have hlater := hmeets (position + 1 + operand.length) rest
      rw [show position + 1 + operand.length + word.length = position + (opcode :: (operand ++ word)).length by
        rw [List.length_cons, List.length_append]; omega] at hlater
      rw [List.cons_append, List.append_assoc]
      exact .step hopcode hread hlater

/-- An opcode that the instructions of a constant expression may have if it is to be compiled. -/
def IsCompiled (opcode : UInt8) : Prop :=
  opcode = i32Opcode ∨ opcode = i64Opcode ∨ opcode = globalOpcode

end ConstExpr

/-! ## Compiling it -/

namespace Threaded

open ConstExpr (Meets IsCompiled skip)

namespace Instruction

variable {next reader : Reader}

theorem exists_readConstant_iff {opcode : UInt8} :
    (∃ operands, readConstant? opcode = some operands) ↔ IsCompiled opcode := by
  constructor
  · rintro ⟨operands, h⟩
    by_contra hnone
    rw [IsCompiled, not_or, not_or] at hnone
    rw [readConstant?, if_neg hnone.1, if_neg hnone.2.1, if_neg hnone.2.2] at h
    cases h
  · rintro (rfl | rfl | rfl)
    all_goals exact ⟨_, rfl⟩

theorem run_discard_eq_ok_iff {α β : Type} {read : Read α} {change : α → β} :
    (read >>= fun _ => pure ()) reader = .ok () next ↔ ∃ result, (change <$> read) reader = .ok result next := by
  constructor
  · intro h
    obtain ⟨value, between, hread, hpure⟩ := run_bind_eq_ok h
    cases hpure
    exact ⟨change value, run_map_of_ok hread⟩
  · rintro ⟨result, h⟩
    obtain ⟨value, between, hread, hpure⟩ := run_bind_eq_ok h
    cases hpure
    exact run_bind_of_ok hread

/-- Reading the operand of an instruction and moving past it are the same. -/
theorem skipOperand_eq_ok_iff {opcode : UInt8} {operands : Read Instruction}
    (h : readConstant? opcode = some operands) :
    ConstExpr.skipOperand opcode reader = .ok () next ↔ ∃ instruction, operands reader = .ok instruction next := by
  obtain rfl | rfl | rfl := exists_readConstant_iff.1 ⟨operands, h⟩
  all_goals
    cases h
    exact run_discard_eq_ok_iff

/-- An instruction of a constant expression that was read was met, and so was the `end`. -/
theorem readConst_cases {result : Option Instruction} (h : readConst reader = .ok result next) :
    ∃ position opcode rest, reader = ⟨position, opcode :: rest⟩ ∧
      (opcode = ConstExpr.endOpcode ∧ result = none ∧ next = ⟨position + 1, rest⟩ ∨
        opcode ≠ ConstExpr.endOpcode ∧ result.isSome ∧
          ConstExpr.skipOperand opcode ⟨position + 1, rest⟩ = .ok () next) := by
  obtain ⟨opcode, between, hbyte, hrest⟩ := run_bind_eq_ok h
  obtain ⟨position, bytes⟩ := reader
  cases bytes with
  | nil => cases hbyte
  | cons first rest =>
    cases hbyte
    refine ⟨position, opcode, rest, rfl, ?_⟩
    by_cases hend : opcode = ConstExpr.endOpcode
    · rw [if_pos hend] at hrest
      cases hrest
      exact .inl ⟨hend, rfl, rfl⟩
    · rw [if_neg hend] at hrest
      cases hoperands : readConstant? opcode with
      | none =>
        rw [hoperands] at hrest
        cases hrest
      | some operands =>
        rw [hoperands] at hrest
        obtain ⟨instruction, between, hread, hpure⟩ := run_bind_eq_ok hrest
        cases hpure
        exact .inr ⟨hend, rfl, (skipOperand_eq_ok_iff hoperands).2 ⟨instruction, hread⟩⟩

/-- An instruction that was met is read if it is one that is compiled. -/
theorem exists_readConst {position : Nat} {opcode : UInt8} {rest : List UInt8}
    (hopcode : opcode ≠ ConstExpr.endOpcode) (hcompiled : IsCompiled opcode)
    (hoperand : ConstExpr.skipOperand opcode ⟨position + 1, rest⟩ = .ok () next) :
    ∃ instruction, readConst ⟨position, opcode :: rest⟩ = .ok (some instruction) next := by
  obtain ⟨operands, hoperands⟩ := exists_readConstant_iff.2 hcompiled
  obtain ⟨instruction, hread⟩ := (skipOperand_eq_ok_iff hoperands).1 hoperand
  have hbyte : Reader.byte ⟨position, opcode :: rest⟩ = .ok opcode ⟨position + 1, rest⟩ := rfl
  refine ⟨instruction, ?_⟩
  unfold readConst
  rw [run_bind_of_ok hbyte, if_neg hopcode, hoperands]
  exact run_map_of_ok hread

/-- What is read to the `end` is what is met. -/
theorem meets_of_sequence (h : (Reader.sequence readConst consumes_readConst reader).2 = .ok next) :
    ∃ opcodes, Meets reader opcodes next ∧
      opcodes.length = (Reader.sequence readConst consumes_readConst reader).1.length := by
  fun_induction Reader.sequence readConst consumes_readConst reader with
  | case1 reader error stopped hread => cases h
  | case2 reader stopped hread =>
    cases h
    obtain ⟨position, opcode, rest, rfl, ⟨rfl, -, rfl⟩ | ⟨-, hsome, -⟩⟩ := readConst_cases hread
    · exact ⟨[], .finish position rest, rfl⟩
    · cases hsome
  | case3 reader instruction between hread hlt items ending hrest ih =>
    rw [hrest] at ih
    obtain ⟨position, opcode, rest, rfl, ⟨-, hnone, -⟩ | ⟨hopcode, -, hoperand⟩⟩ := readConst_cases hread
    · cases hnone
    · obtain ⟨opcodes, hmeets, hlength⟩ := ih h
      exact ⟨opcode :: opcodes, .step hopcode hoperand hmeets, congrArg (· + 1) hlength⟩

/-- What is met is read to the `end` if all of it is compiled. -/
theorem sequence_of_meets {opcodes : List UInt8} (h : Meets reader opcodes next)
    (hcompiled : ∀ opcode ∈ opcodes, IsCompiled opcode) :
    (Reader.sequence readConst consumes_readConst reader).2 = .ok next ∧
      (Reader.sequence readConst consumes_readConst reader).1.length = opcodes.length := by
  induction h with
  | finish position rest =>
    have hread : readConst ⟨position, ConstExpr.endOpcode :: rest⟩ = .ok none ⟨position + 1, rest⟩ := rfl
    rw [Reader.sequence_of_none _ hread]
    exact ⟨rfl, rfl⟩
  | step hopcode hoperand hmeets ih =>
    obtain ⟨hfirst, hothers⟩ := List.forall_mem_cons.1 hcompiled
    obtain ⟨instruction, hread⟩ := exists_readConst hopcode hfirst hoperand
    obtain ⟨hending, hlength⟩ := ih hothers
    rw [Reader.sequence_of_some _ hread]
    exact ⟨hending, congrArg (· + 1) hlength⟩

end Instruction

/-- The code of a constant expression takes two lines for each instruction and one for the return. -/
theorem length_constantCode {instructions : List Instruction} (h : ∀ item ∈ instructions, item.IsConstant) :
    (constantCode instructions).length = 2 * instructions.length + 1 := by
  induction instructions with
  | nil => rfl
  | cons instruction rest ih =>
    obtain ⟨hfirst, hothers⟩ := List.forall_mem_cons.1 h
    have hcode : instruction.code.length = 2 := by
      cases hfirst <;> rfl
    have hrest := ih hothers
    simp only [constantCode, List.flatMap_cons, List.length_append, List.length_cons, List.length_nil] at hrest ⊢
    omega

theorem ofConstExpr_of_compileConstExpr {expr : List UInt8} {state after : CompileState} {length : Nat}
    (h : (compileConstExpr expr).exec state = (.ok length, after)) :
    ∃ reader, (Instruction.ofConstExpr expr).2 = .ok reader ∧ length = reader.position := by
  obtain ⟨_, between, -, hrest⟩ := Compile.exec_bind_eq_ok h
  obtain ⟨reader, between, hcheck, hrest⟩ := Compile.exec_bind_eq_ok hrest
  obtain ⟨_, between, -, hpure⟩ := Compile.exec_bind_eq_ok hrest
  cases hpure
  exact ⟨reader, (Prod.mk.inj hcheck).1, rfl⟩

/-- Decoding and compiling agree on where a constant expression ends. What compiles is moved past, by the number of
bytes that the compiler gives, wherever it stands. What is moved past compiles, if the opcodes that are met are those of
constants and globals and there is room for its code, and has the same number of bytes. -/
theorem constExpr_lengths_agree (module : Module) (type : ValType) (bytes : List UInt8) (area : CodeArea) (page : Nat) :
    (∀ length after, area.compile page (compiler.constExpr module bytes type) = (.ok length, after) →
      length ≤ bytes.length ∧
        ∀ position, skip ⟨position, bytes⟩ = .ok () ⟨position + length, bytes.drop length⟩) ∧
    ∀ position next, (skip ⟨position, bytes⟩ = .ok () next ↔ ∃ opcodes, Meets ⟨position, bytes⟩ opcodes next) ∧
      ∀ opcodes, Meets ⟨position, bytes⟩ opcodes next → (∀ opcode ∈ opcodes, IsCompiled opcode) →
        2 * opcodes.length + 1 ≤ area.code.freeLines page →
        ∃ length after, next = ⟨position + length, bytes.drop length⟩ ∧
          area.compile page (compiler.constExpr module bytes type) = (.ok length, after) := by
  refine ⟨fun length after hcompile => ?_, fun position next => ⟨ConstExpr.skip_eq_ok_iff, ?_⟩⟩
  · obtain ⟨reader, hending, rfl⟩ := ofConstExpr_of_compileConstExpr hcompile
    obtain ⟨opcodes, hmeets, -⟩ := Instruction.meets_of_sequence hending
    obtain ⟨word, happend, hlength, helsewhere⟩ := hmeets.elsewhere
    have hbytes : bytes = word ++ reader.rest := happend
    have hposition : reader.position = word.length := hlength.trans (Nat.zero_add _)
    rw [hposition, hbytes, List.drop_left, List.length_append]
    refine ⟨Nat.le_add_right _ _, fun position => ?_⟩
    exact ConstExpr.skip_eq_ok_iff.2 ⟨opcodes, helsewhere position reader.rest⟩
  · intro opcodes hmeets hcompiled hroom
    obtain ⟨word, happend, hlength, helsewhere⟩ := hmeets.elsewhere
    obtain ⟨position', rest⟩ := next
    obtain rfl : bytes = word ++ rest := happend
    obtain rfl : position' = position + word.length := hlength
    obtain ⟨hending, hcount⟩ := Instruction.sequence_of_meets (helsewhere 0 rest) hcompiled
    have hcode : (constantCode (Instruction.ofConstExpr (word ++ rest)).1).length = 2 * opcodes.length + 1 := by
      rw [length_constantCode fun _ hitem => Instruction.isConstant_of_mem hitem, ← hcount]
      rfl
    rw [← hcode] at hroom
    cases hpage : area.code.pages[page]? with
    | none =>
      rw [CodeStore.freeLines, hpage, hcode] at hroom
      exact absurd hroom (Nat.not_succ_le_zero _)
    | some found =>
      rw [CodeStore.freeLines, hpage] at hroom
      obtain ⟨after, hcompile⟩ := CodeArea.compileConstExpr_of_room hpage hending hroom
      refine ⟨word.length, after, by rw [List.drop_left], ?_⟩
      rwa [Nat.zero_add] at hcompile

/-- Padded integers, an index of a global and a byte behind the `end`, with just enough room for the code. -/
theorem constExpr_lengths_agree_padded :
    skip ⟨5, [0x41, 0xE5, 0x80, 0x00, 0x42, 0x7F, 0x23, 0x00, 0x0B, 0x41]⟩ = .ok () ⟨14, [0x41]⟩ ∧
      ∃ after, CodeArea.compile ⟨{}, { pages := #[{ capacity := 7, sequence := 0, grant := ⟨0, 0⟩ }] }⟩ 0
        (compiler.constExpr {} [0x41, 0xE5, 0x80, 0x00, 0x42, 0x7F, 0x23, 0x00, 0x0B, 0x41] .i32) = (.ok 9, after) := by
  have hmeets : Meets ⟨5, [0x41, 0xE5, 0x80, 0x00, 0x42, 0x7F, 0x23, 0x00, 0x0B, 0x41]⟩ [0x41, 0x42, 0x23]
      ⟨14, [0x41]⟩ :=
    .step (by decide) rfl (.step (by decide) rfl (.step (by decide) rfl (.finish 13 [0x41])))
  have hcompiled : ∀ opcode ∈ [(0x41 : UInt8), 0x42, 0x23], IsCompiled opcode := by
    simp [IsCompiled, ConstExpr.i32Opcode, ConstExpr.i64Opcode, ConstExpr.globalOpcode]
  have hagree := constExpr_lengths_agree {} .i32 [0x41, 0xE5, 0x80, 0x00, 0x42, 0x7F, 0x23, 0x00, 0x0B, 0x41]
    ⟨{}, { pages := #[{ capacity := 7, sequence := 0, grant := ⟨0, 0⟩ }] }⟩ 0
  obtain ⟨length, after, hnext, hcompile⟩ := (hagree.2 5 ⟨14, [0x41]⟩).2 _ hmeets hcompiled (by decide)
  obtain rfl : length = 9 := by
    have hposition : 14 = 5 + length := congrArg Reader.position hnext
    omega
  exact ⟨(hagree.1 9 after hcompile).2 5, after, hcompile⟩

end Threaded

end WasmEngine

import WasmEngine.Proofs.Placement.Machines
import WasmEngine.Proofs.Threaded.Execution

/-!
# Constant expressions in threaded code

The code of a constant expression is straight: it pushes constants and the contents of globals. What it leaves in slot
0 is a function of the globals that it reads (`Threaded.pushAll`), whatever machine it runs on.
-/

namespace WasmEngine

/-- Every item of a sequence was read. -/
theorem Reader.exists_of_mem_sequence {α : Type} {read : Read (Option α)} {h : Consumes read} {reader : Reader}
    {item : α} (hmem : item ∈ (sequence read h reader).1) : ∃ start next, read start = .ok (some item) next := by
  fun_induction sequence read h reader with
  | case1 reader error next hread => cases hmem
  | case2 reader next hread => cases hmem
  | case3 reader first next hread hlt items ending hrest ih =>
    rcases List.mem_cons.1 hmem with rfl | hmem
    · exact ⟨reader, next, hread⟩
    · rw [hrest] at ih
      exact ih hmem

namespace Threaded

open Compile Exec

/-! ## Values -/

namespace Instruction

variable {instruction : Instruction}

/-- An instruction that constant expressions may have. -/
inductive IsConstant : Instruction → Prop where
  | const (word : Slot) : IsConstant (.const word)
  | globalGet (index : UInt32) : IsConstant (.globalGet index)

/-- The global that an instruction reads. -/
def global? : Instruction → Option UInt32
  | .globalGet index => some index
  | _ => none

theorem isConstant_of_readConstant {opcode : UInt8} {operands : Read Instruction}
    (h : readConstant? opcode = some operands) {reader next : Reader}
    (hread : operands reader = .ok instruction next) : instruction.IsConstant := by
  unfold readConstant? at h
  repeat' split at h
  · cases h
    obtain ⟨value, between, -, hpure⟩ := run_bind_eq_ok hread
    cases hpure
    exact .const _
  · cases h
    obtain ⟨value, between, -, hpure⟩ := run_bind_eq_ok hread
    cases hpure
    exact .const _
  · cases h
    obtain ⟨value, between, -, hpure⟩ := run_bind_eq_ok hread
    cases hpure
    exact .globalGet _
  · cases h

theorem isConstant_of_readConst {reader next : Reader}
    (h : readConst reader = .ok (some instruction) next) : instruction.IsConstant := by
  obtain ⟨opcode, between, -, hrest⟩ := run_bind_eq_ok h
  split at hrest
  · cases hrest
  · cases hoperands : readConstant? opcode with
    | none =>
      rw [hoperands] at hrest
      cases hrest
    | some operands =>
      rw [hoperands] at hrest
      obtain ⟨value, between, hread, hpure⟩ := run_bind_eq_ok hrest
      cases hpure
      exact isConstant_of_readConstant hoperands hread

/-- Constant expressions have constants and globals only. -/
theorem isConstant_of_mem {expr : List UInt8} (h : instruction ∈ (ofConstExpr expr).1) :
    instruction.IsConstant := by
  obtain ⟨start, next, hread⟩ := Reader.exists_of_mem_sequence h
  exact isConstant_of_readConst hread

end Instruction

/-- What an instruction of a constant expression pushes. -/
def pushed (module : Module) : Instruction → Except Error Slot
  | .const word => .ok word
  | .globalGet index => globalSlot module index
  | _ => .error .missingCode

/-- The operands after the instructions of a constant expression. The fuel counts them and the return. -/
def pushAll (module : Module) : (fuel : Nat) → List Instruction → List Slot → Except Error (List Slot)
  | 0, _, _ => .error .stepLimit
  | _ + 1, [], operands => .ok operands
  | fuel + 1, instruction :: rest, operands =>
    match pushed module instruction with
    | .error error => .error error
    | .ok value => pushAll module fuel rest (value :: operands)

/-- The globals that are not read do not matter. -/
theorem pushAll_congr {module module' : Module} (instructions : List Instruction)
    (h : ∀ index ∈ instructions.filterMap Instruction.global?, globalSlot module index = globalSlot module' index)
    (fuel : Nat) (operands : List Slot) :
    pushAll module fuel instructions operands = pushAll module' fuel instructions operands := by
  induction instructions generalizing fuel operands with
  | nil => cases fuel <;> rfl
  | cons instruction rest ih =>
    have hrest : ∀ index ∈ rest.filterMap Instruction.global?, globalSlot module index = globalSlot module' index := by
      intro index hmem
      obtain ⟨other, hother, hread⟩ := List.mem_filterMap.1 hmem
      exact h index (List.mem_filterMap.2 ⟨other, List.mem_cons_of_mem _ hother, hread⟩)
    have hpushed : pushed module instruction = pushed module' instruction := by
      cases instruction with
      | globalGet index => exact h index (List.mem_filterMap.2 ⟨_, List.mem_cons_self .., rfl⟩)
      | _ => rfl
    cases fuel with
    | zero => rfl
    | succ fuel =>
      unfold pushAll
      rw [hpushed]
      cases pushed module' instruction with
      | error error => rfl
      | ok value => exact ih hrest fuel (value :: operands)

/-! ## Code -/

/-- The code of a constant expression. -/
def constantCode (instructions : List Instruction) : List Line :=
  instructions.flatMap Instruction.code ++ [Op.ret.line]

section Running

variable {module : Module} {after : Exec Unit} {state : ExecState} {page sp size : Nat}

/-- An instruction of a constant expression pushes its value. -/
theorem run_constant {instruction : Instruction} (hconstant : instruction.IsConstant) {fuel start : Nat}
    {operands : List Slot} (hcode : state.area.code.Holds ⟨page, start⟩ instruction.code) :
    (run module (fuel + 1) ⟨⟨page, start⟩, sp, size, operands⟩ after).exec module state =
      (Exec.check (pushed module instruction) >>= fun value =>
        run module fuel ⟨⟨page, start + instruction.code.length⟩, sp, size, value :: operands⟩ after).exec
          module state := by
  cases hconstant with
  | const word => exact run_const hcode
  | globalGet index => exact run_globalGet hcode

/-- The code of a constant expression pushes values and ends the call with the last. -/
theorem exec_constants {instructions : List Instruction} (hconstant : ∀ item ∈ instructions, item.IsConstant)
    {fuel start : Nat} {operands : List Slot}
    (hcode : state.area.code.Holds ⟨page, start⟩ (constantCode instructions)) :
    (run module fuel ⟨⟨page, start⟩, sp, size, operands⟩ after).exec module state =
      (Exec.check (pushAll module fuel instructions operands) >>= fun operands =>
        leave sp operands >>= fun _ => after).exec module state := by
  induction instructions generalizing fuel start operands with
  | nil =>
    cases fuel with
    | zero => rfl
    | succ fuel => exact run_ret hcode
  | cons instruction rest ih =>
    cases fuel with
    | zero => rfl
    | succ fuel =>
      obtain ⟨hfirst, hothers⟩ := List.forall_mem_cons.1 hconstant
      have hcode' : state.area.code.Holds ⟨page, start⟩ (instruction.code ++ constantCode rest) := by
        simpa [constantCode] using hcode
      rw [run_constant hfirst hcode'.append_left]
      unfold pushAll
      cases pushed module instruction with
      | error error => rfl
      | ok value => exact ih hothers hcode'.append_right

end Running

/-- Compiling a constant expression works on its page only, whatever becomes of it. -/
theorem writes_compileConstExpr {state : CompileState} {page : CodePage} {base : Nat}
    (hlt : state.page < state.area.code.pages.size) (haddr : base ≤ 0xFFFFFFFF) (expr : List UInt8) :
    Writes state page base (compileConstExpr expr) fun _ => True := by
  have hemit (instructions : List Instruction) :
      Writes state page base (instructions.forM emitPlain) fun _ => True := by
    induction instructions with
    | nil => exact .pure trivial
    | cons instruction rest ih => exact .bind (writes_emitPlain hlt haddr instruction) fun _ _ => ih
  have hcheck : Writes state page base (Compile.check (Instruction.ofConstExpr expr).2) fun _ => True :=
    fun lines _ => ⟨_, lines, rfl, Nat.le_refl _, rfl, fun _ _ => trivial⟩
  refine .bind (hemit _) fun _ _ => .bind hcheck fun reader _ => ?_
  exact .bind (writes_emitOp hlt haddr _) fun _ _ => .pure trivial

section Compiling

variable {state state' : CompileState} {page : CodePage} (hlt : state.page < state.area.code.pages.size)
  {lines : List Line}

include hlt

theorem forM_emitPlain_eq_ok {instructions : List Instruction}
    (h : (instructions.forM emitPlain).exec (state.withLines page lines) = (.ok (), state')) :
    state' = state.withLines page (lines ++ instructions.flatMap Instruction.code) := by
  induction instructions generalizing lines with
  | nil =>
    cases h
    simp
  | cons instruction rest ih =>
    obtain ⟨done, between, hemit, hrest⟩ := exec_bind_eq_ok h
    rw [emitPlain_eq_ok hlt hemit] at hrest
    simpa using ih hrest

/-- Compiling a constant expression appends its code and gives its length. -/
theorem compileConstExpr_eq_ok {expr : List UInt8} {length : Nat}
    (h : (compileConstExpr expr).exec (state.withLines page lines) = (.ok length, state')) :
    ∃ reader, (Instruction.ofConstExpr expr).2 = .ok reader ∧ length = reader.position ∧
      state' = state.withLines page (lines ++ constantCode (Instruction.ofConstExpr expr).1) := by
  obtain ⟨done, between, hforM, hrest⟩ := exec_bind_eq_ok h
  rw [forM_emitPlain_eq_ok hlt hforM] at hrest
  obtain ⟨reader, between, hcheck, hrest⟩ := exec_bind_eq_ok hrest
  obtain ⟨hending, rfl⟩ := Prod.mk.inj hcheck
  obtain ⟨done, between, hret, hpure⟩ := exec_bind_eq_ok hrest
  cases hpure
  refine ⟨reader, hending, rfl, ?_⟩
  rw [emitOp_eq_ok hlt hret, List.append_assoc]
  rfl

end Compiling

end Threaded

end WasmEngine

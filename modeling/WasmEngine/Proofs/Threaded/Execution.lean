import WasmEngine.Proofs.Code.Text
import WasmEngine.Proofs.Threaded.Assembler
import WasmEngine.Proofs.Threaded.Semantics
import WasmEngine.Machine.Execute

/-!
# Running the code of an instruction

A call that is at an operation runs it and goes on. Where the code of an instruction stands, that is what evaluating the
instruction does. A call of another function is left open here.
-/

namespace WasmEngine

namespace Exec

variable {α β : Type} {module : Module} {state between : ExecState}

/-- Runs a running program of a module from a state. -/
def exec (program : Exec α) (module : Module) (state : ExecState) : Except Error α × ExecState :=
  Dialogue.exec (ExecState.answer module) program state

theorem exec_bind_ok {first : Exec α} {value : α} (h : first.exec module state = (.ok value, between))
    (second : α → Exec β) : (first >>= second).exec module state = (second value).exec module between :=
  Dialogue.exec_bind_ok h second

theorem exec_bind_error {first : Exec α} {error : Error} (h : first.exec module state = (.error error, between))
    (second : α → Exec β) : (first >>= second).exec module state = (.error error, between) :=
  Dialogue.exec_bind_error h second

/-- Programs that begin in the same way have the same outcome if the rests have. -/
theorem exec_bind_imp {first : Exec α} {second second' : α → Exec β} {outcome : Except Error β × ExecState}
    (h : (first >>= second).exec module state = outcome)
    (hnext : ∀ value between, first.exec module state = (.ok value, between) →
      (second value).exec module between = outcome → (second' value).exec module between = outcome) :
    (first >>= second').exec module state = outcome := by
  cases hfirst : first.exec module state with
  | mk result between =>
    cases result with
    | ok value =>
      rw [exec_bind_ok hfirst] at h ⊢
      exact hnext value between hfirst h
    | error error =>
      rw [exec_bind_error hfirst] at h ⊢
      exact h

theorem exec_bind_congr {first first' : Exec α} (h : first.exec module state = first'.exec module state)
    (second : α → Exec β) : (first >>= second).exec module state = (first' >>= second).exec module state := by
  cases hfirst : first'.exec module state with
  | mk result between =>
    rw [hfirst] at h
    cases result with
    | ok value => rw [exec_bind_ok h, exec_bind_ok hfirst]
    | error error => rw [exec_bind_error h, exec_bind_error hfirst]

theorem exec_fetch {address : CodeRef} {line : Line} (h : state.area.code.line? address = some line) :
    (fetch address).exec module state = (.ok line, state) := by
  change ExecState.answer module (.fetch address) state = _
  simp only [ExecState.answer, h]

theorem exec_immediate {address : CodeRef} {value : UInt64} (h : state.area.code.line? address = some (.imm value)) :
    (immediate address).exec module state = (.ok value, state) :=
  exec_bind_ok (exec_fetch h) _

theorem exec_slot {index : Nat} {value : Slot} (h : state.stack[index]? = some value) :
    (slot index).exec module state = (.ok value, state) := by
  change ExecState.answerFrame 0 (.slot index) state = _
  simp only [ExecState.answerFrame, Nat.zero_add, h]

theorem exec_setSlot {index : Nat} (h : index < state.stack.size) (value : Slot) :
    (setSlot index value).exec module state =
      (.ok (), { state with stack := state.stack.setIfInBounds index value }) := by
  change ExecState.answerFrame 0 (.setSlot index value) state = _
  simp only [ExecState.answerFrame, Nat.zero_add, if_pos h]

theorem exec_setSlot_of_le {index : Nat} (h : state.stack.size ≤ index) (value : Slot) :
    (setSlot index value).exec module state = (.error (.trap .stackOverflow), state) := by
  change ExecState.answerFrame 0 (.setSlot index value) state = _
  simp only [ExecState.answerFrame, Nat.zero_add, if_neg (Nat.not_lt.2 h)]

/-- The code of a linked import calls the host function. -/
theorem exec_callNativeAt {link : HostLink} {entry : CodeRef} {sp : Nat}
    (hcode : state.area.code.Holds entry link.lines) :
    (callNativeAt entry sp).exec module state =
      (callNative link.function sp link.cookie).exec module state := by
  obtain ⟨function, cookie⟩ := link
  unfold callNativeAt
  cases cookie with
  | none =>
    rw [exec_bind_ok (exec_fetch hcode.head)]
    simp only [if_true, pure_bind]
    rw [exec_bind_ok (exec_fetch hcode.second)]
  | some cookie =>
    have hcookie : state.area.code.line? (entry.offset 2) = some (.imm cookie) := hcode.line? rfl
    have hother : Line.callNativeWithCookie ≠ Line.callNative := by decide
    rw [exec_bind_ok (exec_fetch hcode.head)]
    simp only [if_neg hother, if_true, map_eq_pure_bind, bind_assoc, pure_bind]
    rw [exec_bind_ok (exec_immediate hcookie), exec_bind_ok (exec_fetch hcode.second)]

end Exec

namespace Threaded

open Exec

theorem exec_immediate32 {module : Module} {state : ExecState} {address : CodeRef} {value : UInt64}
    (h : state.area.code.line? address = some (.imm value)) (hlt : value.toNat < 0x100000000) :
    (immediate32 address).exec module state = (.ok value.toUInt32, state) := by
  unfold immediate32
  rw [exec_bind_ok (exec_immediate h), if_pos hlt]
  rfl

/-- No operation is taken for the call of a host function. -/
theorem Op.isNative_code (op : Op) : (op.code = Line.callNative || op.code = Line.callNativeWithCookie) = false := by
  cases op with
  | arithmetic arithmetic =>
    obtain ⟨isWide, calculation⟩ := arithmetic
    cases isWide <;> cases calculation <;> rfl
  | _ => rfl

/-- Goes on after an operation. -/
def Next.run (module : Module) (fuel : Nat) (after : Exec Unit) : Next → Exec Unit
  | .proceed call => Threaded.run module fuel call after
  | .enter callee caller true =>
    Threaded.run module fuel callee do
      let value ← Exec.slot callee.sp
      Threaded.run module fuel (caller.push value) after
  | .enter callee caller false => Threaded.run module fuel callee (Threaded.run module fuel caller after)
  | .finish => after

theorem run_succ (module : Module) (fuel : Nat) (call : Activation) (after : Exec Unit) :
    run module (fuel + 1) call after = step module call >>= Next.run module fuel after := by
  refine congrArg (Bind.bind (step module call)) (funext fun next => ?_)
  cases next with
  | proceed call => rfl
  | enter callee caller hasResult => cases hasResult <;> rfl
  | finish => rfl

section Operations

variable {module : Module} {fuel : Nat} {call : Activation} {after : Exec Unit} {state : ExecState}

/-- A call that is at an operation runs it. -/
theorem exec_run_op {op : Op} (h : state.area.code.line? call.pc = some op.line) :
    (run module (fuel + 1) call after).exec module state =
      (runOp module call op >>= Next.run module fuel after).exec module state := by
  rw [run_succ]
  unfold step
  rw [bind_assoc, exec_bind_ok (exec_fetch h)]
  simp only [Op.line, Op.isNative_code, Bool.false_eq_true, if_false, Op.ofCode?_code]

/-- Goes on behind an instruction or a block, or after the call if the function returned. -/
def resume (after : Exec Unit) (next : List Slot → Exec Unit) : Option (List Slot) → Exec Unit
  | none => after
  | some operands => next operands

theorem tableEntry_source (module : Module) (slot : Slot) (type : Nat) :
    tableEntry module.source slot type = tableEntry module slot type := by
  unfold tableEntry Module.source
  simp only [Array.getElem?_map]
  cases module.table[slot.toNat]? with
  | none => rfl
  | some entry =>
    cases entry with
    | none => rfl
    | some function =>
      cases hfunc : module.functions[function]? with
      | none => simp [hfunc]
      | some func => simp [hfunc, Func.source]

section Instructions

variable {page start sp size : Nat} {operands : List Slot}

theorem run_const {word : Slot} (hcode : state.area.code.Holds ⟨page, start⟩ (Instruction.const word).code) :
    (run module (fuel + 1) ⟨⟨page, start⟩, sp, size, operands⟩ after).exec module state =
      (run module fuel ⟨⟨page, start + 2⟩, sp, size, word :: operands⟩ after).exec module state := by
  rw [exec_run_op hcode.head, runOp, bind_assoc, exec_bind_ok (exec_immediate hcode.second)]
  rfl

theorem run_globalGet {index : UInt32}
    (hcode : state.area.code.Holds ⟨page, start⟩ (Instruction.globalGet index).code) :
    (run module (fuel + 1) ⟨⟨page, start⟩, sp, size, operands⟩ after).exec module state =
      (Exec.check (globalSlot module index) >>= fun value =>
        run module fuel ⟨⟨page, start + 2⟩, sp, size, value :: operands⟩ after).exec module state := by
  rw [exec_run_op hcode.head, runOp, bind_assoc,
    exec_bind_ok (exec_immediate32 hcode.second (UInt32.toNat_lt index)), bind_assoc, UInt32.toUInt32_toUInt64]
  rfl

theorem run_localGet {index : UInt32} (hcode : state.area.code.Holds ⟨page, start⟩ (Instruction.localGet index).code) :
    (run module (fuel + 1) ⟨⟨page, start⟩, sp, size, operands⟩ after).exec module state =
      (Exec.slot (sp + index.toNat) >>= fun value =>
        run module fuel ⟨⟨page, start + 2⟩, sp, size, value :: operands⟩ after).exec module state := by
  rw [exec_run_op hcode.head, runOp, bind_assoc, exec_bind_ok (exec_immediate hcode.second), bind_assoc]
  rfl

theorem run_arithmetic {operation : Arithmetic} {a b : Slot}
    (hcode : state.area.code.Holds ⟨page, start⟩ (Instruction.arithmetic operation).code) :
    (run module (fuel + 1) ⟨⟨page, start⟩, sp, size, b :: a :: operands⟩ after).exec module state =
      (run module fuel ⟨⟨page, start + 1⟩, sp, size, operation.apply a b :: operands⟩ after).exec module state := by
  rw [exec_run_op hcode.head, runOp]
  rfl

theorem run_callOp {function : UInt32} (hcode : state.area.code.Holds ⟨page, start⟩ (Instruction.call function).code) :
    (run module (fuel + 1) ⟨⟨page, start⟩, sp, size, operands⟩ after).exec module state =
      (prepareCall module function.toNat ⟨⟨page, start + 2⟩, sp, size, operands⟩ >>=
        Next.run module fuel after).exec module state := by
  rw [exec_run_op hcode.head, runOp, bind_assoc, exec_bind_ok (exec_immediate32 hcode.second (UInt32.toNat_lt function)),
    UInt32.toUInt32_toUInt64]
  rfl

end Instructions

/-- Where the code of an instruction stands, running is evaluating. `call` is what calls do. -/
theorem run_instruction {instruction : Instruction} (hplain : instruction.isPlain = true) {page start sp size : Nat}
    {operands : List Slot} {call : Nat → List Slot → Exec (List Slot)} {outcome : Except Error Unit × ExecState}
    (hcode : state.area.code.Holds ⟨page, start⟩ instruction.code)
    (hcall : ∀ function operands,
      (prepareCall module function ⟨⟨page, start + 2⟩, sp, size, operands⟩ >>=
        Next.run module fuel after).exec module state = outcome →
      (call function operands >>= fun operands =>
        run module fuel ⟨⟨page, start + 2⟩, sp, size, operands⟩ after).exec module state = outcome)
    (h : (run module (fuel + 1) ⟨⟨page, start⟩, sp, size, operands⟩ after).exec module state = outcome) :
    (instruction.eval module.source call sp operands >>= resume after fun operands =>
      run module fuel ⟨⟨page, start + instruction.code.length⟩, sp, size, operands⟩ after).exec module state =
        outcome := by
  cases instruction with
  | const word =>
    rw [run_const hcode] at h
    exact h
  | globalGet index =>
    rw [run_globalGet hcode] at h
    rw [Instruction.eval, bind_assoc]
    exact h
  | localGet index =>
    rw [run_localGet hcode] at h
    rw [Instruction.eval, bind_assoc]
    exact h
  | arithmetic operation =>
    rw [exec_run_op hcode.head, runOp] at h
    rw [Instruction.eval]
    cases operands with
    | nil => exact h
    | cons b operands =>
      cases operands with
      | nil => exact h
      | cons a operands => exact h
  | unreachable =>
    rw [exec_run_op hcode.head, runOp] at h
    exact h
  | ret =>
    rw [exec_run_op hcode.head, runOp] at h
    cases operands with
    | nil => exact h
    | cons value operands =>
      rw [bind_assoc] at h
      rw [Instruction.eval, bind_assoc]
      exact h
  | call function =>
    rw [run_callOp hcode] at h
    rw [Instruction.eval, bind_assoc]
    simp only [pure_bind]
    exact hcall _ _ h
  | callIndirect type =>
    rw [exec_run_op hcode.head, runOp, bind_assoc, exec_bind_ok (exec_immediate hcode.second),
      UInt32.toNat_toUInt64] at h
    rw [Instruction.eval]
    cases operands with
    | nil => exact h
    | cons slot operands =>
      simp only [pop, pure_bind, bind_assoc, tableEntry_source] at h ⊢
      cases hentry : tableEntry module slot type.toNat with
      | error error =>
        rw [hentry] at h
        exact h
      | ok function =>
        rw [hentry] at h
        exact hcall _ _ h
  | drop =>
    rw [exec_run_op hcode.head, runOp] at h
    rw [Instruction.eval]
    cases operands with
    | nil => exact h
    | cons value operands => exact h
  | ifThen => cases hplain
  | orElse => cases hplain
  | finish => cases hplain

/-- The number of a line is read back if it has 32 bits. -/
theorem exec_target {address : CodeRef} {line : Nat} (hlt : line < 0x100000000)
    (h : state.area.code.line? address = some (.imm (.ofNat line))) (module : Module) :
    ∃ target : UInt32, target.toNat = line ∧ (immediate32 address).exec module state = (.ok target, state) := by
  have hword : (UInt64.ofNat line).toNat = line := UInt64.toNat_ofNat_of_lt (Nat.lt_trans hlt (by decide))
  refine ⟨(UInt64.ofNat line).toUInt32, ?_, exec_immediate32 h (hword.trans_lt hlt)⟩
  rw [UInt64.toNat_toUInt32, hword, Nat.mod_eq_of_lt hlt]

variable {page start sp size line : Nat} {operands : List Slot}

theorem run_branch (hcode : state.area.code.Holds ⟨page, start⟩ [Op.branch.line, .imm (.ofNat line)])
    (hlt : line < 0x100000000) :
    (run module (fuel + 1) ⟨⟨page, start⟩, sp, size, operands⟩ after).exec module state =
      (run module fuel ⟨⟨page, line⟩, sp, size, operands⟩ after).exec module state := by
  obtain ⟨target, rfl, htarget⟩ := exec_target hlt hcode.second module
  rw [exec_run_op hcode.head, runOp, bind_assoc, exec_bind_ok htarget]
  rfl

theorem run_branchUnless (hcode : state.area.code.Holds ⟨page, start⟩ [Op.branchUnless.line, .imm (.ofNat line)])
    (hlt : line < 0x100000000) :
    (run module (fuel + 1) ⟨⟨page, start⟩, sp, size, operands⟩ after).exec module state =
      (pop operands >>= fun (condition, operands) =>
        if condition = 0 then run module fuel ⟨⟨page, line⟩, sp, size, operands⟩ after
        else run module fuel ⟨⟨page, start + 2⟩, sp, size, operands⟩ after).exec module state := by
  obtain ⟨target, rfl, htarget⟩ := exec_target hlt hcode.second module
  rw [exec_run_op hcode.head, runOp]
  cases operands with
  | nil => rfl
  | cons condition operands =>
    simp only [pop, pure_bind]
    by_cases hzero : condition = 0
    · rw [if_pos hzero, if_pos hzero, bind_assoc, exec_bind_ok htarget]
      rfl
    · rw [if_neg hzero, if_neg hzero]
      rfl

theorem run_ret (hcode : state.area.code.Holds ⟨page, start⟩ [Op.ret.line]) :
    (run module (fuel + 1) ⟨⟨page, start⟩, sp, size, operands⟩ after).exec module state =
      (leave sp operands >>= fun _ => after).exec module state := by
  rw [exec_run_op hcode.head, runOp]
  cases operands with
  | nil => rfl
  | cons value operands =>
    rw [bind_assoc]
    rfl

/-- A function opens its frame first. -/
theorem run_enter {func : Func} {entry : CodeRef}
    (hcode : state.area.code.Holds entry
      [Op.enter.line, .imm (.ofNat func.type.type.params.length), .imm (.ofNat func.numLocals)]) :
    (run module (fuel + 1) { pc := entry, sp } after).exec module state =
      (openFrame func sp >>= fun size =>
        run module fuel ⟨⟨entry.page, entry.line + 3⟩, sp, size, []⟩ after).exec module state := by
  have hlocals : state.area.code.line? (entry.offset 2) = some (.imm (.ofNat func.numLocals)) := hcode.line? rfl
  rw [exec_run_op hcode.head, runOp, enter, bind_assoc, bind_assoc, exec_bind_ok (exec_immediate hcode.second),
    bind_assoc, exec_bind_ok (exec_immediate hlocals)]
  unfold openFrame
  simp only [bind_assoc]
  refine congrArg (fun program => Exec.exec (slotCount >>= program) module state) (funext fun count => ?_)
  split
  · rfl
  · rw [bind_assoc, bind_assoc]
    rfl

/-- An import calls the host function that it is linked with. -/
theorem run_native {link : HostLink} {entry : CodeRef} (hcode : state.area.code.Holds entry link.lines) :
    (run module (fuel + 1) { pc := entry, sp } after).exec module state =
      (Exec.callNative link.function sp link.cookie >>= fun _ => after).exec module state := by
  have hstep : (step module { pc := entry, sp }).exec module state =
      (callNativeAt entry sp >>= fun _ => pure .finish).exec module state := by
    unfold step
    cases hcookie : link.cookie with
    | none =>
      rw [HostLink.lines, hcookie] at hcode
      rw [exec_bind_ok (exec_fetch hcode.head)]
      rfl
    | some cookie =>
      rw [HostLink.lines, hcookie] at hcode
      rw [exec_bind_ok (exec_fetch hcode.head)]
      rfl
  rw [run_succ, exec_bind_congr hstep, bind_assoc, exec_bind_congr (exec_callNativeAt hcode)]
  rfl

end Operations

end Threaded

end WasmEngine

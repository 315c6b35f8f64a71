import Mathlib.Data.Nat.Fib.Basic
import WasmEngine.Proofs.Placement.Machines
import WasmEngine.Proofs.Threaded.Execution

/-!
# The Fibonacci function in threaded code

A function that calls itself twice computes the Fibonacci numbers, modulo `2 ^ 64`. Each call takes one slot, so `n`
slots are enough for `fib n`, and fewer are not.
-/

namespace WasmEngine

/-! ## Calls of functions that have their code -/

/-- The state after the host was given a chance to do other work. -/
def ExecState.yielded (state : ExecState) : ExecState :=
  { state with
    area := { state.area with env := { state.area.env with yields := state.area.env.yields + 1 } } }

namespace Exec

variable {module : Module} {state : ExecState}

theorem exec_ensureCompiled {function : Nat} {entry : CodeRef} (h : state.entryOf module function = some entry) :
    (ensureCompiled function).exec module state = (.ok entry, state) :=
  ExecState.ensureCompiled_of_entryOf h

theorem exec_yieldNow (h : state.area.env.host.onYield state.area.env.yields = .ok ()) :
    yieldNow.exec module state = (.ok (), state.yielded) := by
  change ExecState.answer module .yieldNow state = _
  simp only [ExecState.answer, Environment.yieldNow, h, ExecState.yielded]

end Exec

namespace Fibonacci

open Threaded Exec

/-! ## The function -/

/-- The instructions of the function, encoded. -/
def body : List UInt8 :=
  [0x20, 0x00, 0x42, 0x02, 0x54, 0x04, 0x7e, 0x20, 0x00, 0x05, 0x20, 0x00, 0x42, 0x02, 0x7d, 0x10, 0x00, 0x20, 0x00,
    0x42, 0x01, 0x7d, 0x10, 0x00, 0x7c, 0x0b, 0x0b]

/-- The function. -/
def func : Func where
  type := ⟨0, ⟨some .i64, [.i64]⟩⟩
  label := .given "fib"
  body := some body

def lessThan : Arithmetic := ⟨true, .ltU⟩

def difference : Arithmetic := ⟨true, .sub⟩

def sum : Arithmetic := ⟨true, .add⟩

/-- Calls the function with its argument less a number. -/
def recurse (less : Slot) (rest : Threaded.Block) : Threaded.Block :=
  .plain (.localGet 0) rfl (.plain (.const less) rfl (.plain (.arithmetic difference) rfl (.plain (.call 0) rfl rest)))

/-- The body of the function as a tree. -/
def block : Threaded.Block :=
  .plain (.localGet 0) rfl (.plain (.const 2) rfl (.plain (.arithmetic lessThan) rfl
    (.cond (.plain (.localGet 0) rfl .done) (recurse 2 (recurse 1 (.plain (.arithmetic sum) rfl .done))) .done)))

theorem ofBody_body : Threaded.Block.ofBody body = some block := by
  have hread : (Instruction.ofBody body).1 = block.flatten ++ [.finish] := by decide +kernel
  exact Threaded.Block.parse_eq_some.2 ⟨[], hread⟩

/-- The code of the function at the beginning of a page. -/
def code : List Line :=
  [Op.enter.line, .imm 1, .imm 0,
    Op.localGet.line, .imm 0, Op.push.line, .imm 2, (Op.arithmetic lessThan).line, Op.branchUnless.line, .imm 14,
    Op.localGet.line, .imm 0, Op.branch.line, .imm 29,
    Op.localGet.line, .imm 0, Op.push.line, .imm 2, (Op.arithmetic difference).line, Op.call.line, .imm 0,
    Op.localGet.line, .imm 0, Op.push.line, .imm 1, (Op.arithmetic difference).line, Op.call.line, .imm 0,
    (Op.arithmetic sum).line, Op.ret.line]

theorem functionCode_func : functionCode func 0 = some code :=
  functionCode_eq_some.2 ⟨body, block, rfl, ofBody_body, rfl⟩

/-! ## States that calls run in -/

/-- The function is the first of a module with its code at the beginning of the first page, and the host always has the
time. -/
structure Placed (module : Module) (state : ExecState) : Prop where
  function : ∃ code, module.functions[0]? = some { func with code }
  entry : state.entryOf module 0 = some ⟨0, 0⟩
  holds : state.area.code.Holds ⟨0, 0⟩ code
  patient : ∀ count, state.area.env.host.onYield count = .ok ()

/-- A call with its frame from a slot on changes the slots from there on, and the count of chances for the host. -/
structure Confined (sp : Nat) (state state' : ExecState) : Prop where
  size : state'.stack.size = state.stack.size
  below : ∀ index < sp, state'.stack[index]? = state.stack[index]?
  code : state'.area.code = state.area.code
  host : state'.area.env.host = state.area.env.host
  compiled : state'.compiled = state.compiled

variable {module : Module} {sp : Nat} {state state' state'' : ExecState}

namespace Confined

theorem trans (h : Confined sp state state') (h' : Confined sp state' state'') : Confined sp state state'' where
  size := h'.size.trans h.size
  below index hlt := (h'.below index hlt).trans (h.below index hlt)
  code := h'.code.trans h.code
  host := h'.host.trans h.host
  compiled := h'.compiled.trans h.compiled

theorem of_succ (h : Confined (sp + 1) state state') : Confined sp state state' :=
  { h with below := fun index hlt => h.below index (Nat.lt_succ_of_lt hlt) }

theorem setSlot {index : Nat} (hle : sp ≤ index) (value : Slot) :
    Confined sp state { state with stack := state.stack.setIfInBounds index value } where
  size := Array.size_setIfInBounds
  below other hlt := Array.getElem?_setIfInBounds_ne (by omega)
  code := rfl
  host := rfl
  compiled := rfl

theorem yieldNow (h : Confined sp state state') : Confined sp state state'.yielded where
  size := h.size
  below := h.below
  code := h.code
  host := h.host
  compiled := h.compiled

end Confined

theorem Placed.of_confined (h : Placed module state) (hconfined : Confined sp state state') : Placed module state' where
  function := h.function
  entry := by
    unfold ExecState.entryOf
    rw [hconfined.compiled]
    exact h.entry
  holds := hconfined.code ▸ h.holds
  patient := hconfined.host ▸ h.patient

/-! ## The parts of the code -/

section Parts

variable {fuel : Nat} {after : Exec Unit} {n : Nat} (hplaced : Placed module state) {start : Nat} {operands : List Slot}

include hplaced

omit hplaced in
theorem exec_openFrame (hroom : sp < state.stack.size) : (openFrame func sp).exec module state = (.ok 1, state) := by
  have hcount : slotCount.exec module state = (.ok state.stack.size, state) := rfl
  have hfits : ¬ sp + (UInt64.ofNat func.type.type.params.length).toNat + (UInt64.ofNat func.numLocals).toNat >
      state.stack.size := Nat.not_lt.2 hroom
  unfold openFrame
  rw [exec_bind_ok hcount, if_neg hfits]
  rfl

/-- The first part asks whether the argument is less than two. -/
theorem run_test (hslot : state.stack[sp]? = some (.ofNat n)) (hn : n < 0x10000000000000000) :
    (run module (fuel + 5) { pc := ⟨0, 0⟩, sp } after).exec module state =
      (run module fuel ⟨⟨0, if n < 2 then 10 else 14⟩, sp, 1, []⟩ after).exec module state := by
  have hroom : sp < state.stack.size := (Array.getElem?_eq_some_iff.1 hslot).1
  have henter : state.area.code.Holds ⟨0, 0⟩
      [Op.enter.line, .imm (.ofNat func.type.type.params.length), .imm (.ofNat func.numLocals)] :=
    hplaced.holds.part 0 (Nat.zero_le _) rfl
  have hget : state.area.code.Holds ⟨0, 3⟩ (Instruction.localGet 0).code := hplaced.holds.part 3 (by decide) rfl
  have htwo : state.area.code.Holds ⟨0, 5⟩ (Instruction.const 2).code := hplaced.holds.part 5 (by decide) rfl
  have hless : state.area.code.Holds ⟨0, 7⟩ (Instruction.arithmetic lessThan).code :=
    hplaced.holds.part 7 (by decide) rfl
  have hbranch : state.area.code.Holds ⟨0, 8⟩ [Op.branchUnless.line, .imm (.ofNat 14)] :=
    hplaced.holds.part 8 (by decide) rfl
  have hcondition : lessThan.apply (.ofNat n) 2 = if n < 2 then 1 else 0 := by
    have hvalue : (UInt64.ofNat n).toNat = n := UInt64.toNat_ofNat_of_lt hn
    have hlt : UInt64.ofNat n < 2 ↔ n < 2 := by
      rw [UInt64.lt_iff_toNat_lt, hvalue]
      rfl
    exact if_congr hlt rfl rfl
  calc
    (run module (fuel + 5) { pc := ⟨0, 0⟩, sp } after).exec module state
      = (run module (fuel + 4) ⟨⟨0, 3⟩, sp, 1, []⟩ after).exec module state := by
        rw [run_enter henter, exec_bind_ok (exec_openFrame hroom)]
    _ = (run module (fuel + 3) ⟨⟨0, 5⟩, sp, 1, [.ofNat n]⟩ after).exec module state := by
        rw [run_localGet hget]
        exact exec_bind_ok (exec_slot hslot) _
    _ = (run module (fuel + 1) ⟨⟨0, 8⟩, sp, 1, [if n < 2 then 1 else 0]⟩ after).exec module state := by
        rw [run_const htwo, run_arithmetic hless, hcondition]
    _ = (run module fuel ⟨⟨0, if n < 2 then 10 else 14⟩, sp, 1, []⟩ after).exec module state := by
        rw [run_branchUnless hbranch (by decide)]
        simp only [pop, pure_bind]
        split
        · rfl
        · rfl

/-- An argument that is less than two is the result. -/
theorem run_small (hslot : state.stack[sp]? = some (.ofNat n)) :
    ∃ state', Confined sp state state' ∧ state'.stack[sp]? = some (.ofNat n) ∧
      (run module (fuel + 3) ⟨⟨0, 10⟩, sp, 1, []⟩ after).exec module state = after.exec module state' := by
  have hroom : sp < state.stack.size := (Array.getElem?_eq_some_iff.1 hslot).1
  have hget : state.area.code.Holds ⟨0, 10⟩ (Instruction.localGet 0).code := hplaced.holds.part 10 (by decide) rfl
  have hbranch : state.area.code.Holds ⟨0, 12⟩ [Op.branch.line, .imm (.ofNat 29)] :=
    hplaced.holds.part 12 (by decide) rfl
  have hret : state.area.code.Holds ⟨0, 29⟩ [Op.ret.line] := hplaced.holds.part 29 (by decide) rfl
  refine ⟨_, .setSlot (Nat.le_refl sp) (.ofNat n), Array.getElem?_setIfInBounds_self_of_lt hroom, ?_⟩
  calc
    (run module (fuel + 3) ⟨⟨0, 10⟩, sp, 1, []⟩ after).exec module state
      = (run module (fuel + 2) ⟨⟨0, 12⟩, sp, 1, [.ofNat n]⟩ after).exec module state := by
        rw [run_localGet hget]
        exact exec_bind_ok (exec_slot hslot) _
    _ = (leave sp [.ofNat n] >>= fun _ => after).exec module state := by
        rw [run_branch hbranch (by decide), run_ret hret]
    _ = _ := exec_bind_ok (exec_setSlot hroom _) _

/-- The sum of two numbers is the result. -/
theorem run_sum (after : Exec Unit) (hroom : sp < state.stack.size) (a b : Slot) :
    ∃ state', Confined sp state state' ∧ state'.stack[sp]? = some (a + b) ∧
      (run module (fuel + 2) ⟨⟨0, 28⟩, sp, 1, [b, a]⟩ after).exec module state = after.exec module state' := by
  have hsum : state.area.code.Holds ⟨0, 28⟩ (Instruction.arithmetic sum).code := hplaced.holds.part 28 (by decide) rfl
  have hret : state.area.code.Holds ⟨0, 29⟩ [Op.ret.line] := hplaced.holds.part 29 (by decide) rfl
  refine ⟨_, .setSlot (Nat.le_refl sp) (a + b), Array.getElem?_setIfInBounds_self_of_lt hroom, ?_⟩
  rw [run_arithmetic hsum, run_ret hret]
  exact exec_bind_ok (exec_setSlot hroom _) _

omit hplaced in
/-- Where the code of a call of the function with a lesser argument stands, it prepares the call. -/
theorem run_recurse {less : Slot} {value : Slot}
    (hcode : state.area.code.Holds ⟨0, start⟩ ((recurse less .done).code start))
    (hslot : state.stack[sp]? = some value) :
    (run module (fuel + 4) ⟨⟨0, start⟩, sp, 1, operands⟩ after).exec module state =
      (prepareCall module 0 ⟨⟨0, start + 7⟩, sp, 1, (value - less) :: operands⟩ >>=
        Next.run module fuel after).exec module state := by
  have hget : state.area.code.Holds ⟨0, start⟩ (Instruction.localGet 0).code := hcode.append_left
  have hless : state.area.code.Holds ⟨0, start + 2⟩ (Instruction.const less).code := hcode.append_right.append_left
  have hsub : state.area.code.Holds ⟨0, start + 4⟩ (Instruction.arithmetic difference).code :=
    hcode.append_right.append_right.append_left
  have hcall : state.area.code.Holds ⟨0, start + 5⟩ (Instruction.call 0).code :=
    hcode.append_right.append_right.append_right.append_left
  calc
    (run module (fuel + 4) ⟨⟨0, start⟩, sp, 1, operands⟩ after).exec module state
      = (run module (fuel + 3) ⟨⟨0, start + 2⟩, sp, 1, value :: operands⟩ after).exec module state := by
        rw [run_localGet hget]
        exact exec_bind_ok (exec_slot hslot) _
    _ = (run module (fuel + 1) ⟨⟨0, start + 5⟩, sp, 1, (value - less) :: operands⟩ after).exec module state := by
        rw [run_const hless, run_arithmetic hsub]
        rfl
    _ = _ := run_callOp hcall

/-- A call passes its argument in the first slot behind the frame of the caller. -/
theorem exec_prepareCall (value : Slot) (next : Next → Exec Unit) :
    (prepareCall module 0 ⟨⟨0, start⟩, sp, 1, value :: operands⟩ >>= next).exec module state =
      (setSlot (sp + 1) value >>= fun _ => yieldNow >>= fun _ =>
        next (.enter { pc := ⟨0, 0⟩, sp := sp + 1 } ⟨⟨0, start⟩, sp, 1, operands⟩ true)).exec module state := by
  obtain ⟨entry, hfunc⟩ := hplaced.function
  unfold prepareCall
  rw [bind_assoc, exec_bind_ok (exec_ensureCompiled hplaced.entry), hfunc]
  have hpass : passArguments (sp + 1) 1 (value :: operands) = setSlot (sp + 1) value >>= fun _ => pure operands := rfl
  change ((passArguments (sp + 1) 1 (value :: operands) >>= fun operands => yieldNow >>= fun _ =>
    pure (.enter { pc := ⟨0, 0⟩, sp := sp + 1 } ⟨⟨0, start⟩, sp, 1, operands⟩ true)) >>= next).exec module state = _
  rw [hpass]
  simp only [bind_assoc, pure_bind]

/-- The callee runs first if its frame fits; the caller goes on with the result. -/
theorem exec_call (hroom : sp + 1 < state.stack.size) (value : Slot) :
    ∃ state', Confined (sp + 1) state state' ∧ state'.stack[sp + 1]? = some value ∧
      (prepareCall module 0 ⟨⟨0, start⟩, sp, 1, value :: operands⟩ >>= Next.run module fuel after).exec module state =
        (run module fuel { pc := ⟨0, 0⟩, sp := sp + 1 } (slot (sp + 1) >>= fun result =>
          run module fuel ⟨⟨0, start⟩, sp, 1, result :: operands⟩ after)).exec module state' := by
  have hconfined : Confined (sp + 1) state { state with stack := state.stack.setIfInBounds (sp + 1) value } :=
    .setSlot (Nat.le_refl _) value
  have hpassed := hplaced.of_confined hconfined
  refine ⟨_, hconfined.yieldNow, Array.getElem?_setIfInBounds_self_of_lt hroom, ?_⟩
  rw [exec_prepareCall hplaced, exec_bind_ok (exec_setSlot hroom value)]
  exact exec_bind_ok (exec_yieldNow (hpassed.patient _)) _

/-- A call whose frame does not fit overflows the stack. -/
theorem exec_call_overflow (hfull : state.stack.size ≤ sp + 1) (value : Slot) :
    ((prepareCall module 0 ⟨⟨0, start⟩, sp, 1, value :: operands⟩ >>= Next.run module fuel after).exec module
      state).1 = .error (.trap .stackOverflow) := by
  rw [exec_prepareCall hplaced, exec_bind_error (exec_setSlot_of_le hfull value)]

end Parts

/-! ## Calls -/

/-- Running the function from a slot on, in a stack of so many slots, leaves a result in place of its argument. -/
def Computes (module : Module) (size fuel sp : Nat) (argument result : Slot) : Prop :=
  ∀ ⦃state : ExecState⦄ (after : Exec Unit), Placed module state → state.stack.size = size →
    state.stack[sp]? = some argument →
    ∃ state', Confined sp state state' ∧ state'.stack[sp]? = some result ∧
      (run module fuel { pc := ⟨0, 0⟩, sp } after).exec module state = after.exec module state'

/-- Running the function from a slot on, in a stack of so many slots, overflows the stack. -/
def Overflows (module : Module) (size fuel sp : Nat) (argument : Slot) : Prop :=
  ∀ ⦃state : ExecState⦄ (after : Exec Unit), Placed module state → state.stack.size = size →
    state.stack[sp]? = some argument →
    ((run module fuel { pc := ⟨0, 0⟩, sp } after).exec module state).1 = .error (.trap .stackOverflow)

section Calls

variable {size fuel start : Nat} {less argument result : Slot}

/-- Where a call of the function with a lesser argument stands, the result is pushed. -/
theorem Computes.recurse (hcallee : Computes module size fuel (sp + 1) (argument - less) result) (after : Exec Unit)
    (operands : List Slot) (hplaced : Placed module state) (hsize : state.stack.size = size) (hroom : sp + 1 < size)
    (hslot : state.stack[sp]? = some argument)
    (hcode : state.area.code.Holds ⟨0, start⟩ ((Fibonacci.recurse less .done).code start)) :
    ∃ state', Confined (sp + 1) state state' ∧
      (run module (fuel + 4) ⟨⟨0, start⟩, sp, 1, operands⟩ after).exec module state =
        (run module fuel ⟨⟨0, start + 7⟩, sp, 1, result :: operands⟩ after).exec module state' := by
  obtain ⟨called, hconfined, hpassed, hcall⟩ := exec_call hplaced (hsize ▸ hroom) (argument - less)
  obtain ⟨returned, hconfined', hresult, hreturn⟩ :=
    hcallee _ (hplaced.of_confined hconfined) (hconfined.size.trans hsize) hpassed
  refine ⟨returned, hconfined.trans hconfined', ?_⟩
  rw [run_recurse hcode hslot, hcall, hreturn]
  exact exec_bind_ok (exec_slot hresult) _

/-- A call of the function with a lesser argument overflows the stack if the callee does. -/
theorem Overflows.recurse (hcallee : sp + 1 < size → Overflows module size fuel (sp + 1) (argument - less))
    (after : Exec Unit) (operands : List Slot) (hplaced : Placed module state) (hsize : state.stack.size = size)
    (hslot : state.stack[sp]? = some argument)
    (hcode : state.area.code.Holds ⟨0, start⟩ ((Fibonacci.recurse less .done).code start)) :
    ((run module (fuel + 4) ⟨⟨0, start⟩, sp, 1, operands⟩ after).exec module state).1 =
      .error (.trap .stackOverflow) := by
  rw [run_recurse hcode hslot]
  by_cases hroom : sp + 1 < size
  · obtain ⟨called, hconfined, hpassed, hcall⟩ := exec_call hplaced (hsize ▸ hroom) (argument - less)
    rw [hcall]
    exact hcallee hroom _ (hplaced.of_confined hconfined) (hconfined.size.trans hsize) hpassed
  · exact exec_call_overflow hplaced (hsize ▸ Nat.not_lt.1 hroom) _

theorem ofNat_sub_two (n : Nat) : UInt64.ofNat (n + 2) - 2 = .ofNat n :=
  (UInt64.ofNat_sub (Nat.le_add_left 2 n)).symm

theorem ofNat_sub_one (n : Nat) : UInt64.ofNat (n + 2) - 1 = .ofNat (n + 1) :=
  (UInt64.ofNat_sub (Nat.le_add_left 1 (n + 1))).symm

variable {n : Nat} (hn : n + 2 < 0x10000000000000000) {a b : Slot}

include hn

/-- An argument that is not less than two takes two calls. This is the first one. -/
theorem Computes.first (hfirst : Computes module size (fuel + 6) (sp + 1) (.ofNat n) a) (hroom : sp + 1 < size)
    (after : Exec Unit) (hplaced : Placed module state) (hsize : state.stack.size = size)
    (hslot : state.stack[sp]? = some (.ofNat (n + 2))) :
    ∃ state', Confined (sp + 1) state state' ∧
      (run module (fuel + 15) { pc := ⟨0, 0⟩, sp } after).exec module state =
        (run module (fuel + 6) ⟨⟨0, 21⟩, sp, 1, [a]⟩ after).exec module state' := by
  have hcode : state.area.code.Holds ⟨0, 14⟩ ((Fibonacci.recurse 2 .done).code 14) :=
    hplaced.holds.part 14 (by decide) rfl
  rw [← ofNat_sub_two] at hfirst
  obtain ⟨state', hconfined, hrun⟩ := hfirst.recurse after [] hplaced hsize hroom hslot hcode
  refine ⟨state', hconfined, ?_⟩
  rw [run_test hplaced hslot hn, if_neg (Nat.not_lt.2 (Nat.le_add_left 2 n))]
  exact hrun

/-- The sum of the results of the two calls is the result. -/
theorem Computes.sum (hroom : sp + 1 < size) (hfirst : Computes module size (fuel + 6) (sp + 1) (.ofNat n) a)
    (hsecond : Computes module size (fuel + 2) (sp + 1) (.ofNat (n + 1)) b) :
    Computes module size (fuel + 15) sp (.ofNat (n + 2)) (a + b) := by
  intro state after hplaced hsize hslot
  obtain ⟨state₁, hconfined₁, hrun₁⟩ := hfirst.first hn hroom after hplaced hsize hslot
  have hplaced₁ := hplaced.of_confined hconfined₁
  have hslot₁ := (hconfined₁.below sp (Nat.lt_succ_self sp)).trans hslot
  rw [← ofNat_sub_one] at hsecond
  obtain ⟨state₂, hconfined₂, hrun₂⟩ :=
    hsecond.recurse after [a] hplaced₁ (hconfined₁.size.trans hsize) hroom hslot₁
      (hplaced₁.holds.part 21 (by decide) rfl)
  have hconfined := (hconfined₁.trans hconfined₂).of_succ
  have hroom₂ : sp < state₂.stack.size := by
    rw [hconfined.size, hsize]
    omega
  obtain ⟨state₃, hconfined₃, hresult, hrun₃⟩ := run_sum (hplaced.of_confined hconfined) after hroom₂ a b
  exact ⟨state₃, hconfined.trans hconfined₃, hresult, hrun₁.trans (hrun₂.trans hrun₃)⟩

/-- The stack overflows if it does in the first call. -/
theorem Overflows.of_first (hfirst : sp + 1 < size → Overflows module size (fuel + 6) (sp + 1) (.ofNat n)) :
    Overflows module size (fuel + 15) sp (.ofNat (n + 2)) := by
  intro state after hplaced hsize hslot
  have hcode : state.area.code.Holds ⟨0, 14⟩ ((Fibonacci.recurse 2 .done).code 14) :=
    hplaced.holds.part 14 (by decide) rfl
  rw [← ofNat_sub_two] at hfirst
  rw [run_test hplaced hslot hn, if_neg (Nat.not_lt.2 (Nat.le_add_left 2 n))]
  exact Overflows.recurse hfirst after [] hplaced hsize hslot hcode

/-- The stack overflows if it does in the second call. -/
theorem Overflows.of_second (hroom : sp + 1 < size) (hfirst : Computes module size (fuel + 6) (sp + 1) (.ofNat n) a)
    (hsecond : Overflows module size (fuel + 2) (sp + 1) (.ofNat (n + 1))) :
    Overflows module size (fuel + 15) sp (.ofNat (n + 2)) := by
  intro state after hplaced hsize hslot
  obtain ⟨state₁, hconfined₁, hrun₁⟩ := hfirst.first hn hroom after hplaced hsize hslot
  have hplaced₁ := hplaced.of_confined hconfined₁
  have hslot₁ := (hconfined₁.below sp (Nat.lt_succ_self sp)).trans hslot
  rw [← ofNat_sub_one] at hsecond
  rw [hrun₁]
  exact Overflows.recurse (fun _ => hsecond) after [a] hplaced₁ (hconfined₁.size.trans hsize) hslot₁
    (hplaced₁.holds.part 21 (by decide) rfl)

end Calls

/-! ## Fibonacci numbers -/

/-- With `n` slots, and one at least, the function computes the Fibonacci number of `n`, with 15 operations for each
call. -/
theorem computes_fib {size : Nat} (n : Nat) (hn : n < 0x10000000000000000) {fuel : Nat} (hfuel : 16 * max n 1 ≤ fuel)
    (hroom : sp + max n 1 ≤ size) : Computes module size fuel sp (.ofNat n) (.ofNat (Nat.fib n)) := by
  induction n using Nat.strong_induction_on generalizing fuel sp with
  | h n ih =>
    by_cases hsmall : n < 2
    · intro state after hplaced hsize hslot
      have hfib : Nat.fib n = n := by
        obtain rfl | rfl : n = 0 ∨ n = 1 := by omega
        · rfl
        · rfl
      obtain ⟨fuel, rfl⟩ : ∃ left, fuel = left + 8 := ⟨fuel - 8, by omega⟩
      rw [run_test hplaced hslot hn, if_pos hsmall, hfib]
      exact run_small hplaced hslot
    · obtain ⟨n, rfl⟩ : ∃ less, n = less + 2 := ⟨n - 2, by omega⟩
      obtain ⟨fuel, rfl⟩ : ∃ left, fuel = left + 15 := ⟨fuel - 15, by omega⟩
      rw [Nat.fib_add_two, UInt64.ofNat_add (Nat.fib n)]
      refine Computes.sum hn (by omega) ?_ ?_
      · exact ih n (by omega) (by omega) (by omega) (by omega)
      · exact ih (n + 1) (by omega) (by omega) (by omega) (by omega)

/-- With fewer slots the stack overflows. -/
theorem overflows_fib {size : Nat} (room : Nat) (hroom : 0 < room) (hsize : sp + room = size) (n : Nat)
    (hn : n < 0x10000000000000000) (hlt : room < n) {fuel : Nat} (hfuel : 16 * room ≤ fuel) :
    Overflows module size fuel sp (.ofNat n) := by
  induction room generalizing n sp fuel with
  | zero => omega
  | succ room ih =>
    obtain ⟨n, rfl⟩ : ∃ less, n = less + 2 := ⟨n - 2, by omega⟩
    obtain ⟨fuel, rfl⟩ : ∃ left, fuel = left + 15 := ⟨fuel - 15, by omega⟩
    -- The first call has the lesser argument, so it may still have the slots that it needs.
    by_cases hover : room = 0 ∨ room < n
    · refine Overflows.of_first hn fun hfits => ?_
      exact ih (by omega) (by omega) n (by omega) (by omega) (by omega)
    · have hfirst : Computes module size (fuel + 6) (sp + 1) (.ofNat n) (.ofNat (Nat.fib n)) :=
        computes_fib n (by omega) (by omega) (by omega)
      refine Overflows.of_second hn (by omega) hfirst ?_
      exact ih (by omega) (by omega) (n + 1) (by omega) (by omega) (by omega)

end Fibonacci

end WasmEngine

import WasmEngine.Proofs.Allocation.Stock
import WasmEngine.Proofs.Threaded.Constants

/-!
# The values of constant expressions in threaded code

A constant expression is run on a scratch machine whose only page is blank, so its code stands there alone. Its value
is the one that was pushed last, and depends on the globals that are read and on nothing else.
-/

namespace WasmEngine

open Threaded

/-- The globals that the constant expression at the front of some bytes reads, if it can be decoded to its end. -/
def ConstExpr.globalsRead (expr : List UInt8) : List UInt32 :=
  if (Instruction.ofConstExpr expr).2.isOk then (Instruction.ofConstExpr expr).1.filterMap Instruction.global? else []

/-- The content of a slot as a value of a type. -/
def ValType.narrow (type : ValType) (slot : Slot) : Slot :=
  if type.isWide then slot else slot.toUInt32.toUInt64

theorem ValType.narrow_i32 (value : UInt32) : ValType.narrow .i32 value.toUInt64 = value.toUInt64 := by
  simp [narrow, isWide]

/-- A page that an empty store takes hold of has no code. -/
theorem CodeArea.text_of_acquire_empty {env : Environment} (htidy : env.pool.Tidy) {minLines id : Nat} {area : CodeArea}
    (h : acquire minLines ⟨env, {}⟩ = .ok id area) : area.code.text id = [] := by
  obtain ⟨env', page, rfl, rfl, hblank, -⟩ := adopted_of_acquire htidy h
  change (CodeStore.hold _ _).text 0 = []
  rw [(CodeStore.sameCode_hold _ _).text_eq]
  exact congrArg Array.toList hblank.lines

/-- A constant expression that compiles onto a blank page stands at its entry. -/
theorem CodeArea.holds_of_compileConstExpr {area : CodeArea} {page length : Nat} {expr : List UInt8}
    {state : CompileState} (hlt : page < area.code.pages.size) (hblank : area.code.text page = [])
    (h : area.compile page (compileConstExpr expr) = (.ok length, state)) :
    (∃ reader, (Instruction.ofConstExpr expr).2 = .ok reader ∧ length = reader.position) ∧
      state.area.env = area.env ∧
      state.area.code.Holds state.entry (constantCode (Instruction.ofConstExpr expr).1) := by
  obtain ⟨found, hstart⟩ := CompileState.start_eq_withLines hlt
  change (compileConstExpr expr).exec (.start area page) = (.ok length, state) at h
  rw [hstart] at h
  obtain ⟨reader, hending, hlength, rfl⟩ := compileConstExpr_eq_ok hlt h
  refine ⟨⟨reader, hending, hlength⟩, rfl, ?_⟩
  have hentry : (CompileState.start area page).entry = ⟨page, 0⟩ := by
    change area.code.pc page = _
    rw [CodeStore.pc_eq, hblank]
    rfl
  change CodeStore.Holds _ (CompileState.start area page).entry _
  rw [hentry]
  refine ⟨[], [], ?_, rfl⟩
  rw [CompileState.text_withLines hlt]
  simp [CompileState.start, hblank]

/-- The threaded executor runs the code of a constant expression. -/
theorem Threaded.exec_executor {module : Module} {purpose : CallPurpose} {instructions : List Instruction}
    (hconstant : ∀ item ∈ instructions, item.IsConstant) {state : ExecState} {fuel : Nat} {entry : CodeRef}
    (hcode : state.area.code.Holds entry (constantCode instructions)) :
    ((executor fuel).run module purpose entry).exec module state =
      (Exec.check (pushAll module fuel instructions []) >>= leave 0).exec module state := by
  refine (exec_constants hconstant hcode).trans ?_
  simp

/-- Running the code of a constant expression on the threaded executor. -/
theorem ExecState.execute_constants {state : ExecState} {fuel : Nat} {entry : CodeRef} {expr : List UInt8}
    (hexecutor : state.area.env.host.executor = Threaded.executor fuel)
    (hcode : state.area.code.Holds entry (constantCode (Instruction.ofConstExpr expr).1)) (module : Module) :
    state.execute module .constExpr entry =
      (Exec.check (pushAll module fuel (Instruction.ofConstExpr expr).1 []) >>= leave 0).exec module state := by
  unfold execute
  rw [hexecutor]
  exact exec_executor (fun _ => Instruction.isConstant_of_mem) hcode

/-- Leaving a result has nothing to do with the module. -/
theorem Threaded.exec_check_leave (result : Except Error (List Slot)) (module module' : Module) (state : ExecState) :
    (Exec.check result >>= leave 0).exec module state = (Exec.check result >>= leave 0).exec module' state := by
  cases result with
  | error error => rfl
  | ok operands =>
    cases operands with
    | nil => rfl
    | cons value operands => rfl

/-- What a call leaves in slot 0 of an empty stack is its last operand. -/
theorem Threaded.slot_of_leave {result : Except Error (List Slot)} {module : Module} {state state' : ExecState}
    {slots : Nat} {slot : Slot} (hstack : state.stack = Array.replicate slots 0)
    (h : (Exec.check result >>= leave 0).exec module state = (.ok (), state')) (hslot : state'.stack[0]? = some slot) :
    ∃ operands, result = .ok operands ∧ slot = operands.headD 0 := by
  cases result with
  | error error => cases h
  | ok operands =>
    refine ⟨operands, rfl, ?_⟩
    cases operands with
    | nil =>
      cases h
      rw [hstack, Array.getElem?_replicate] at hslot
      split at hslot
      · cases hslot
        rfl
      · cases hslot
    | cons value operands =>
      change (Exec.setSlot 0 value).exec module state = _ at h
      rcases Nat.lt_or_ge 0 state.stack.size with hlt | hle
      · rw [Exec.exec_setSlot hlt] at h
        cases h
        rw [Array.getElem?_setIfInBounds_self_of_lt hlt] at hslot
        cases hslot
        rfl
      · rw [Exec.exec_setSlot_of_le hle] at h
        cases h

theorem Machine.create_stack {slots : Nat} {env env' : Environment} {machine : Machine}
    (h : Machine.create slots env = .ok machine env') : machine.stack = Array.replicate slots 0 := by
  unfold Machine.create at h
  split at h
  · cases h
    rfl
  · cases h

/-- The host compiles to threaded code and runs it with some fuel, and code pages are where they belong. -/
structure Environment.Serves (fuel : Nat) (env : Environment) : Prop where
  compiler : env.host.compiler = Threaded.compiler
  executor : env.host.executor = Threaded.executor fuel
  sound : ∃ places, Engine.Sound ⟨env, places⟩

namespace Environment.Serves

variable {fuel : Nat} {env env' : Environment}

theorem tidy (h : env.Serves fuel) : env.pool.Tidy := by
  obtain ⟨places, hsound⟩ := h.sound
  exact hsound.tidy

theorem reaches (h : env.Serves fuel)
    (hreaches : ∀ places, Engine.Reaches ⟨env, places⟩ ⟨env', places⟩) : env'.Serves fuel := by
  obtain ⟨places, hsound⟩ := h.sound
  have hhost := (Engine.Reaches.fixed (hreaches places)).2
  exact ⟨by rw [hhost, h.compiler], by rw [hhost, h.executor], places, hsound.reaches (hreaches places)⟩

theorem samePages (h : env.Serves fuel) (hsame : env.SamePages env') : env'.Serves fuel :=
  h.reaches fun places => .single (.tend places hsame)

theorem constValue (h : env.Serves fuel) (module : Module) (expr : List UInt8) (type : ValType) :
    (stateAfter (Environment.constValue module expr type env)).Serves fuel :=
  h.reaches fun places => Environment.constValue_reaches module expr type env places

theorem grown (h : env.Serves fuel) (memory : LinearMemory) (pages : Nat) : (env.grown memory pages).Serves fuel :=
  h.samePages (.rest ..)

end Environment.Serves

namespace Machine

variable {fuel : Nat} {state : MachineState} {module module' : Module} {expr : List UInt8} {type : ValType}

/-- A constant expression is compiled without looking at the module. -/
theorem compiler_of_acquire (hserves : state.env.Serves fuel) {minLines page : Nat} {area : CodeArea}
    (h : CodeArea.acquire minLines ⟨state.env, state.machine.code⟩ = .ok page area) (module : Module) :
    area.env.host.compiler.constExpr module expr type = compileConstExpr expr := by
  have hhost : area.env.host = state.env.host := (Engine.Step.acquire [] 0 h).fixed.2
  rw [hhost, hserves.compiler]
  rfl

/-- What a compilation of the constant expression on the page of a scratch machine gives. -/
theorem compiled_of_acquire (hserves : state.env.Serves fuel) (hempty : state.machine.code = {}) {page length : Nat}
    {area : CodeArea} {after : CompileState}
    (hacquire : CodeArea.acquire state.env.config.freeLineThreshold ⟨state.env, state.machine.code⟩ = .ok page area)
    (hcompile : area.compile page (compileConstExpr expr) = (.ok length, after)) :
    (∃ reader, (Instruction.ofConstExpr expr).2 = .ok reader ∧ length = reader.position) ∧
      ∀ module, ExecState.execute module .constExpr after.entry
          { area := after.area, stack := state.machine.stack, memory := state.machine.memory } =
        (Exec.check (pushAll module fuel (Instruction.ofConstExpr expr).1 []) >>= leave 0).exec module
          { area := after.area, stack := state.machine.stack, memory := state.machine.memory } := by
  have hlt := (CodeArea.extends_of_acquire hacquire).2
  have hhost : area.env.host = state.env.host := (Engine.Step.acquire [] 0 hacquire).fixed.2
  rw [hempty] at hacquire
  have hblank := CodeArea.text_of_acquire_empty hserves.tidy hacquire
  obtain ⟨hreader, henv, hcode⟩ := CodeArea.holds_of_compileConstExpr hlt hblank hcompile
  refine ⟨hreader, fun module => ExecState.execute_constants ?_ hcode module⟩
  change after.area.env.host.executor = _
  rw [henv, hhost, hserves.executor]

theorem evaluate_congr (hserves : state.env.Serves fuel) (hempty : state.machine.code = {})
    (h : ∀ index ∈ ConstExpr.globalsRead expr, globalSlot module index = globalSlot module' index) :
    evaluate module expr type state = evaluate module' expr type state := by
  unfold evaluate
  dsimp only
  cases hacquire : CodeArea.acquire state.env.config.freeLineThreshold ⟨state.env, state.machine.code⟩ with
  | error error area => rfl
  | ok page area =>
    dsimp only
    rw [compiler_of_acquire hserves hacquire, compiler_of_acquire hserves hacquire]
    cases hcompile : area.compile page (compileConstExpr expr) with
    | mk compiled after =>
      cases compiled with
      | error error => rfl
      | ok length =>
        obtain ⟨⟨reader, hending, -⟩, hexecute⟩ := compiled_of_acquire hserves hempty hacquire hcompile
        rw [ConstExpr.globalsRead, hending] at h
        dsimp only
        rw [hexecute module, hexecute module', pushAll_congr _ h, exec_check_leave _ module module']

/-- A value is found if a page is acquired, the expression compiles and its code runs. -/
theorem evaluate_steps {value : Slot} {length : Nat} {state' : MachineState}
    (h : evaluate module expr type state = .ok (value, length) state') :
    ∃ page area after exec slot,
      CodeArea.acquire state.env.config.freeLineThreshold ⟨state.env, state.machine.code⟩ = .ok page area ∧
      area.compile page (area.env.host.compiler.constExpr module expr type) = (.ok length, after) ∧
      ExecState.execute module .constExpr after.entry
        { area := after.area, stack := state.machine.stack, memory := state.machine.memory } = (.ok (), exec) ∧
      exec.stack[0]? = some slot ∧ value = type.narrow slot := by
  unfold evaluate at h
  dsimp only at h
  cases hacquire : CodeArea.acquire state.env.config.freeLineThreshold ⟨state.env, state.machine.code⟩ with
  | error error area =>
    rw [hacquire] at h
    cases h
  | ok page area =>
    rw [hacquire] at h
    dsimp only at h
    rcases hcompile : area.compile page (area.env.host.compiler.constExpr module expr type) with ⟨compiled, after⟩
    rw [hcompile] at h
    cases compiled with
    | error error => cases h
    | ok length' =>
      dsimp only at h
      rcases hexecute : ExecState.execute module .constExpr after.entry
        { area := after.area, stack := state.machine.stack, memory := state.machine.memory } with ⟨result, exec⟩
      rw [hexecute] at h
      cases result with
      | error error => cases h
      | ok done =>
        dsimp only at h
        cases hslot : exec.stack[0]? with
        | none =>
          rw [hslot] at h
          cases h
        | some slot =>
          rw [hslot] at h
          cases h
          exact ⟨page, area, after, exec, slot, rfl, hcompile, hexecute, hslot, rfl⟩

theorem evaluate_eq_ok (hserves : state.env.Serves fuel) (hempty : state.machine.code = {}) {slots : Nat}
    (hstack : state.machine.stack = Array.replicate slots 0) {value : Slot} {length : Nat} {state' : MachineState}
    (h : evaluate module expr type state = .ok (value, length) state') :
    ∃ reader operands, (Instruction.ofConstExpr expr).2 = .ok reader ∧
      pushAll module fuel (Instruction.ofConstExpr expr).1 [] = .ok operands ∧
      value = type.narrow (operands.headD 0) ∧ length = reader.position := by
  obtain ⟨page, area, after, exec, slot, hacquire, hcompile, hexecute, hslot, rfl⟩ := evaluate_steps h
  rw [compiler_of_acquire hserves hacquire] at hcompile
  obtain ⟨⟨reader, hending, rfl⟩, hrun⟩ := compiled_of_acquire hserves hempty hacquire hcompile
  rw [hrun module] at hexecute
  obtain ⟨operands, hpush, rfl⟩ := slot_of_leave hstack hexecute hslot
  exact ⟨reader, operands, hending, hpush, rfl, rfl⟩

end Machine

namespace Environment

variable {fuel : Nat} {env : Environment} {module module' : Module} {expr : List UInt8} {type : ValType}

/-- A value that is found is the one that was pushed last. -/
theorem constValue_eq_ok (hserves : env.Serves fuel) {value : Slot} {length : Nat} {env' : Environment}
    (h : constValue module expr type env = .ok (value, length) env') :
    ∃ reader operands, (Instruction.ofConstExpr expr).2 = .ok reader ∧
      pushAll module fuel (Instruction.ofConstExpr expr).1 [] = .ok operands ∧
      value = type.narrow (operands.headD 0) ∧ length = reader.position := by
  change EStateM.bind (Machine.create env.config.constSlots) _ env = _ at h
  obtain ⟨scratch, created, hcreate, hrest⟩ := run_bind_eq_ok h
  obtain ⟨hempty, -, hsame⟩ := Machine.create_eq_ok hcreate
  have hstack := Machine.create_stack hcreate
  simp only [run_get_bind] at hrest
  cases hvalue : Machine.evaluate module expr type ⟨created, scratch⟩ with
  | error error state =>
    rw [hvalue] at hrest
    cases hrest
  | ok found state =>
    rw [hvalue] at hrest
    cases hrest
    exact Machine.evaluate_eq_ok (hserves.samePages hsame) hempty hstack hvalue

/-- Where the globals that are read are the same, values that are found are the same. -/
theorem constValue_agree {env' after after' : Environment} {found found' : Slot × Nat} (hserves : env.Serves fuel)
    (hserves' : env'.Serves fuel)
    (h : ∀ index ∈ ConstExpr.globalsRead expr, globalSlot module index = globalSlot module' index)
    (hfound : constValue module expr type env = .ok found after)
    (hfound' : constValue module' expr type env' = .ok found' after') : found = found' := by
  obtain ⟨reader, operands, hending, hpush, hvalue, hlength⟩ := constValue_eq_ok hserves hfound
  obtain ⟨reader', operands', hending', hpush', hvalue', hlength'⟩ := constValue_eq_ok hserves' hfound'
  rw [ConstExpr.globalsRead, hending] at h
  rw [pushAll_congr _ h] at hpush
  cases hending.symm.trans hending'
  cases hpush.symm.trans hpush'
  exact Prod.ext (hvalue.trans hvalue'.symm) (hlength.trans hlength'.symm)

/-- Globals that are not read do not matter, whatever the outcome. -/
theorem constValue_congr (hserves : env.Serves fuel)
    (h : ∀ index ∈ ConstExpr.globalsRead expr, globalSlot module index = globalSlot module' index) :
    constValue module expr type env = constValue module' expr type env := by
  unfold constValue
  change EStateM.bind (Machine.create env.config.constSlots) _ env =
    EStateM.bind (Machine.create env.config.constSlots) _ env
  unfold EStateM.bind
  cases hcreate : Machine.create env.config.constSlots env with
  | error error env' => rfl
  | ok scratch created =>
    obtain ⟨hempty, -, hsame⟩ := Machine.create_eq_ok hcreate
    simp only [run_get_bind]
    have hserves' : (⟨created, scratch⟩ : MachineState).env.Serves fuel := hserves.samePages hsame
    rw [Machine.evaluate_congr hserves' hempty h]

end Environment

end WasmEngine

import WasmEngine.Proofs.Machine.Scratch
import WasmEngine.Proofs.Placement.Environment
import WasmEngine.Proofs.Threaded.Initializers
import WasmEngine.Proofs.Threaded.Room

/-!
# When constant expressions have values

A constant expression that can be read and does not fail has a value, if there is a slot for it and a page for the code
(`Environment.Supplied`). The page goes back to the pool for the next one.
-/

namespace WasmEngine

open Threaded

/-! ## Compiling -/

namespace Threaded

section Room

variable {state : CompileState} {page : CodePage} (hlt : state.page < state.area.code.pages.size) {lines : List Line}

include hlt

theorem exec_forM_emitPlain {instructions : List Instruction}
    (hroom : lines.length + (instructions.flatMap Instruction.code).length ≤ page.capacity) :
    (instructions.forM emitPlain).exec (state.withLines page lines) =
      (.ok (), state.withLines page (lines ++ instructions.flatMap Instruction.code)) := by
  induction instructions generalizing lines with
  | nil =>
    rw [List.flatMap_nil, List.append_nil]
    rfl
  | cons instruction rest ih =>
    rw [List.flatMap_cons, List.length_append] at hroom
    change (emitPlain instruction >>= fun _ => rest.forM emitPlain).exec _ = _
    rw [Compile.exec_bind, exec_emitPlain hlt (by omega)]
    dsimp only
    rw [ih (by rw [List.length_append]; omega), List.append_assoc, List.flatMap_cons]

/-- A constant expression that can be read compiles where there is room for its code. -/
theorem exec_compileConstExpr {expr : List UInt8} {reader : Reader}
    (hending : (Instruction.ofConstExpr expr).2 = .ok reader)
    (hroom : lines.length + (constantCode (Instruction.ofConstExpr expr).1).length ≤ page.capacity) :
    (compileConstExpr expr).exec (state.withLines page lines) =
      (.ok reader.position, state.withLines page (lines ++ constantCode (Instruction.ofConstExpr expr).1)) := by
  rw [constantCode, List.length_append, List.length_singleton] at hroom
  have hcheck : (Compile.check (Instruction.ofConstExpr expr).2).exec
      (state.withLines page (lines ++ (Instruction.ofConstExpr expr).1.flatMap Instruction.code)) =
        (.ok reader, state.withLines page (lines ++ (Instruction.ofConstExpr expr).1.flatMap Instruction.code)) := by
    rw [hending]
    rfl
  unfold compileConstExpr
  rw [Compile.exec_bind, exec_forM_emitPlain hlt (by omega)]
  dsimp only
  rw [Compile.exec_bind, hcheck]
  dsimp only
  rw [Compile.exec_bind, exec_emitOp hlt (by rw [List.length_append]; omega), constantCode, List.append_assoc]
  rfl

end Room

end Threaded

namespace CodeArea

theorem compileConstExpr_of_room {area : CodeArea} {id : Nat} {page : CodePage} {expr : List UInt8} {reader : Reader}
    (hpage : area.code.pages[id]? = some page) (hending : (Instruction.ofConstExpr expr).2 = .ok reader)
    (hroom : (constantCode (Instruction.ofConstExpr expr).1).length ≤ page.freeLines) :
    ∃ after, area.compile id (compileConstExpr expr) = (.ok reader.position, after) := by
  obtain ⟨hlt, -⟩ := Array.getElem?_eq_some_iff.1 hpage
  have hstart : CompileState.start area id = (CompileState.start area id).withLines page page.lines.toList :=
    (CompileState.withLines_self hpage).symm
  have hpositive : 0 < (constantCode (Instruction.ofConstExpr expr).1).length := by
    rw [constantCode, List.length_append, List.length_singleton]
    omega
  have hfits : page.lines.toList.length + (constantCode (Instruction.ofConstExpr expr).1).length ≤ page.capacity := by
    unfold CodePage.freeLines at hroom
    rw [Array.length_toList]
    omega
  have hexec := @exec_compileConstExpr (.start area id) page hlt _ _ _ hending hfits
  rw [← hstart] at hexec
  exact ⟨_, hexec⟩

end CodeArea

/-! ## Evaluating -/

/-- Leaving a result succeeds if there is a slot for it. -/
theorem Threaded.exec_leave_of_pos (state : ExecState) (hslots : 0 < state.stack.size) (operands : List Slot)
    (module : Module) :
    ∃ state' slot, (Exec.check (.ok operands) >>= leave 0).exec module state = (.ok (), state') ∧
      state'.stack[0]? = some slot := by
  cases operands with
  | nil => exact ⟨state, _, rfl, Array.getElem?_eq_getElem hslots⟩
  | cons value operands =>
    refine ⟨_, value, Exec.exec_setSlot hslots value, ?_⟩
    exact Array.getElem?_setIfInBounds_self_of_lt hslots

namespace Machine

variable {state : MachineState} {module : Module} {expr : List UInt8} {type : ValType}

/-- A value is found if a page is acquired, the expression compiles and its code runs. -/
theorem evaluate_of_steps {page length : Nat} {area : CodeArea} {after : CompileState} {exec : ExecState} {slot : Slot}
    (hacquire : CodeArea.acquire state.env.config.freeLineThreshold ⟨state.env, state.machine.code⟩ = .ok page area)
    (hcompile : area.compile page (area.env.host.compiler.constExpr module expr type) = (.ok length, after))
    (hexecute : ExecState.execute module .constExpr after.entry
      { area := after.area, stack := state.machine.stack, memory := state.machine.memory } = (.ok (), exec))
    (hslot : exec.stack[0]? = some slot) :
    ∃ state', evaluate module expr type state = .ok (type.narrow slot, length) state' := by
  unfold evaluate
  dsimp only
  rw [hacquire]
  dsimp only
  rw [hcompile]
  dsimp only
  rw [hexecute]
  dsimp only
  rw [hslot]
  exact ⟨_, rfl⟩

end Machine

/-- What a constant expression takes: a stack that can be addressed, a slot for the value, and a page. -/
structure Environment.Supplied (env : Environment) : Prop where
  addressable : Heap.addressable (env.config.constSlots * slotSize) = true
  slots : 1 ≤ env.config.constSlots
  page : ∃ page env', Environment.obtainPage env.config.freeLineThreshold env = .ok page env'

namespace Environment

variable {fuel : Nat} {env env' : Environment} {module : Module} {expr : List UInt8} {type : ValType}

/-- A page with enough room in the pool can be had. -/
theorem obtainPage_of_mem {minLines : Nat} {page : CodePage} (hpage : page ∈ env.pool.batches.flatten)
    (hroom : minLines ≤ page.freeLines) : ∃ page env', obtainPage minLines env = .ok page env' := by
  unfold obtainPage
  cases htake : env.pool.take minLines with
  | some taken => exact ⟨_, _, rfl⟩
  | none => exact absurd hroom (Nat.not_le.2 (PagePool.lt_of_take_eq_none htake page hpage))

/-- Whether a page can be had depends on the configuration, the pool, the heap and the next number. -/
theorem obtainPage_congr {minLines : Nat} (hsame : env.SamePages env') (hheap : env'.heap = env.heap)
    (h : ∃ page after, obtainPage minLines env = .ok page after) :
    ∃ page after, obtainPage minLines env' = .ok page after := by
  unfold obtainPage at h ⊢
  rw [hsame.pool, hsame.config, hsame.pagesAsked, hheap]
  cases htake : env.pool.take minLines with
  | some taken => exact ⟨_, _, rfl⟩
  | none =>
    rw [htake] at h
    dsimp only at h ⊢
    rcases halloc : CodePage.allocate env.config minLines (UInt32.ofNat env.pagesAsked) env.heap with ⟨served, heap⟩
    rw [halloc] at h
    cases served with
    | some page => exact ⟨_, _, rfl⟩
    | none =>
      obtain ⟨page, after, hobtained⟩ := h
      cases hobtained

theorem Supplied.samePages (h : env.Supplied) (hsame : env.SamePages env') (hheap : env'.heap = env.heap) :
    env'.Supplied where
  addressable := by rw [hsame.config]; exact h.addressable
  slots := by rw [hsame.config]; exact h.slots
  page := by rw [hsame.config]; exact obtainPage_congr hsame hheap h.page

/-- A machine without code takes hold of the page that can be had. -/
theorem Supplied.acquire (h : env.Supplied) :
    ∃ area, CodeArea.acquire env.config.freeLineThreshold ⟨env, {}⟩ = .ok 0 area := by
  obtain ⟨page, env', hobtain⟩ := h.page
  have hopen : CodeStore.takeOpen {} env.config.freeLineThreshold = none := rfl
  unfold CodeArea.acquire
  simp only [hopen, hobtain]
  exact ⟨_, rfl⟩

end Environment

/-- A scratch machine finds the value of a constant expression that has not too much code. -/
theorem Machine.evaluate_of_room {fuel : Nat} {state : MachineState} {module : Module} {expr : List UInt8}
    {type : ValType} (hserves : state.env.Serves fuel) (hsupplied : state.env.Supplied)
    (hempty : state.machine.code = {}) (hslots : 0 < state.machine.stack.size) {reader : Reader}
    {operands : List Slot} (hending : (Instruction.ofConstExpr expr).2 = .ok reader)
    (hpush : pushAll module fuel (Instruction.ofConstExpr expr).1 [] = .ok operands)
    (hroom : (constantCode (Instruction.ofConstExpr expr).1).length ≤ state.env.config.freeLineThreshold) :
    ∃ value state', evaluate module expr type state = .ok (value, reader.position) state' := by
  obtain ⟨area, hacquire⟩ := hsupplied.acquire
  obtain ⟨env', page, -, harea, -, hfree⟩ := CodeArea.adopted_of_acquire hserves.tidy hacquire
  have hpage : area.code.pages[0]? = some { page with usage := page.usage + 1 } := by
    rw [harea]
    rfl
  obtain ⟨after, hcompile⟩ := CodeArea.compileConstExpr_of_room hpage hending (Nat.le_trans hroom hfree)
  rw [← hempty] at hacquire
  obtain ⟨-, hrun⟩ := compiled_of_acquire hserves hempty hacquire hcompile
  obtain ⟨exec, slot, hleave, hslot⟩ := exec_leave_of_pos
    { area := after.area, stack := state.machine.stack, memory := state.machine.memory } hslots operands module
  have hexecute := hrun module
  rw [hpush] at hexecute
  rw [← compiler_of_acquire hserves hacquire module] at hcompile
  obtain ⟨state', hvalue⟩ := evaluate_of_steps hacquire hcompile (hexecute.trans hleave) hslot
  exact ⟨_, state', hvalue⟩

namespace Environment

variable {fuel : Nat} {env : Environment} {module : Module} {expr : List UInt8} {type : ValType}

theorem constValue_of_evaluate {scratch : Machine} {created : Environment} {found : Slot × Nat} {state : MachineState}
    (hcreate : Machine.create env.config.constSlots env = .ok scratch created)
    (h : Machine.evaluate module expr type ⟨created, scratch⟩ = .ok found state) :
    constValue module expr type env = .ok found (state.machine.dispose state.env) := by
  unfold constValue
  rw [run_get_bind, run_bind_of_ok hcreate, run_get_bind, h]
  rfl

/-- A constant expression that can be read, does not fail and has not too much code has a value. -/
theorem constValue_of_room (hserves : env.Serves fuel) (hsupplied : env.Supplied) {reader : Reader}
    {operands : List Slot} (hending : (Instruction.ofConstExpr expr).2 = .ok reader)
    (hpush : pushAll module fuel (Instruction.ofConstExpr expr).1 [] = .ok operands)
    (hroom : (constantCode (Instruction.ofConstExpr expr).1).length ≤ env.config.freeLineThreshold) :
    ∃ env', constValue module expr type env = .ok (type.narrow (operands.headD 0), reader.position) env' := by
  obtain ⟨scratch, created, hcreate⟩ : ∃ scratch created,
      Machine.create env.config.constSlots env = .ok scratch created := by
    unfold Machine.create
    rw [if_pos hsupplied.addressable]
    exact ⟨_, _, rfl⟩
  obtain ⟨hcode, -, hsame⟩ := Machine.create_eq_ok hcreate
  have hsupplied' := hsupplied.samePages hsame (Machine.create_memory hcreate).2
  have hslots : 0 < scratch.stack.size := by
    rw [Machine.create_stack hcreate, Array.size_replicate]
    exact hsupplied.slots
  rw [← hsame.config] at hroom
  obtain ⟨value, state, hvalue⟩ := @Machine.evaluate_of_room fuel ⟨created, scratch⟩ module expr type
    (hserves.samePages hsame) hsupplied' hcode hslots _ _ hending hpush hroom
  have hconst := constValue_of_evaluate hcreate hvalue
  obtain ⟨reader', operands', -, hpush', hnarrow, -⟩ := constValue_eq_ok hserves hconst
  rw [hpush] at hpush'
  cases hpush'
  rw [hnarrow] at hconst
  exact ⟨_, hconst⟩

/-- The page of a constant expression is in the pool afterwards. -/
theorem Supplied.constValue {places : Multiset Workplace} (h : env.Supplied) (hsound : Engine.Sound ⟨env, places⟩)
    (module : Module) (expr : List UInt8) (type : ValType) :
    (stateAfter (Environment.constValue module expr type env)).Supplied := by
  have hconfig := (Engine.Reaches.fixed (constValue_reaches module expr type env places)).1
  rcases stocked_constValue module expr type hsound with hunchanged | ⟨state, hcode, hsame, hheap, hperm⟩
  · rw [hunchanged]
    exact h
  · have htidy : state.env.pool.Tidy := hsame.pool ▸ hsound.tidy
    have hkept := CodeArea.stocks_closed.evaluate_acquired module expr type state
    obtain ⟨area, hacquire⟩ := (h.samePages hsame hheap).acquire
    obtain ⟨env', page, -, rfl, hblank, hroom⟩ := CodeArea.adopted_of_acquire htidy hacquire
    unfold MachineState.area at hkept
    rw [hcode, hacquire] at hkept
    have hmem : page ∈ (CodeArea.adopt ⟨env', {}⟩ page).stock := by
      rw [CodeArea.stock_adopt, hblank.reset_eq]
      exact List.mem_append_right _ (List.mem_singleton_self _)
    have hpool := hperm.mem_iff.2 (hkept.subset hmem)
    refine ⟨by rw [hconfig]; exact h.addressable, by rw [hconfig]; exact h.slots, ?_⟩
    rw [hconfig, ← hsame.config]
    exact obtainPage_of_mem hpool hroom

/-- Nothing is missing that the constant expressions that hosts write need. -/
structure Evaluates (fuel : Nat) (env : Environment) : Prop where
  serves : env.Serves fuel
  enough : 2 ≤ fuel
  supplied : env.Supplied
  lines : 3 ≤ env.config.freeLineThreshold

/-- An initializer has its value and takes up its bytes, and the next one can be evaluated as well. -/
theorem Evaluates.constValue_bytes (h : env.Evaluates fuel) {initializer : Initializer} {slot : Slot}
    (hslot : initializer.value (module.globals[·]?) = some slot) (type : ValType) (rest : List UInt8) :
    ∃ env', Environment.constValue module (initializer.bytes ++ rest) type env =
        .ok (type.narrow slot, initializer.bytes.length) env' ∧
      env'.Evaluates fuel ∧ env.Lasts env' := by
  have hread := initializer.ofConstExpr_bytes rest
  have hpush : pushAll module fuel [initializer.instruction] [] = .ok [slot] := by
    obtain ⟨fuel, rfl⟩ := Nat.exists_eq_add_of_le' h.enough
    unfold pushAll
    rw [initializer.pushed_instruction hslot]
    rfl
  have hroom : (constantCode [initializer.instruction]).length ≤ env.config.freeLineThreshold := by
    rw [initializer.length_constantCode]
    exact h.lines
  obtain ⟨env', hvalue⟩ := @constValue_of_room fuel env module _ type h.serves h.supplied _ _
    (by rw [hread]) (by rw [hread]; exact hpush) (by rw [hread]; exact hroom)
  obtain ⟨places, hsound⟩ := h.serves.sound
  have hserves := h.serves.constValue module (initializer.bytes ++ rest) type
  have hsupplied := h.supplied.constValue hsound module (initializer.bytes ++ rest) type
  have hlasts := Engine.Reaches.lasts (constValue_reaches module (initializer.bytes ++ rest) type env places)
  rw [hvalue] at hserves hsupplied hlasts
  exact ⟨env', hvalue, ⟨hserves, h.enough, hsupplied, hlasts.config ▸ h.lines⟩, hlasts⟩

end Environment

/-! ## Heaps of the system -/

theorem LinearMemory.system_growTo (memory : LinearMemory) (pages : Nat) {heap : Heap} (h : heap.IsSystem) :
    (stateAfter (growTo pages ⟨memory, heap⟩)).heap.IsSystem := by
  obtain ⟨inUse, rfl⟩ := h
  rcases growTo_system pages memory with ⟨memory', hgrow⟩ | ⟨error, memory', hgrow⟩
  · obtain ⟨after, hafter⟩ := hgrow inUse
    rw [hafter]
    exact ⟨after, rfl⟩
  · obtain ⟨after, hafter⟩ := hgrow inUse
    rw [hafter]
    exact ⟨after, rfl⟩

/-- No answer to a compiler or an executor puts another heap into the place of one of the system. -/
theorem CodeArea.system_closed : ExecClosed (Preserves fun area : CodeArea => area.env.heap.IsSystem) where
  refl _ := id
  trans first second := second ∘ first
  acquire minLines area := (unnoticed_acquire minLines area).heap
  release _ _ := id
  emit _ := id
  patch _ := id
  note _ _ := id
  grow _ memory pages := memory.system_growTo pages
  yields _ _ := id

theorem Machine.system_dispose (machine : Machine) {env : Environment} (h : env.heap.IsSystem) :
    (machine.dispose env).heap.IsSystem := by
  obtain ⟨inUse, hheap⟩ := h
  unfold Machine.dispose
  cases machine.memory.grant with
  | none => exact ⟨inUse, hheap⟩
  | some block =>
    refine ⟨inUse - UInt64.ofNat block.len, ?_⟩
    change env.heap.free block = _
    rw [hheap]
    rfl

namespace Environment

theorem system_constValue (module : Module) (expr : List UInt8) (type : ValType) :
    Keeps (Preserves fun env : Environment => env.heap.IsSystem) (constValue module expr type) := by
  intro env hsystem
  rcases evaluated module expr type env with hsame | ⟨scratch, created, hcreate, hafter⟩
  · rw [hsame]
    exact hsystem
  · rw [hafter]
    apply Machine.system_dispose
    apply CodeArea.system_closed.evaluate module expr type ⟨created, scratch⟩
    change created.heap.IsSystem
    rw [(Machine.create_memory hcreate).2]
    exact hsystem

theorem supplied_of_system {env : Environment} (hconfig : env.config = {}) (hsystem : env.heap.IsSystem) :
    env.Supplied := by
  obtain ⟨inUse, hheap⟩ := hsystem
  refine ⟨by rw [hconfig]; decide, by rw [hconfig]; decide, ?_⟩
  rw [hconfig]
  unfold obtainPage
  cases env.pool.take _ with
  | some taken => exact ⟨_, _, rfl⟩
  | none =>
    rw [hconfig, hheap]
    exact ⟨_, _, rfl⟩

end Environment

end WasmEngine

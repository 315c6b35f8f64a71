import WasmEngine.Proofs.Heap.Payments

/-!
# Machines pay for what they take

Whatever a machine does, the heap pays for the pages of the pool, of the machine and of others, and for its linear
memory. It is enough that every answer to a compiler or an executor leaves the accounts right.
-/

namespace WasmEngine

/-! ## Writing code -/

namespace CodeArea

/-- Every answer to a compiler leaves the accounts right. -/
theorem balances_closed : CompileClosed Balances where
  refl := .refl
  trans := .trans
  acquire := acquire_balances
  release := release_balances
  emit hemit := .of_code _ (CodeStore.map_emit CodePage.bill (fun _ _ => rfl) hemit)
  patch hpatch := .of_code _ (CodeStore.map_patch CodePage.bill (fun _ _ => rfl) hpatch)
  note area _ := .of_env area.code rfl rfl

/-! ## Running code -/

/-- The heap pays for a code area and a linear memory, and for other pages and bytes. -/
def Covers (area : CodeArea) (memory : LinearMemory) (others : List CodePage) (rest : Nat) : Prop :=
  MemoryState.Covered ⟨memory, area.env.heap⟩ (area.pages ++ others) rest

variable {area area' : CodeArea} {memory : LinearMemory} {others : List CodePage} {rest : Nat}

theorem Balances.covers (hbalances : area.Balances area') (h : area.Covers memory others rest) :
    area'.Covers memory others rest :=
  ⟨h.paid, hbalances others _ h.pays, h.backing⟩

theorem Covers.event {after : MemoryState} (h : area.Covers memory others rest)
    (hevent : MemoryState.Event ⟨memory, area.env.heap⟩ after) :
    Covers { area with env := { area.env with heap := after.heap } } after.memory others rest :=
  hevent.covered h

/-- Every answer to an executor leaves the heap paying for the same. -/
theorem covers_closed (others : List CodePage) (rest : Nat) :
    ExecState.Closed fun area memory => area.Covers memory others rest where
  memory hevent h := h.event hevent
  compileFunction module function _ _ h := (balances_closed.compileFunction module function _).covers h
  yields _ _ _ h := h
  note _ _ _ h := h

end CodeArea

/-! ## Machines -/

namespace MachineState

/-- The heap pays for the pages and the linear memory of a machine, and for other pages and bytes. -/
def Covers (state : MachineState) (others : List CodePage) (rest : Nat) : Prop :=
  state.area.Covers state.machine.memory others rest

theorem Covers.of_new {env : Environment} {machine : Machine} {others : List CodePage} {rest : Nat}
    (hcode : machine.code = {}) (hmemory : machine.memory.Bare) (hbacking : machine.memory.backing = none)
    (h : env.heap.Pays (env.pool.batches.flatten ++ others) rest) : Covers ⟨env, machine⟩ others rest := by
  refine ⟨hmemory.paid, ?_, hbacking⟩
  change env.heap.Pays (env.pool.batches.flatten ++ machine.code.pages.toList ++ others) (machine.memory.size + rest)
  simpa [hcode, hmemory.2] using h

end MachineState

variable {others : List CodePage} {rest : Nat}

theorem Machine.evaluate_covers (module : Module) (expr : List UInt8) (type : ValType) {state : MachineState}
    (h : state.Covers others rest) : (stateAfter (Machine.evaluate module expr type state)).Covers others rest := by
  have hevaluated := evaluated module expr type state
  generalize stateAfter (evaluate module expr type state) = state' at hevaluated ⊢
  cases hevaluated with
  | refused hacquire => exact (CodeArea.balances_closed.of_refuse hacquire).covers h
  | failed hacquire hcompile => exact (CodeArea.balances_closed.work.compile hacquire hcompile).covers h
  | @ran page length area after result exec hacquire hcompile hexecute =>
    have hcompiled := CodeArea.balances_closed.compile area page (area.env.host.compiler.constExpr module expr type)
    rw [hcompile] at hcompiled
    have hcovered : after.area.Covers state.machine.memory others rest :=
      hcompiled.covers ((CodeArea.balances_closed.of_accept hacquire).covers h)
    have hexecuted := (CodeArea.covers_closed others rest).execute module .constExpr after.entry
      { area := after.area, stack := state.machine.stack, memory := state.machine.memory } hcovered
    rw [hexecute] at hexecuted
    exact (exec.area.release_balances after.page).covers hexecuted

/-- The pages of a machine that is disposed of go to the pool, and its linear memory goes back to the heap. -/
theorem Machine.dispose_pays {threshold : Nat} {opens fulls : List Nat} {machine : Machine} {env : Environment}
    (hlaid : machine.code.Laid threshold opens fulls []) (h : MachineState.Covers ⟨env, machine⟩ others rest) :
    (machine.dispose env).heap.Pays ((machine.dispose env).pool.batches.flatten ++ others) rest := by
  have hdrained : (machine.code.drain.map CodePage.bill).Perm (machine.code.pages.toList.map CodePage.bill) := by
    have hperm := hlaid.drain_perm.map CodePage.bill
    rwa [List.map_map] at hperm
  have hrecycled : env.heap.Pays ((env.recycle machine.code.drain).pool.batches.flatten ++ others)
      (machine.memory.size + rest) := by
    refine h.pays.of_perm_left ?_
    change ((env.pool.batches.flatten ++ machine.code.pages.toList).map CodePage.bill).Perm
      ((env.pool.add machine.code.drain).batches.flatten.map CodePage.bill)
    rw [PagePool.flatten_add, List.map_append, List.map_append]
    exact List.perm_append_comm.trans (hdrained.symm.append_right _)
  have hpaid : (machine.memory.grant.map Block.len).getD 0 = machine.memory.size := h.paid
  rw [(machine.samePages_dispose env).pool]
  unfold Machine.dispose
  cases hgrant : machine.memory.grant with
  | none =>
    rw [hgrant] at hpaid
    have hsize : machine.memory.size = 0 := hpaid.symm
    rw [hsize, Nat.zero_add] at hrecycled
    exact hrecycled
  | some block =>
    rw [hgrant] at hpaid
    rw [← hpaid] at hrecycled
    exact hrecycled.freeBlock

/-- A scratch machine leaves its pages in the pool and nothing else behind. -/
theorem Environment.constValue_pays (module : Module) (expr : List UInt8) (type : ValType) {env : Environment}
    {places : Multiset Workplace} (hsound : Engine.Sound ⟨env, places⟩) (hbacking : env.memoryBacking = none)
    (h : env.heap.Pays (env.pool.batches.flatten ++ others) rest) :
    let env' := stateAfter (Environment.constValue module expr type env)
    env'.heap.Pays (env'.pool.batches.flatten ++ others) rest := by
  rcases evaluated module expr type env with hunchanged | ⟨scratch, created, hcreate, hafter⟩
  · rw [hunchanged]
    exact h
  · obtain ⟨hcode, -, hsame⟩ := Machine.create_eq_ok hcreate
    obtain ⟨hbare, hheap⟩ := Machine.create_memory hcreate
    obtain ⟨-, -, hmemory⟩ := Machine.create_inherits hcreate
    have hstart : MachineState.Covers ⟨created, scratch⟩ others rest :=
      .of_new hcode hbare (by rw [hmemory, hbacking]) (by rwa [hheap, hsame.pool])
    have hevaluated := Machine.evaluate_covers module expr type hstart
    have hreached := Machine.evaluate_travels module expr type ⟨created, scratch⟩ [] places
    have hsound' : Engine.Sound ⟨created, ⟨scratch.code, []⟩ ::ₘ places⟩ := by
      rw [hcode]
      exact (hsound.step (.tend _ hsame)).step (.arrive _ _)
    obtain ⟨opens, fulls, hlaid⟩ := (hsound'.reaches hreached).laid _ (Multiset.mem_cons_self ..)
    rw [hafter]
    exact Machine.dispose_pays hlaid hevaluated

namespace MachineState

/-- Whatever else has code pages, an event leaves everything paid for. -/
theorem Event.covers {permit : Permit} {state state' : MachineState} (hevent : Event permit state state')
    {places : Multiset Workplace} (hsound : Engine.Sound ⟨state.env, ⟨state.machine.code, []⟩ ::ₘ places⟩)
    (hbacking : state.env.memoryBacking = none) (h : state.Covers others rest) : state'.Covers others rest := by
  cases hevent with
  | @environment env env' machine hevent =>
    refine ⟨h.paid, ?_, h.backing⟩
    have hpays := h.pays
    -- The pages of the machine are among the others for the environment.
    change env.heap.Pays (env.pool.batches.flatten ++ machine.code.pages.toList ++ others) _ at hpays
    change env'.heap.Pays (env'.pool.batches.flatten ++ machine.code.pages.toList ++ others) _
    rw [List.append_assoc] at hpays ⊢
    cases hevent with
    | constant module expr type => exact Environment.constValue_pays module expr type hsound hbacking hpays
    | tend hsame hheap => rwa [hheap, hsame.pool]
  | @tend env machine machine' hmodules hcode hmemory =>
    change CodeArea.Covers ⟨env, machine'.code⟩ machine'.memory others rest
    rw [hcode, hmemory]
    exact h
  | bound env machine pages hbounds => exact ⟨h.paid, h.pays, h.backing⟩
  | memory hevent => exact CodeArea.Covers.event h hevent
  | compile hmodule hcompile => exact ((CodeArea.balances_closed.compileFunction _ _).of_ok hcompile).covers h
  | failCompile hmodule hcompile => exact ((CodeArea.balances_closed.compileFunction _ _).of_error hcompile).covers h
  | link hfunc hlinks hinstall => exact ((CodeArea.balances_closed.install _).of_ok hinstall).covers h
  | failLink hinstall => exact ((CodeArea.balances_closed.install _).of_error hinstall).covers h
  | @run env machine index module purpose entry result after hmodule hexecute =>
    have hexecuted := (CodeArea.covers_closed others rest).execute module purpose entry
      { area := ⟨env, machine.code⟩, stack := machine.stack, memory := machine.memory } h
    rw [hexecute] at hexecuted
    exact hexecuted
  | push env machine hloads => exact h

theorem Events.covers {permit : Permit} {state state' : MachineState} (hevents : Events permit state state')
    {places : Multiset Workplace} (hsound : Engine.Sound ⟨state.env, ⟨state.machine.code, []⟩ ::ₘ places⟩)
    (hbacking : state.env.memoryBacking = none) (h : state.Covers others rest) : state'.Covers others rest := by
  induction hevents with
  | refl => exact h
  | tail hevents hevent ih =>
    have hreaches := Events.reaches hevents places
    exact hevent.covers (hsound.reaches hreaches) ((Engine.Reaches.lasts hreaches).backing.trans hbacking) ih

end MachineState

end WasmEngine

import WasmEngine.Proofs.Session.Success
import WasmEngine.Proofs.Text.Numeral
import WasmEngine.Proofs.Threaded.Fibonacci
import WasmEngine.Proofs.Threaded.Room

/-!
# A session that computes Fibonacci numbers

From the bytes of a module to the result of a call: the module of the Fibonacci function is decoded and loaded into a
new machine, the function is looked up, which compiles it, and called with a number given as text.
-/

namespace WasmEngine

namespace Fibonacci

/-- The module of the function, encoded. -/
def bytes : List UInt8 :=
  [0x00, 0x61, 0x73, 0x6d, 0x01, 0x00, 0x00, 0x00, 0x01, 0x06, 0x01, 0x60, 0x01, 0x7e, 0x01, 0x7e, 0x03, 0x02, 0x01,
    0x00, 0x07, 0x07, 0x01, 0x03, 0x66, 0x69, 0x62, 0x00, 0x00, 0x0a, 0x1e, 0x01, 0x1c, 0x00] ++ body

/-- The module of the function. -/
def module : Module where
  types := #[func.type]
  functions := #[func]

theorem isPlain_module : module.IsPlain :=
  ⟨rfl, rfl, rfl, rfl, rfl, rfl⟩

theorem decode_bytes : (Module.decode {} {} bytes).1 = .ok module :=
  eq_ok_of_toOption (by decide +kernel)

/-- An environment with the threaded backend and the default configuration, no code page yet and room for one. -/
structure Equipped (env : Environment) : Prop where
  config : env.config = {}
  host : env.host = .ofBackends .threaded .threaded none
  pool : env.pool = {}
  heap : (env.heap.allocate 0x8000).isSome

/-- The module is loaded into a machine with a stack of so many slots that has no code yet. -/
structure Loaded (slots : Nat) (state : MachineState) : Prop where
  equipped : Equipped state.env
  modules : ∃ module, state.machine.modules = #[module] ∧ module.functions = #[func]
  code : state.machine.code = {}
  size : state.machine.stack.size = slots

/-- The function has its code. -/
structure Found (slots : Nat) (state : MachineState) : Prop where
  host : state.env.host = .ofBackends .threaded .threaded none
  function : ∃ module, state.machine.modules[0]? = some module ∧
    module.functions[0]? = some { func with code := some ⟨0, 0⟩ }
  holds : state.machine.code.Holds ⟨0, 0⟩ code
  size : state.machine.stack.size = slots

variable {slots : Nat} {state : MachineState}

/-- Looking the function up compiles it. -/
theorem Loaded.find (h : Loaded slots state) :
    ∃ state', Machine.find "fib" state = .ok (0, 0) state' ∧ Found slots state' := by
  obtain ⟨module, hmodules, hfunctions⟩ := h.modules
  have hmodule : state.machine.modules[0]? = some module := by
    rw [hmodules]
    rfl
  have hfunc : module.functions[0]? = some func := by
    rw [hfunctions]
    rfl
  obtain ⟨area, hacquire, htext, hfree, hhost⟩ :=
    @CodeArea.acquire_first ⟨state.env, state.machine.code⟩ h.equipped.config h.equipped.pool h.code
      h.equipped.heap
  have hcompiler : state.env.host.compiler = Threaded.compiler := by
    rw [h.equipped.host]
    rfl
  have hcode : Threaded.functionCode func (area.code.text 0).length = some Fibonacci.code := by
    rw [htext]
    exact functionCode_func
  obtain ⟨final, hcompile, happends, henv⟩ :=
    @CodeArea.compileFunction_of_room ⟨state.env, state.machine.code⟩ _ _ _ _ _ _ hcompiler hfunc rfl rfl hacquire hcode
      (by rw [hfree]; decide) (by rw [htext]; decide)
  rw [htext] at hcompile
  have hensure := Machine.ensureCompiled_of_ok hmodule hcompile
  have hlookup : Machine.lookup? state.machine.modules "fib" state.machine.modules.size = some (0, 0) := by
    have hfind : module.findFunction "fib" = some 0 := by simp [Module.findFunction, hfunctions, func, Func.name]
    rw [hmodules]
    simp [Machine.lookup?, hfind]
  have hsome : state.machine.modules.isEmpty = false := by
    rw [hmodules]
    rfl
  have hfound : Machine.find "fib" state = .ok (0, 0)
      ⟨final.env, { state.machine with code := final.code }.storeCode 0 [(0, ⟨0, 0⟩)]⟩ := by
    refine MachineM.recording_of_ok ?_
    rw [run_get_bind]
    simp only [hsome, Bool.false_eq_true, if_false, hlookup]
    exact run_bind_of_ok hensure
  refine ⟨_, hfound, ?_, ?_, ?_, h.size⟩
  · rw [henv, hhost, h.equipped.host]
  · refine ⟨module.setCode 0 ⟨0, 0⟩, ?_, ?_⟩
    · simp [Machine.storeCode, Array.getElem?_modify, hmodule]
    · simp [Module.setCode, Module.updateFunction, Array.getElem?_modify, hfunc]
  · refine ⟨[], [], ?_, rfl⟩
    have htext' := happends 0
    rw [if_pos rfl, htext] at htext'
    rw [List.append_nil]
    exact htext'

/-- The machine with an argument in the first slot. -/
def passed (state : MachineState) (argument : Slot) : MachineState :=
  { state with
    machine := { state.machine with
      stack := (Machine.clearSlots state.machine.stack 1).setIfInBounds 0 argument } }

theorem Found.invoke_eq_run (h : Found slots state) (hslots : 0 < slots) {n : Nat} (hn : n < 0x10000000000000000) :
    Machine.invoke 0 0 [toString n] .ordinary state =
      Machine.run 0 ⟨0, 0⟩ func.type.type .ordinary (passed state (.ofNat n)) := by
  obtain ⟨module, hmodule, hfunc⟩ := h.function
  have hentry : Machine.entryPoint 0 0 state = .ok (⟨0, 0⟩, { func with code := some ⟨0, 0⟩ }) state := by
    unfold Machine.entryPoint
    rw [run_get_bind]
    simp only [hmodule, hfunc]
    rfl
  have haccept : Machine.acceptArguments { func with code := some ⟨0, 0⟩ } [toString n] = pure [toString n] := by
    unfold Machine.acceptArguments
    rw [if_neg (by decide), if_neg (by simp [func])]
  have hfits : MachineM.failIf (1 > state.machine.stack.size) (.trap .stackOverflow) = pure () := by
    unfold MachineM.failIf
    rw [if_neg (by rw [h.size]; omega)]
  have hfill : Machine.fillArguments 0 [.i64] [toString n] = MachineM.edit fun machine =>
      { machine with stack := machine.stack.setIfInBounds 0 (.ofNat n) } := by
    simp only [Machine.fillArguments, Value.ofText?_toString hn]
    rfl
  unfold Machine.invoke
  rw [run_bind_of_ok hentry]
  dsimp only
  rw [haccept, pure_bind, run_get_bind]
  change (MachineM.failIf (1 > state.machine.stack.size) (.trap .stackOverflow) >>= fun _ =>
    MachineM.edit (fun machine => { machine with stack := Machine.clearSlots machine.stack 1 }) >>= fun _ =>
      Machine.fillArguments 0 [.i64] [toString n] >>= fun _ =>
        Machine.run 0 ⟨0, 0⟩ func.type.type .ordinary) state = _
  rw [hfits, hfill]
  rfl

/-- The call gives the Fibonacci number if there are slots enough, and a stack overflow if there are not. -/
theorem Found.resultOf_call (h : Found slots state) (hslots : 0 < slots) (hbound : slots ≤ 0x100000000000000) {n : Nat}
    (hn : n < 0x10000000000000000) :
    resultOf (Machine.call 0 0 [toString n] state) =
      if n ≤ slots then .ok (some (.i64 (.ofNat (Nat.fib n)))) else .error (.trap .stackOverflow) := by
  obtain ⟨module, hmodule, hfunc⟩ := h.function
  have hsize : (passed state (.ofNat n)).machine.stack.size = slots := by
    simp only [passed, Machine.clearSlots, Array.size_setIfInBounds, Array.size_append, Array.size_replicate,
      Array.size_extract, h.size]
    omega
  have hslot : (passed state (.ofNat n)).machine.stack[0]? = some (.ofNat n) :=
    Array.getElem?_setIfInBounds_self_of_lt (by simp [Machine.clearSlots])
  have hpassed : (passed state (.ofNat n)).machine.modules[0]? = some module := hmodule
  have hhost : (passed state (.ofNat n)).toExec.area.env.host = .ofBackends .threaded .threaded none := h.host
  have hplaced : Placed module (passed state (.ofNat n)).toExec := by
    refine ⟨⟨_, hfunc⟩, ?_, h.holds, fun count => ?_⟩
    · simp [ExecState.entryOf, MachineState.toExec, Module.codeOf, hfunc]
    · rw [hhost]
      rfl
  have hexecute : (passed state (.ofNat n)).toExec.execute module .ordinary ⟨0, 0⟩ =
      (Threaded.run module Backend.ampleFuel { pc := ⟨0, 0⟩, sp := 0 } (pure ())).exec module
        (passed state (.ofNat n)).toExec := by
    unfold ExecState.execute
    rw [hhost]
    rfl
  rw [Machine.call, MachineM.resultOf_recording, h.invoke_eq_run hslots hn]
  by_cases hle : n ≤ slots
  · have hfuel : 16 * max n 1 ≤ Backend.ampleFuel := by
      unfold Backend.ampleFuel
      omega
    obtain ⟨exec, -, hresult, hrun⟩ :=
      computes_fib n hn hfuel (by omega : 0 + max n 1 ≤ slots) (pure ()) hplaced hsize hslot
    have htype : func.type.type.result = some .i64 := rfl
    rw [if_pos hle]
    exact Machine.resultOf_run hpassed (hexecute.trans hrun) htype hresult
  · have hfuel : 16 * slots ≤ Backend.ampleFuel := by
      unfold Backend.ampleFuel
      omega
    have hrun := overflows_fib slots hslots (Nat.zero_add slots) n hn (Nat.not_le.1 hle) hfuel (pure ()) hplaced hsize
      hslot
    rw [if_neg hle]
    exact Machine.resultOf_run_error hpassed ((congrArg Prod.fst hexecute).trans hrun)

end Fibonacci

namespace Session

/-- The program is decoded in a session that just began. -/
theorem decode_fib (backing : Option Nat) (heap : Heap) (hheap : (heap.allocate 0x8000).isSome) (slot : String) :
    ∃ decoded : Session,
      (startWithin backing {} (.ofBackends .threaded .threaded none) heap).decode slot Fibonacci.bytes =
        (.ok (), decoded) ∧
      decoded.machines = {} ∧ decoded.slots.get? slot = some Fibonacci.module ∧ decoded.env.machinesMade = 0 ∧
      Fibonacci.Equipped decoded.env := by
  obtain ⟨registry, hdecode⟩ : ∃ registry, Module.decode {} {} Fibonacci.bytes = (.ok Fibonacci.module, registry) :=
    ⟨_, Prod.ext Fibonacci.decode_bytes rfl⟩
  simp only [decode, startWithin, hdecode]
  exact ⟨_, rfl, rfl, Table.get?_put .., rfl, rfl, rfl, rfl, hheap⟩

/-- On any stack, with the threaded backend, the default configuration and a heap that has room for a code page, the
Fibonacci function is decoded, loaded, found and called: with the text of a number it gives the Fibonacci number, modulo
`2 ^ 64` and as a signed number, if the number is at most that of the slots, and else a stack overflow. -/
theorem fib_called (backing : Option Nat) (heap : Heap) (hheap : (heap.allocate 0x8000).isSome)
    (machine slot : String) (stackBytes : Nat) (hslots : 1 ≤ stackBytes / slotSize)
    (haddr : Heap.addressable (stackBytes / slotSize * slotSize) = true) :
    ∃ decoded created loaded found : Session,
      (startWithin backing {} (.ofBackends .threaded .threaded none) heap).perform (.decode slot Fibonacci.bytes) =
        (.ok (), decoded) ∧
      decoded.perform (.create machine stackBytes) = (.ok (⟨0⟩, stackBytes / slotSize), created) ∧
      created.perform (.load machine slot) = (some (.ok 0), loaded) ∧
      loaded.perform (.find machine "fib") = (some (.ok (0, 0)), found) ∧
      ∀ n < 0x10000000000000000, (found.perform (.call machine 0 0 [toString n])).1 =
        some (if n ≤ stackBytes / slotSize then .ok (some (.i64 (.ofNat (Nat.fib n))))
          else .error (.trap .stackOverflow)) := by
  obtain ⟨decoded, hdecode, hmachines, hslot, hmade, hequipped⟩ := decode_fib backing heap hheap slot
  obtain ⟨fresh, hcreate, hmodules, hcode, hsize⟩ :=
    @create_of_addressable decoded machine (by rw [hmachines]; rfl) stackBytes haddr
  have hcreated : (decoded.machines.put machine fresh).get? machine = some fresh := Table.get?_put ..
  obtain ⟨memory, hload⟩ := @load_of_isPlain { decoded with
    env := { decoded.env with machinesMade := decoded.env.machinesMade + 1 }
    machines := decoded.machines.put machine fresh } machine fresh hcreated slot Fibonacci.module hslot rfl
      Fibonacci.isPlain_module
  have hloaded : Fibonacci.Loaded (stackBytes / slotSize)
      ⟨{ decoded.env with machinesMade := decoded.env.machinesMade + 1 }, { fresh with
        memory, modules := fresh.modules.push { Fibonacci.module with owner := some fresh.id } }⟩ := by
    refine ⟨⟨hequipped.config, hequipped.host, hequipped.pool, hequipped.heap⟩, ?_, hcode, hsize⟩
    rw [hmodules]
    exact ⟨_, rfl, rfl⟩
  obtain ⟨state, hfind, hfound⟩ := hloaded.find
  have hid : (⟨UInt32.ofNat decoded.env.machinesMade⟩ : MachineId) = ⟨0⟩ := by
    rw [hmade]
    rfl
  have hindex : fresh.modules.size = 0 := by
    rw [hmodules]
    rfl
  rw [hid] at hcreate
  rw [hindex] at hload
  refine ⟨decoded, _, _, _, hdecode, hcreate, hload, onMachine_of_ok (Table.get?_put ..) hfind, fun n hn => ?_⟩
  refine (outcome_onMachine (Table.get?_put ..)).trans (congrArg some ?_)
  have hbound : stackBytes / slotSize ≤ 0x100000000000000 := by
    have hbytes : stackBytes / slotSize * slotSize ≤ 0x800000000000 := of_decide_eq_true haddr
    unfold slotSize at *
    omega
  exact hfound.resultOf_call hslots hbound hn

/-- On three slots, and with a heap that has room for one code page and nothing else. -/
theorem fib_called_three :
    ((Heap.arena (.ofCapacity 0x8000)).allocate 0x8000).isSome ∧ 1 ≤ 24 / slotSize ∧
      Heap.addressable (24 / slotSize * slotSize) = true ∧
      ∃ decoded created loaded found : Session,
        (startWithin none {} (.ofBackends .threaded .threaded none) (.arena (.ofCapacity 0x8000))).perform
          (.decode "module" Fibonacci.bytes) = (.ok (), decoded) ∧
        decoded.perform (.create "machine" 24) = (.ok (⟨0⟩, 24 / slotSize), created) ∧
        created.perform (.load "machine" "module") = (some (.ok 0), loaded) ∧
        loaded.perform (.find "machine" "fib") = (some (.ok (0, 0)), found) ∧
        (found.perform (.call "machine" 0 0 [toString 3])).1 = some (.ok (some (.i64 2))) ∧
        (found.perform (.call "machine" 0 0 [toString 4])).1 = some (.error (.trap .stackOverflow)) := by
  have hheap : ((Heap.arena (.ofCapacity 0x8000)).allocate 0x8000).isSome := by decide
  obtain ⟨decoded, created, loaded, found, hdecode, hcreate, hload, hfind, hcall⟩ :=
    fib_called none (.arena (.ofCapacity 0x8000)) hheap "machine" "module" 24 (by decide) (by decide)
  have hthree := hcall 3 (by decide)
  have hfour := hcall 4 (by decide)
  rw [if_pos (by decide), show Nat.fib 3 = 2 from rfl] at hthree
  rw [if_neg (by decide)] at hfour
  exact ⟨hheap, by decide, by decide, decoded, created, loaded, found, hdecode, hcreate, hload, hfind, hthree, hfour⟩

end Session

end WasmEngine

import WasmEngine.Proofs.Placement.Sessions
import WasmEngine.Proofs.Threaded.Independence
import WasmEngine.Proofs.Threaded.Room

/-!
# The threaded compiler is correct

`Deployment` is a function that was compiled behind whatever code was there, with a stack and a memory to run it on.
Running it is evaluating its body. What is compiled in a session is a deployment (`Session.exists_deployment`).
-/

namespace WasmEngine

namespace Threaded

variable {module : Module} {imports : Nat → Option HostLink} {area : CodeArea} {stack : Array Slot}
  {memory : LinearMemory}

/-- A module is ready to run before any of its functions is compiled on the way. -/
theorem Ready.of_stands (hcompiler : area.env.host.compiler = Threaded.compiler)
    (h : ∀ function func, module.functions[function]? = some func →
      Stands (imports function) area.code func func.code) : Ready module imports { area, stack, memory } := by
  refine ⟨hcompiler, fun function entry hentry => ?_, fun function func hfunc => ?_⟩
  · change module.codeOf function = some entry at hentry
    unfold Module.codeOf at hentry
    split at hentry
    · cases hentry
    · rename_i func hfunc
      exact ⟨func, hfunc⟩
  · change Stands (imports function) area.code func (module.codeOf function)
    simp only [Module.codeOf, hfunc]
    exact h function func hfunc

/-- A module without imports is ready to run before any of its functions is compiled. -/
theorem Ready.of_uncompiled (hcompiler : area.env.host.compiler = Threaded.compiler)
    (h : ∀ (function : Nat) (func : Func), module.functions[function]? = some func →
      func.isImport = false ∧ func.code = none) :
    Ready module (fun _ => none) { area, stack, memory } := by
  refine .of_stands hcompiler fun function func hfunc => ?_
  obtain ⟨himport, hcode⟩ := h function func hfunc
  rw [hcode]
  exact .uncompiled himport

/-- What was compiled during a run may be stored in the module. -/
theorem Ready.store {entries : List (Nat × CodeRef)} (h : Ready module imports ⟨area, stack, memory, entries⟩) :
    Ready (entries.foldr (fun (function, entry) found => found.setCode function entry) module) imports
      { area, stack, memory } := by
  refine .of_stands h.compiler fun function func hfunc => ?_
  rw [Module.getElem?_storeCode] at hfunc
  obtain ⟨func, hfound, rfl⟩ := Option.map_eq_some_iff.1 hfunc
  have hstands := h.stands function func hfound
  simp only [ExecState.entryOf, Module.codeOf, hfound] at hstands
  exact hstands.setCode _

end Threaded

/-! ## Sessions are ready to run code -/

theorem Func.Emits.stands {func : Func} {entry : CodeRef} {lines : List Line} (h : func.Emits entry.line lines)
    {code : CodeStore} (hholds : code.Holds entry lines) : ∃ link, Threaded.Stands link code func (some entry) := by
  cases h with
  | linked himport link => exact ⟨some link, .linked himport rfl hholds⟩
  | compiled himport hlines => exact ⟨none, .compiled himport hlines hholds⟩

/-- Where the code of a machine is in place, each of its modules is ready to run, with imports as they are linked. -/
theorem Placement.Placed.ready {machine : Machine} {region : Nat → Nat → List Line}
    (h : machine.placement.Placed region) {index : Nat} {module : Module}
    (hmodule : machine.modules[index]? = some module) {env : Environment}
    (hcompiler : env.host.compiler = Threaded.compiler) :
    ∃ imports, ∀ stack memory, Threaded.Ready module imports { area := ⟨env, machine.code⟩, stack, memory } := by
  have hstands (function : Nat) : ∃ link, ∀ func, module.functions[function]? = some func →
      Threaded.Stands link machine.code func func.code := by
    cases hfunc : module.functions[function]? with
    | none => exact ⟨none, nofun⟩
    | some func =>
      have hfound : machine.placement.functions index function = some func := by
        simp [Machine.placement, Machine.func?, hmodule, hfunc]
      suffices hlink : ∃ link, Threaded.Stands link machine.code func func.code by
        obtain ⟨link, hlink⟩ := hlink
        exact ⟨link, fun _ heq => by cases heq; exact hlink⟩
      cases hcode : func.code with
      | some entry =>
        exact (h.emitted index function func entry hfound hcode).stands
          (h.held index function entry (entryOf_eq_some.2 ⟨func, hfound, hcode⟩))
      | none =>
        cases himport : func.isImport with
        | true => exact ⟨none, .unlinked himport rfl⟩
        | false => exact ⟨none, .uncompiled himport⟩
  choose imports himports using hstands
  exact ⟨imports, fun _ _ => .of_stands hcompiler himports⟩

/-- In every session with the threaded compiler, every module of a machine is ready to run. -/
theorem Session.exists_ready (backing : Option Nat) (config : Config) {host : Host} (heap : Heap)
    (hcompiler : host.compiler = Threaded.compiler) (actions : List Action) {name : String} {machine : Machine}
    (hmachine : ((startWithin backing config host heap).performAll actions).machines.get? name = some machine)
    (haddr : machine.code.Addressable) {index : Nat} {module : Module}
    (hmodule : machine.modules[index]? = some module) :
    ∃ imports, ∀ stack memory, Threaded.Ready module imports
      { area := ⟨((startWithin backing config host heap).performAll actions).env, machine.code⟩, stack, memory } := by
  have hhost : ((startWithin backing config host heap).performAll actions).env.host = host :=
    (Engine.Reaches.fixed (performAll_reaches _ actions)).2
  have horderly := (orderly_startWithin backing config host heap).performAll (.inl hcompiler) actions
  obtain ⟨region, hplaced⟩ := (horderly.machines name machine hmachine).placed haddr
  exact hplaced.ready hmodule (by rw [hhost, hcompiler])

namespace Threaded

/-! ## Deployments -/

/-- A defined function that was compiled onto whatever page there was, and a stack and a memory to run it on. -/
structure Deployment (imports : Nat → Option HostLink) (function : Nat) where
  /-- The module before its function was compiled. -/
  module : Module
  func : Func
  /-- The code before. -/
  before : CodeArea
  entry : CodeRef
  /-- The code that the function runs in. -/
  area : CodeArea
  stack : Array Slot
  memory : LinearMemory
  ready : Ready module imports { area := before, stack, memory }
  found : module.functions[function]? = some func
  defined : func.isImport = false
  fresh : func.code = none
  compiled : CodeArea.compileFunction module function before = .ok entry area

namespace Deployment

variable {imports : Nat → Option HostLink} {function : Nat}

/-- The module with the entry of the function. -/
def stored (deployment : Deployment imports function) : Module :=
  deployment.module.setCode function deployment.entry

def start (deployment : Deployment imports function) : ExecState :=
  { area := deployment.area, stack := deployment.stack, memory := deployment.memory }

/-- Runs the code of the function with its frame from a slot on. -/
def run (deployment : Deployment imports function) (fuel sp : Nat) : Except Error Unit × ExecState :=
  (Threaded.run deployment.stored fuel { pc := deployment.entry, sp } (pure ())).exec deployment.stored deployment.start

/-- Evaluates the body of the function. -/
def eval (deployment : Deployment imports function) (depth sp : Nat) : Except Error Unit × ExecState :=
  (evalFunction deployment.module.source imports depth deployment.func sp).exec deployment.stored deployment.start

theorem unnoticed (deployment : Deployment imports function) :
    deployment.before.env.Unnoticed deployment.area.env :=
  (CodeArea.unnoticed_closed.compileFunction deployment.module function).of_ok deployment.compiled

/-- A function that was compiled has its code in place. -/
theorem ready_start (deployment : Deployment imports function) (haddr : deployment.area.code.Addressable) :
    Ready deployment.stored imports deployment.start ∧
      ∃ lines, functionCode deployment.func deployment.entry.line = some lines ∧
        deployment.area.code.Holds deployment.entry lines := by
  obtain ⟨func, hfunc, hcase⟩ := CodeArea.compileFunction_ok deployment.ready.standard deployment.compiled
  cases deployment.found.symm.trans hfunc
  rcases hcase with ⟨hcode, -⟩ | ⟨-, -, -, hgains⟩
  · cases deployment.fresh.symm.trans hcode
  · obtain ⟨lines, hlines, hgains⟩ := hgains haddr
    have hready := deployment.ready.enter deployment.unnoticed.host deployment.found deployment.defined hlines hgains
    exact ⟨hready.store, lines, hlines, hgains.holds⟩

variable {deployment : Deployment imports function} {fuel depth sp : Nat}

/-- Lines that have numbers at the end of a run have numbers at its start. -/
theorem addressable_start (hsettled : Settled (deployment.run fuel sp)) : deployment.area.code.Addressable := by
  have hstandard : deployment.start.area.env.host.compiler.Standard := by
    change deployment.area.env.host.compiler.Standard
    rw [deployment.unnoticed.host]
    exact deployment.ready.standard
  have hrun : (Threaded.run deployment.stored fuel { pc := deployment.entry, sp } (pure ())).exec deployment.stored
      deployment.start = ((deployment.run fuel sp).1, (deployment.run fuel sp).2) := rfl
  exact hsettled.addressable.of_grows (exec_steps hstandard hrun).2.grows

/-- A run that settles is what the evaluation comes to. -/
theorem eval_eq_run (hdepth : fuel ≤ depth) (hsettled : Settled (deployment.run fuel sp)) :
    deployment.eval depth sp = deployment.run fuel sp := by
  obtain ⟨hready, lines, hlines, hholds⟩ := deployment.ready_start (addressable_start hsettled)
  have hrun := agrees hdepth hready hlines hholds hsettled rfl
  rw [bind_pure_unit, evalFunction_source, stored, Module.source_setCode] at hrun
  exact hrun

/-- Two engines with system heaps have the same to offer if they had so before the function was compiled. -/
theorem alike_start {other : Deployment imports function} (hstack : deployment.stack = other.stack)
    (hmemory : deployment.memory = other.memory) (hhost : deployment.before.env.host = other.before.env.host)
    (hyields : deployment.before.env.yields = other.before.env.yields)
    (hsystem : deployment.before.env.heap.IsSystem) (hsystem' : other.before.env.heap.IsSystem) :
    Alike deployment.stored other.stored deployment.start other.start where
  stack := hstack
  memory := hmemory
  host := deployment.unnoticed.host.trans (hhost.trans other.unnoticed.host.symm)
  yields := deployment.unnoticed.yields.trans (hyields.trans other.unnoticed.yields.symm)
  supply := .inl ⟨deployment.unnoticed.heap hsystem, other.unnoticed.heap hsystem'⟩

/-- Evaluating does the same in deployments that are alike. -/
theorem eval_alike {other : Deployment imports function} (hsource : other.module.source = deployment.module.source)
    (halike : Alike deployment.stored other.stored deployment.start other.start)
    (hready : Ready deployment.stored imports deployment.start) (hready' : Ready other.stored imports other.start)
    (haddr : (deployment.eval depth sp).2.area.code.Addressable)
    (haddr' : (other.eval depth sp).2.area.code.Addressable) (hroomy : Roomy (deployment.eval depth sp).1)
    (hroomy' : Roomy (other.eval depth sp).1) :
    (deployment.eval depth sp).1 = (other.eval depth sp).1 ∧
      Alike deployment.stored other.stored (deployment.eval depth sp).2 (other.eval depth sp).2 := by
  have hstored : deployment.stored.source = other.stored.source := by
    rw [stored, stored, Module.source_setCode, Module.source_setCode, hsource]
  have hfunc : some other.func.source = some deployment.func.source := by
    have hother := other.module.getElem?_source function
    have hself := deployment.module.getElem?_source function
    rw [other.found, hsource] at hother
    rw [deployment.found] at hself
    exact hother.symm.trans hself
  have hprogram : evalFunction other.module.source imports depth other.func sp =
      evalFunction deployment.module.source imports depth deployment.func sp := by
    rw [hsource, ← evalFunction_source _ _ _ other.func, Option.some.inj hfunc, evalFunction_source]
  have hself : (evalFunction deployment.module.source imports depth deployment.func sp).exec deployment.stored
      deployment.start = ((deployment.eval depth sp).1, (deployment.eval depth sp).2) := rfl
  have hother : (evalFunction deployment.module.source imports depth deployment.func sp).exec other.stored
      other.start = ((other.eval depth sp).1, (other.eval depth sp).2) := by
    rw [← hprogram]
    rfl
  exact uniform_evalFunction hstored deployment.module.source depth deployment.func sp halike hready hready' hself
    hother haddr haddr' hroomy hroomy'

/-- A run that ends while all lines have numbers does what evaluating the body does: it has the same result and leaves
the same state, slots and memory among it. If the function was compiled elsewhere, onto another page or behind other
code, in an engine that has the same to offer, such a run there has the same result and leaves the same slots and the
same memory, as long as there is room for the code of callees. -/
theorem run_eq_eval (deployment : Deployment imports function) (fuel sp : Nat)
    (hsettled : Settled (deployment.run fuel sp)) :
    (∀ depth, fuel ≤ depth → deployment.eval depth sp = deployment.run fuel sp) ∧
      ∀ (other : Deployment imports function) (fuel' : Nat), other.module.source = deployment.module.source →
        Alike deployment.stored other.stored deployment.start other.start → Settled (other.run fuel' sp) →
        Roomy (deployment.run fuel sp).1 → Roomy (other.run fuel' sp).1 →
        (other.run fuel' sp).1 = (deployment.run fuel sp).1 ∧
          (other.run fuel' sp).2.stack = (deployment.run fuel sp).2.stack ∧
          (other.run fuel' sp).2.memory = (deployment.run fuel sp).2.memory := by
  refine ⟨fun depth hdepth => eval_eq_run hdepth hsettled, ?_⟩
  intro other fuel' hsource halike hsettled' hroomy hroomy'
  have hready := (deployment.ready_start (addressable_start hsettled)).1
  have hready' := (other.ready_start (addressable_start hsettled')).1
  have haddr := hsettled.addressable
  have haddr' := hsettled'.addressable
  -- Both runs are evaluations at a depth that is enough for both, and evaluating does not depend on the place.
  rw [← eval_eq_run (Nat.le_max_left fuel fuel') hsettled] at haddr hroomy ⊢
  rw [← eval_eq_run (Nat.le_max_right fuel fuel') hsettled'] at haddr' hroomy' ⊢
  obtain ⟨hresult, hsame⟩ := eval_alike hsource halike hready hready' haddr haddr' hroomy hroomy'
  exact ⟨hresult.symm, hsame.stack.symm, hsame.memory.symm⟩

/-- A function of a module without imports that is the first to be compiled. -/
def ofModule (module : Module) (before : CodeArea) (entry : CodeRef) (stack : Array Slot) (memory : LinearMemory)
    {func : Func} (hcompiler : before.env.host.compiler = Threaded.compiler)
    (hfresh : (module.functions.all fun func => !func.isImport && func.code.isNone) = true)
    (hfound : module.functions[function]? = some func)
    (hentry : (resultOf (CodeArea.compileFunction module function before)).toOption = some entry) :
    Deployment (fun _ => none) function :=
  have huncompiled (function : Nat) (func : Func) (hfunc : module.functions[function]? = some func) :
      func.isImport = false ∧ func.code = none := by
    simpa using Array.all_eq_true_iff_forall_mem.1 hfresh func (Array.mem_of_getElem? hfunc)
  { module, func, before, entry, stack, memory
    area := stateAfter (CodeArea.compileFunction module function before)
    ready := .of_uncompiled hcompiler huncompiled
    found := hfound
    defined := (huncompiled function func hfound).1
    fresh := (huncompiled function func hfound).2
    compiled := eq_ok_of_resultOf (eq_ok_of_toOption hentry) }

/-- Branches inside a branch, with a call in one of them and returns in both, compiled behind the call of a host
function and onto an empty page. -/
theorem run_eq_eval_nested :
    let type : TypeHandle := ⟨0, ⟨some .i32, [.i32]⟩⟩
    let module : Module :=
      { functions := #[
          { Func.declared type with
            body := some [0x20, 0x00, 0x04, 0x40, 0x20, 0x00, 0x41, 0x05, 0x49, 0x04, 0x40, 0x20, 0x00, 0x10, 0x01,
              0x0F, 0x05, 0x41, 0x09, 0x0F, 0x0B, 0x0B, 0x41, 0x07, 0x0B] },
          { Func.declared type with body := some [0x20, 0x00, 0x41, 0x0A, 0x6A, 0x0B] }] }
    let empty : CodeArea := ⟨{ host := { compiler := compiler } }, {}⟩
    let used := stateAfter (CodeArea.install { function := ⟨fun _ => pure ()⟩ } empty)
    ∃ deployment other : Deployment (fun _ => none) 0,
      deployment.module = module ∧ deployment.before = used ∧ deployment.entry = ⟨0, 2⟩ ∧
      other.module = module ∧ other.before = empty ∧ other.entry = ⟨0, 0⟩ ∧
      (deployment.run 40 1).1 = .ok () ∧ (deployment.run 40 1).2.stack = #[0, 13, 13, 0] ∧
      deployment.eval 40 1 = deployment.run 40 1 ∧
      (other.run 40 1).1 = .ok () ∧ (other.run 40 1).2.stack = #[0, 13, 13, 0] := by
  intro type module empty used
  let memory : LinearMemory := .create {} ⟨0⟩ 4
  let deployment : Deployment (fun _ => none) 0 :=
    ofModule module used ⟨0, 2⟩ #[0, 3, 0, 0] memory (by rw [(CodeArea.unnoticed_closed.install _ empty).host])
      (by decide +kernel) rfl (by decide +kernel)
  let other : Deployment (fun _ => none) 0 :=
    ofModule module empty ⟨0, 0⟩ #[0, 3, 0, 0] memory rfl (by decide +kernel) rfl (by decide +kernel)
  have hresult : (deployment.run 40 1).1 = .ok () := by decide +kernel
  have hresult' : (other.run 40 1).1 = .ok () := by decide +kernel
  have hsettled : Settled (deployment.run 40 1) :=
    ⟨by rw [hresult]; exact nofun, CodeStore.addressable_of_all (by decide +kernel)⟩
  have hsettled' : Settled (other.run 40 1) :=
    ⟨by rw [hresult']; exact nofun, CodeStore.addressable_of_all (by decide +kernel)⟩
  have halike : Alike deployment.stored other.stored deployment.start other.start :=
    alike_start rfl rfl (CodeArea.unnoticed_closed.install _ empty).host
      (CodeArea.unnoticed_closed.install _ empty).yields
      ((CodeArea.unnoticed_closed.install _ empty).heap ⟨0, rfl⟩) ⟨0, rfl⟩
  obtain ⟨heval, hsame⟩ := run_eq_eval deployment 40 1 hsettled
  have hstack : (deployment.run 40 1).2.stack = #[0, 13, 13, 0] := by decide +kernel
  have hroomy : Roomy (deployment.run 40 1).1 := by rw [hresult]; exact nofun
  have hroomy' : Roomy (other.run 40 1).1 := by rw [hresult']; exact nofun
  obtain ⟨-, hstack', -⟩ := hsame other 40 rfl halike hsettled' hroomy hroomy'
  exact ⟨deployment, other, rfl, rfl, rfl, rfl, rfl, rfl, hresult, hstack, heval 40 (Nat.le_refl _), hresult',
    hstack'.trans hstack⟩

/-- A function that returns at once. -/
def returning : Module where
  functions := #[{ Func.declared ⟨0, ⟨none, []⟩⟩ with body := some [0x0B] }]

/-- A function that is compiled where lines have no numbers any more runs what stands at the highest number. -/
theorem exists_misplaced : ∃ deployment : Deployment (fun _ => none) 0, deployment.module = returning ∧
    (deployment.run 1 0).1 = .error (.trap .unreachable) ∧ (deployment.eval 1 0).1 = .ok () := by
  obtain ⟨page, hlines, husage, hnext, hcapacity⟩ : ∃ page : CodePage,
      page.lines.toList = List.replicate 0xFFFFFFFF Op.unreachable.line ++ [Op.unreachable.line] ∧ page.usage = 0 ∧
      page.next = none ∧ page.capacity = 0x200000000 :=
    ⟨⟨(List.replicate 0xFFFFFFFF Op.unreachable.line ++ [Op.unreachable.line]).toArray, 0x200000000, 0, 0, none,
      ⟨0, 0⟩⟩, List.toList_toArray, rfl, rfl, rfl⟩
  have hsize : page.lines.size = 0x100000000 := by
    rw [← Array.length_toList, hlines, List.length_append, List.length_replicate, List.length_singleton]
  let before : CodeArea := ⟨{ host := { compiler := compiler } }, { pages := #[page], openHead := some 0 }⟩
  have hfree : before.env.config.freeLineThreshold ≤ page.freeLines := by
    rw [CodePage.freeLines, hsize, hcapacity]
    exact Nat.le_of_ble_eq_true rfl
  have honpage : before.code.OnPage page := ⟨rfl, rfl, husage, hnext⟩
  obtain ⟨held, hacquire, hpages, -⟩ := CodeArea.acquire_onPage honpage hfree
  have hpage : held.pages[0]? = some { page with usage := 1 } := by simp [hpages]
  have htext : held.text 0 = page.lines.toList := by rw [CodeStore.text_of_getElem? hpage]
  have hroom : page.lines.toList.length + 4 ≤ page.capacity := by
    rw [Array.length_toList, hsize, hcapacity]
    decide
  obtain ⟨code, hexec⟩ := @exec_compileFunction_return (.start ⟨before.env, held⟩ 0) { page with usage := 1 }
    (Array.getElem?_eq_some_iff.1 hpage).1 page.lines.toList returning 0 _ rfl rfl hroom
  rw [@CompileState.withLines_self (.start ⟨before.env, held⟩ 0) { page with usage := 1 } hpage, ← htext] at hexec
  have hhost : before.env.host.compiler = compiler := rfl
  obtain ⟨area, hcompiled, happends, -⟩ := CodeArea.compileFunction_of_exec hhost rfl rfl rfl hacquire hexec
  have hpc : held.pc 0 = ⟨0, 0xFFFFFFFF⟩ := by
    rw [CodeStore.pc_eq, htext, Array.length_toList, hsize]
    rfl
  rw [hpc] at hcompiled
  let deployment : Deployment (fun _ => none) 0 :=
    ofModule returning before ⟨0, 0xFFFFFFFF⟩ #[] (.create {} ⟨0⟩ 0) rfl (by decide +kernel) rfl
      (by rw [hcompiled]; rfl)
  have hholds : deployment.start.area.code.Holds ⟨0, 0xFFFFFFFF⟩ [Op.unreachable.line] := by
    change (stateAfter (CodeArea.compileFunction returning 0 before)).code.Holds _ _
    rw [hcompiled]
    refine ⟨List.replicate 0xFFFFFFFF Op.unreachable.line, code, ?_, List.length_replicate⟩
    refine (happends 0).trans ?_
    rw [if_pos rfl, htext, hlines]
  refine ⟨deployment, rfl, ?_, ?_⟩
  · have hrun := @exec_run_op deployment.stored 0 ⟨⟨0, 0xFFFFFFFF⟩, 0, 0, []⟩ (pure ()) deployment.start _ hholds.head
    exact congrArg Prod.fst hrun
  · have hblock : deployment.func.body.bind Block.ofBody = some .done := by
      change Block.ofBody [0x0B] = _
      rw [Block.ofBody, Instruction.ofBody_end]
      rfl
    change ((evalFunction returning.source (fun _ => none) 1 _ 0).exec deployment.stored deployment.start).1 = _
    unfold evalFunction
    simp only [hblock]
    rfl

/-- Where the code was put matters in two ways. If its page was acquired for it, less of an arena is left for a memory
that grows. If lines have no numbers any more, other code runs. -/
theorem run_depends_on_place :
    let session (found : List Action) := (Session.startWithin none { codePageAlign := 256, freeLineThreshold := 11 }
      (.ofBackends .threaded .threaded none) (.arena (.ofCapacity 66000))).performAll
        ([.build "m" [.importFunction ⟨"env", "grow"⟩ "i(i)", .function "i(i)" 0 [0x20, 0x00, 0x10, 0x00, 0x0B],
            .function "v()" 0 [0x0B], .exportFunction 1 "g", .exportFunction 2 "h"],
          .create "a" 64, .load "a" "m", .link "a" 0 "env" "grow" "i(i)" { function := HostLibrary.grow }] ++ found)
    let entry (found : List Action) :=
      ((session found).machines.get? "a").bind fun machine => machine.placement.entryOf 0 1
    let result (found : List Action) := ((session found).perform (.call "a" 0 1 ["1"])).1
    (entry [.find "a" "g"] = some ⟨0, 2⟩ ∧ result [.find "a" "g"] = some (.ok (some (.i32 1))) ∧
      entry [.find "a" "h", .find "a" "g"] = some ⟨1, 0⟩ ∧
      result [.find "a" "h", .find "a" "g"] = some (.error .outOfMemory)) ∧
    ∃ deployment : Deployment (fun _ => none) 0, deployment.module = returning ∧
      (deployment.run 1 0).1 = .error (.trap .unreachable) ∧ (deployment.eval 1 0).1 = .ok () :=
  ⟨by decide +kernel, exists_misplaced⟩

end Deployment

end Threaded

/-- A function that is compiled in a session is deployed, whatever stack and memory it is to run on. -/
theorem Session.exists_deployment (backing : Option Nat) (config : Config) {host : Host} (heap : Heap)
    (hcompiler : host.compiler = Threaded.compiler) (actions : List Action) {name : String} {machine : Machine}
    (hmachine : ((startWithin backing config host heap).performAll actions).machines.get? name = some machine)
    (haddr : machine.code.Addressable) {index function : Nat} {module : Module} {func : Func}
    (hmodule : machine.modules[index]? = some module) (hfunc : module.functions[function]? = some func)
    (himport : func.isImport = false) (hcode : func.code = none) {entry : CodeRef} {area : CodeArea}
    (hcompiled : CodeArea.compileFunction module function
      ⟨((startWithin backing config host heap).performAll actions).env, machine.code⟩ = .ok entry area)
    (stack : Array Slot) (memory : LinearMemory) :
    ∃ imports, ∃ deployment : Threaded.Deployment imports function,
      deployment.module = module ∧ deployment.start = { area, stack, memory } ∧ deployment.entry = entry := by
  obtain ⟨imports, hready⟩ := exists_ready backing config heap hcompiler actions hmachine haddr hmodule
  let deployment : Threaded.Deployment imports function :=
    { module, func, entry, area, stack, memory
      before := ⟨((startWithin backing config host heap).performAll actions).env, machine.code⟩
      ready := hready stack memory
      found := hfunc
      defined := himport
      fresh := hcode
      compiled := hcompiled }
  exact ⟨imports, deployment, rfl, rfl, rfl⟩

end WasmEngine

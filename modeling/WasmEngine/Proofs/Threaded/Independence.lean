import WasmEngine.Proofs.Placement.Environment
import WasmEngine.Proofs.Threaded.Simulation
import WasmEngine.Proofs.Threaded.Verdict

/-!
# Where code is placed does not matter

Two engines that have the same to offer to running code (`Threaded.Alike`) may have placed the code of a module in
different places, and compiled different functions of it.
-/

namespace WasmEngine

namespace Threaded

/-! ## Engines that are alike -/

/-- Every defined function of the module has its code. -/
def Complete (module : Module) (state : ExecState) : Prop :=
  ∀ function func, module.functions[function]? = some func → func.isImport = false →
    ∃ entry, state.entryOf module function = some entry

/-- What is there to allocate from: as much as is asked for, or the same if all is compiled. -/
def Supply (module module' : Module) (state state' : ExecState) : Prop :=
  state.area.env.heap.IsSystem ∧ state'.area.env.heap.IsSystem ∨
    state.area.env.heap = state'.area.env.heap ∧ Complete module state ∧ Complete module' state'

/-- Two states have the same to offer to running code, apart from the code itself. -/
structure Alike (module module' : Module) (state state' : ExecState) : Prop where
  stack : state.stack = state'.stack
  memory : state.memory = state'.memory
  host : state.area.env.host = state'.area.env.host
  yields : state.area.env.yields = state'.area.env.yields
  supply : Supply module module' state state'

variable {module module' : Module} {imports : Nat → Option HostLink} {state state' : ExecState}

/-- Answers about slots and memory are the same. -/
theorem Alike.answerFrame (h : Alike module module' state state') (base : Nat) (op : FrameOp) :
    (ExecState.answerFrame base op state).1 = (ExecState.answerFrame base op state').1 ∧
      Alike module module' (ExecState.answerFrame base op state).2 (ExecState.answerFrame base op state').2 := by
  obtain ⟨hstack, hmemory, hhost, hyields, hsupply⟩ := h
  cases op with
  | slot index =>
    simp only [ExecState.answerFrame, hstack]
    cases state'.stack[base + index]? with
    | none => exact ⟨rfl, hstack, hmemory, hhost, hyields, hsupply⟩
    | some value => exact ⟨rfl, hstack, hmemory, hhost, hyields, hsupply⟩
  | setSlot index value =>
    simp only [ExecState.answerFrame, hstack]
    split
    · exact ⟨rfl, rfl, hmemory, hhost, hyields, hsupply⟩
    · exact ⟨rfl, hstack, hmemory, hhost, hyields, hsupply⟩
  | memory => exact ⟨hmemory, hstack, hmemory, hhost, hyields, hsupply⟩
  | writeMemory offset data =>
    simp only [ExecState.answerFrame, hmemory]
    cases state'.memory.write offset data with
    | error error => exact ⟨rfl, hstack, hmemory, hhost, hyields, hsupply⟩
    | ok memory => exact ⟨rfl, hstack, rfl, hhost, hyields, hsupply⟩
  | growMemory pages =>
    simp only [ExecState.answerFrame, hmemory]
    rcases hsupply with ⟨⟨inUse, hheap⟩, inUse', hheap'⟩ | ⟨hheap, hcomplete⟩
    · rw [hheap, hheap']
      rcases LinearMemory.growTo_system pages state'.memory with ⟨memory, hgrow⟩ | ⟨error, memory, hgrow⟩
      · obtain ⟨after, hafter⟩ := hgrow inUse
        obtain ⟨after', hafter'⟩ := hgrow inUse'
        rw [hafter, hafter']
        exact ⟨rfl, hstack, rfl, hhost, hyields, .inl ⟨⟨_, rfl⟩, _, rfl⟩⟩
      · obtain ⟨after, hafter⟩ := hgrow inUse
        obtain ⟨after', hafter'⟩ := hgrow inUse'
        rw [hafter, hafter']
        exact ⟨rfl, hstack, rfl, hhost, hyields, .inl ⟨⟨_, rfl⟩, _, rfl⟩⟩
    · rw [hheap]
      cases LinearMemory.growTo pages ⟨state'.memory, state'.area.env.heap⟩ with
      | ok done after => exact ⟨rfl, hstack, rfl, hhost, hyields, .inr ⟨rfl, hcomplete⟩⟩
      | error error after => exact ⟨rfl, hstack, rfl, hhost, hyields, .inr ⟨rfl, hcomplete⟩⟩

theorem Alike.callNative (h : Alike module module' state state') (function : HostFunction) (sp : Nat)
    (cookie : Option UInt64) :
    (state.callNative function sp cookie).1 = (state'.callNative function sp cookie).1 ∧
      Alike module module' (state.callNative function sp cookie).2 (state'.callNative function sp cookie).2 := by
  unfold ExecState.callNative
  rw [h.stack]
  split
  · exact Dialogue.run_related (fun op _ _ halike => halike.answerFrame sp op) _ h
  · exact ⟨rfl, h⟩

theorem Alike.yieldNow (h : Alike module module' state state') :
    (ExecState.answer module .yieldNow state).1 = (ExecState.answer module' .yieldNow state').1 ∧
      Alike module module' (ExecState.answer module .yieldNow state).2
        (ExecState.answer module' .yieldNow state').2 := by
  obtain ⟨hstack, hmemory, hhost, hyields, hsupply⟩ := h
  simp only [ExecState.answer, Environment.yieldNow, hhost, hyields]
  cases state'.area.env.host.onYield state'.area.env.yields with
  | ok done => exact ⟨rfl, hstack, hmemory, rfl, rfl, hsupply⟩
  | error error => exact ⟨rfl, hstack, hmemory, rfl, rfl, hsupply⟩

/-! ## Giving functions their code -/

/-- There is room for code. -/
def Roomy {α : Type} (result : Except Error α) : Prop :=
  ∀ error, result = .error error → error ≠ .codePageFull ∧ error ≠ .outOfCodePages

/-- What becomes of giving a function its code, as far as the module and its imports decide it. -/
def entryVerdict (source : Module) (imports : Nat → Option HostLink) (function : Nat) : Except Error Unit :=
  match source.functions[function]? with
  | none => .error .functionIndexOutOfRange
  | some func =>
    if func.isImport then if (imports function).isSome then .ok () else .error .missingCode
    else functionVerdict func

theorem verdict_compile {area : CodeArea} {page : Nat} (hlt : page < area.code.pages.size) {function : Nat}
    {func : Func} (hfunc : module.functions[function]? = some func) {result : Except Error Unit}
    {state : CompileState} (h : area.compile page (compiler.function module function) = (result, state))
    (hroomy : Roomy result) : result = functionVerdict func := by
  obtain ⟨found, hstart⟩ := CompileState.start_eq_withLines hlt
  have hends : Ends (.start area page) found (area.code.text page) (compileFunction module function)
      (functionVerdict func) := ends_compileFunction hlt hfunc
  unfold Ends at hends
  rw [← hstart, show (compileFunction module function).exec (.start area page) = (result, state) from h] at hends
  exact hends.resolve_left fun hfull => (hroomy _ hfull).1 rfl

theorem error_of_refuse {minLines : Nat} {area area' : CodeArea} {error : Error}
    (h : CodeArea.acquire minLines area = .error error area') : error = .outOfCodePages := by
  have hcases := CodeArea.acquired minLines area
  rw [h] at hcases
  cases hcases
  rfl

/-- A function that has no entry gets one or not, as its body decides. -/
theorem verdict_compileFunction (hready : Ready module imports state) {function : Nat}
    (hentry : state.entryOf module function = none)
    (hroomy : Roomy (resultOf (CodeArea.compileFunction module function state.area))) :
    (resultOf (CodeArea.compileFunction module function state.area)).map (fun _ => ()) =
      entryVerdict module.source imports function := by
  have hcompiled : ∀ {func : Func} {page : Nat} {area' : CodeArea} {result : Except Error Unit} {after : CompileState},
      module.functions[function]? = some func →
      CodeArea.acquire state.area.env.config.freeLineThreshold state.area = .ok page area' →
      area'.compile page (area'.env.host.compiler.function module function) = (result, after) → Roomy result →
      result = functionVerdict func := by
    intro func page area' result after hfunc hacquire hcompile hroomy
    have hhost : area'.env.host = state.area.env.host := (Engine.Step.acquire [] 0 hacquire).fixed.2
    rw [hhost, hready.compiler] at hcompile
    exact verdict_compile (CodeArea.extends_of_acquire hacquire).2 hfunc hcompile hroomy
  have hcases := CodeArea.compiled module function state.area
  generalize CodeArea.compileFunction module function state.area = outcome at hcases hroomy ⊢
  unfold entryVerdict
  rw [Module.getElem?_source]
  cases hcases with
  | unknown hfunc =>
    rw [hfunc]
    rfl
  | present hfunc hcode => cases hcode.symm.trans (ExecState.code_of_entryOf_eq_none hentry hfunc)
  | @unlinked func hfunc hcode himport =>
    have hstands := hready.stands function func hfunc
    rw [hentry] at hstands
    cases hstands with
    | unlinked _ hlink =>
      rw [hfunc]
      simp [himport, hlink, resultOf, Except.map]
    | uncompiled himport' => cases himport.symm.trans himport'
  | refused hfunc hcode himport hacquire => exact ((hroomy _ rfl).2 (error_of_refuse hacquire)).elim
  | @failed func error area' page after hfunc hcode himport hacquire hcompile =>
    have hverdict : functionVerdict func.source = .error error :=
      (hcompiled hfunc hacquire hcompile fun _ heq => hroomy _ (by cases heq; rfl)).symm
    rw [hfunc]
    simp [himport, hverdict, resultOf, Except.map]
  | @done func area' page after hfunc hcode himport hacquire hcompile =>
    have hverdict : functionVerdict func.source = .ok () :=
      (hcompiled hfunc hacquire hcompile nofun).symm
    rw [hfunc]
    simp [himport, hverdict, resultOf, Except.map]

theorem verdict_ensureCompiled (hready : Ready module imports state) {function : Nat}
    (hroomy : Roomy (state.ensureCompiled module function).1) :
    (state.ensureCompiled module function).1.map (fun _ => ()) = entryVerdict module.source imports function := by
  cases hentry : state.entryOf module function with
  | some entry =>
    obtain ⟨func, hfunc⟩ := hready.known function entry hentry
    have hstands := hready.stands function func hfunc
    rw [hentry] at hstands
    rw [ExecState.ensureCompiled_of_entryOf hentry, entryVerdict, Module.getElem?_source, hfunc]
    cases hstands with
    | linked himport hlink hholds => simp [himport, hlink, Except.map]
    | compiled himport hlines hholds =>
      have hverdict : functionVerdict func.source = .ok () := verdict_of_functionCode hlines
      simp [himport, hverdict, Except.map]
  | none =>
    have hverdict := verdict_compileFunction hready hentry
    rw [ExecState.ensureCompiled_of_none hentry] at hroomy ⊢
    cases hcompile : CodeArea.compileFunction module function state.area with
    | error error area =>
      rw [hcompile] at hroomy hverdict
      exact hverdict hroomy
    | ok entry area =>
      rw [hcompile] at hroomy hverdict
      exact hverdict hroomy

theorem ensureCompiled_unnoticed (module : Module) (state : ExecState) (function : Nat) :
    (state.ensureCompiled module function).2.stack = state.stack ∧
      (state.ensureCompiled module function).2.memory = state.memory ∧
      state.area.env.Unnoticed (state.ensureCompiled module function).2.area.env := by
  cases hentry : state.entryOf module function with
  | some entry =>
    rw [ExecState.ensureCompiled_of_entryOf hentry]
    exact ⟨rfl, rfl, rfl, rfl, id⟩
  | none =>
    have hunnoticed := CodeArea.unnoticed_closed.compileFunction module function
    rw [ExecState.ensureCompiled_of_none hentry]
    cases hcompile : CodeArea.compileFunction module function state.area with
    | error error area => exact ⟨rfl, rfl, hunnoticed.of_error hcompile⟩
    | ok entry area => exact ⟨rfl, rfl, hunnoticed.of_ok hcompile⟩

/-- Where every function has its code, nothing is compiled. -/
theorem ensureCompiled_of_complete (h : Complete module state) (function : Nat) :
    (state.ensureCompiled module function).2 = state := by
  cases hentry : state.entryOf module function with
  | some entry => rw [ExecState.ensureCompiled_of_entryOf hentry]
  | none =>
    have hdefined {func : Func} (hfunc : module.functions[function]? = some func) : func.isImport ≠ false := by
      intro himport
      obtain ⟨entry, hsome⟩ := h function func hfunc himport
      cases hentry.symm.trans hsome
    rw [ExecState.ensureCompiled_of_none hentry]
    have hcases := CodeArea.compiled module function state.area
    generalize CodeArea.compileFunction module function state.area = outcome at hcases ⊢
    cases hcases with
    | unknown hfunc => rfl
    | unlinked hfunc hcode himport => rfl
    | present hfunc hcode => cases hcode.symm.trans (ExecState.code_of_entryOf_eq_none hentry hfunc)
    | refused hfunc hnone himport hacquire => exact (hdefined hfunc himport).elim
    | failed hfunc hnone himport hacquire hcompile => exact (hdefined hfunc himport).elim
    | done hfunc hnone himport hacquire hcompile => exact (hdefined hfunc himport).elim

theorem Alike.ensureCompiled (h : Alike module module' state state') (function : Nat) :
    Alike module module' (state.ensureCompiled module function).2 (state'.ensureCompiled module' function).2 := by
  obtain ⟨hstack, hmemory, hunnoticed⟩ := ensureCompiled_unnoticed module state function
  obtain ⟨hstack', hmemory', hunnoticed'⟩ := ensureCompiled_unnoticed module' state' function
  refine ⟨hstack.trans (h.stack.trans hstack'.symm), hmemory.trans (h.memory.trans hmemory'.symm),
    hunnoticed.host.trans (h.host.trans hunnoticed'.host.symm),
    hunnoticed.yields.trans (h.yields.trans hunnoticed'.yields.symm), ?_⟩
  rcases h.supply with ⟨hsystem, hsystem'⟩ | ⟨hheap, hcomplete, hcomplete'⟩
  · exact .inl ⟨hunnoticed.heap hsystem, hunnoticed'.heap hsystem'⟩
  · rw [ensureCompiled_of_complete hcomplete, ensureCompiled_of_complete hcomplete']
    exact .inr ⟨hheap, hcomplete, hcomplete'⟩

/-! ## Uniform programs -/

/-- A program has the same result in states that are alike, as long as there is room for code, and leaves such states.
-/
def Uniform {α : Type} (module module' : Module) (imports : Nat → Option HostLink) (program : Exec α) : Prop :=
  ∀ ⦃state state' after after' : ExecState⦄ ⦃result result' : Except Error α⦄, Alike module module' state state' →
    Ready module imports state → Ready module' imports state' → program.exec module state = (result, after) →
    program.exec module' state' = (result', after') → after.area.code.Addressable →
    after'.area.code.Addressable → Roomy result → Roomy result' →
    result = result' ∧ Alike module module' after after'

section Uniform

variable {α β : Type}

/-- A program with the same answer in states that are alike. -/
theorem Uniform.of_answer {program : Exec α}
    (h : ∀ state state', Alike module module' state state' →
      (program.exec module state).1 = (program.exec module' state').1 ∧
        Alike module module' (program.exec module state).2 (program.exec module' state').2) :
    Uniform module module' imports program := by
  intro state state' after after' result result' halike hready hready' hexec hexec' _ _ _ _
  have hsame := h state state' halike
  rwa [hexec, hexec'] at hsame

theorem Uniform.pure (value : α) : Uniform module module' imports (pure value) :=
  .of_answer fun _ _ halike => ⟨rfl, halike⟩

theorem Uniform.throw (error : Error) : Uniform module module' imports (throw error : Exec α) :=
  .of_answer fun _ _ halike => ⟨rfl, halike⟩

/-- What is known of the first part of a program. -/
theorem exec_bind_cases {first : Exec α} {second : α → Exec β} {result : Except Error β} {after : ExecState}
    (hready : Ready module imports state) (h : (first >>= second).exec module state = (result, after))
    (haddr : after.area.code.Addressable) (hroomy : Roomy result) :
    ∃ value between, first.exec module state = (value, between) ∧ between.area.code.Addressable ∧ Roomy value ∧
      ((∃ error, value = .error error ∧ result = .error error ∧ after = between) ∨
        ∃ found, value = .ok found ∧ (second found).exec module between = (result, after)) := by
  cases hfirst : first.exec module state with
  | mk value between =>
    cases value with
    | error error =>
      rw [Exec.exec_bind_error hfirst] at h
      cases h
      exact ⟨_, _, rfl, haddr, fun error' heq => hroomy error' (by cases heq; rfl), .inl ⟨error, rfl, rfl, rfl⟩⟩
    | ok found =>
      rw [Exec.exec_bind_ok hfirst] at h
      have hhost := (exec_steps hready.standard hfirst).1
      have hgrows := (exec_steps (hhost ▸ hready.standard) h).2.grows
      exact ⟨_, _, rfl, haddr.of_grows hgrows, nofun, .inr ⟨found, rfl, h⟩⟩

theorem Uniform.bind {first : Exec α} {second : α → Exec β} (hfirst : Uniform module module' imports first)
    (hsecond : ∀ value, Uniform module module' imports (second value)) :
    Uniform module module' imports (first >>= second) := by
  intro state state' after after' result result' halike hready hready' hexec hexec' haddr haddr' hroomy hroomy'
  obtain ⟨value, between, hvalue, hbetween, hfits, hrest⟩ := exec_bind_cases hready hexec haddr hroomy
  obtain ⟨value', between', hvalue', hbetween', hfits', hrest'⟩ := exec_bind_cases hready' hexec' haddr' hroomy'
  obtain ⟨rfl, halike⟩ := hfirst halike hready hready' hvalue hvalue' hbetween hbetween' hfits hfits'
  -- The first parts have the same result, so both programs end with it or both go on from the same value.
  rcases hrest with ⟨error, rfl, rfl, rfl⟩ | ⟨found, rfl, hrest⟩
  · rcases hrest' with ⟨error', heq, rfl, rfl⟩ | ⟨found', heq, hrest'⟩
    · cases heq
      exact ⟨rfl, halike⟩
    · cases heq
  · rcases hrest' with ⟨error', heq, rfl, rfl⟩ | ⟨found', heq, hrest'⟩
    · cases heq
    · cases heq
      exact hsecond found halike (hready.after hvalue hbetween) (hready'.after hvalue' hbetween') hrest hrest' haddr
        haddr' hroomy hroomy'

theorem Uniform.check (result : Except Error α) : Uniform module module' imports (Exec.check result) :=
  .of_answer fun _ _ halike => ⟨rfl, halike⟩

theorem Uniform.slot (index : Nat) : Uniform module module' imports (Exec.slot index) :=
  .of_answer fun _ _ halike => halike.answerFrame 0 (.slot index)

theorem Uniform.setSlot (index : Nat) (value : Slot) : Uniform module module' imports (Exec.setSlot index value) :=
  .of_answer fun _ _ halike => halike.answerFrame 0 (.setSlot index value)

theorem Uniform.slotCount : Uniform module module' imports Exec.slotCount :=
  .of_answer fun _ _ halike => ⟨congrArg (Except.ok ∘ Array.size) halike.stack, halike⟩

theorem Uniform.yieldNow : Uniform module module' imports Exec.yieldNow :=
  .of_answer fun _ _ halike => halike.yieldNow

theorem Uniform.callNative (function : HostFunction) (sp : Nat) (cookie : Option UInt64) :
    Uniform module module' imports (Exec.callNative function sp cookie) :=
  .of_answer fun _ _ halike => halike.callNative function sp cookie

theorem exec_ensureCompiled (module : Module) (function : Nat) (state : ExecState) :
    (Exec.ensureCompiled function >>= fun _ => Pure.pure () : Exec Unit).exec module state =
      ((state.ensureCompiled module function).1.map (fun _ => ()), (state.ensureCompiled module function).2) := by
  cases h : state.ensureCompiled module function with
  | mk result after =>
    have hexec : (Exec.ensureCompiled function).exec module state = (result, after) := h
    cases result with
    | ok entry => exact Exec.exec_bind_ok hexec _
    | error error => exact Exec.exec_bind_error hexec _

/-- Whether a function gets its code does not depend on where the code goes. -/
theorem Uniform.ensureCompiled (hsource : module.source = module'.source) (function : Nat) :
    Uniform module module' imports (Exec.ensureCompiled function >>= fun _ => Pure.pure ()) := by
  intro state state' after after' result result' halike hready hready' hexec hexec' _ _ hroomy hroomy'
  rw [exec_ensureCompiled] at hexec hexec'
  cases hexec
  cases hexec'
  refine ⟨?_, halike.ensureCompiled function⟩
  rw [verdict_ensureCompiled hready fun error heq => hroomy error (by rw [heq]; rfl),
    verdict_ensureCompiled hready' fun error heq => hroomy' error (by rw [heq]; rfl), hsource]

theorem Uniform.afterCompiling (hsource : module.source = module'.source) (function : Nat) {rest : Exec α}
    (hrest : Uniform module module' imports rest) :
    Uniform module module' imports (Exec.ensureCompiled function >>= fun _ => rest) := by
  have hsplit : (Exec.ensureCompiled function >>= fun _ => rest) =
      ((Exec.ensureCompiled function >>= fun _ => Pure.pure ()) >>= fun _ => rest) := by
    simp only [bind_assoc, pure_bind]
  rw [hsplit]
  exact .bind (.ensureCompiled hsource function) fun _ => hrest

/-! ## Evaluating is uniform -/

theorem uniform_pop (operands : List Slot) : Uniform module module' imports (pop operands) := by
  cases operands with
  | nil => exact .throw _
  | cons value operands => exact .pure _

theorem uniform_clear (first count : Nat) : Uniform module module' imports (clear first count) := by
  induction count generalizing first with
  | zero => exact .pure _
  | succ count ih => exact .bind (.setSlot _ _) fun _ => ih _

theorem uniform_passArguments (sp count : Nat) (operands : List Slot) :
    Uniform module module' imports (passArguments sp count operands) := by
  induction count generalizing operands with
  | zero => exact .pure _
  | succ count ih => exact .bind (uniform_pop operands) fun _ => .bind (.setSlot _ _) fun _ => ih _

theorem uniform_leave (sp : Nat) (operands : List Slot) : Uniform module module' imports (leave sp operands) := by
  cases operands with
  | nil => exact .pure _
  | cons value operands => exact .setSlot _ _

theorem uniform_openFrame (func : Func) (sp : Nat) : Uniform module module' imports (openFrame func sp) := by
  unfold openFrame
  refine .bind .slotCount fun count => ?_
  split
  · exact .throw _
  · exact .bind (uniform_clear _ _) fun _ => .pure _

theorem uniform_endBody (sp : Nat) (operands : Option (List Slot)) :
    Uniform module module' imports (endBody sp operands) := by
  cases operands with
  | none => exact .pure _
  | some operands => exact uniform_leave _ _

theorem uniform_andThen {next : List Slot → Exec (Option (List Slot))}
    (hnext : ∀ operands, Uniform module module' imports (next operands)) (operands : Option (List Slot)) :
    Uniform module module' imports (andThen next operands) := by
  cases operands with
  | none => exact .pure _
  | some operands => exact hnext operands

variable {source : Module} {call : Nat → List Slot → Exec (List Slot)}
  (hcall : ∀ function operands, Uniform module module' imports (call function operands))

include hcall

theorem uniform_instruction (sp : Nat) (instruction : Instruction) (operands : List Slot) :
    Uniform module module' imports (instruction.eval source call sp operands) := by
  cases instruction with
  | const word => exact .pure _
  | globalGet index => exact .bind (.check _) fun _ => .pure _
  | localGet index => exact .bind (.slot _) fun _ => .pure _
  | arithmetic operation => exact .bind (uniform_pop _) fun _ => .bind (uniform_pop _) fun _ => .pure _
  | unreachable => exact .throw _
  | ret => exact .bind (uniform_leave _ _) fun _ => .pure _
  | call function => exact .bind (hcall _ _) fun _ => .pure _
  | callIndirect type =>
    exact .bind (uniform_pop _) fun _ => .bind (.check _) fun _ => .bind (hcall _ _) fun _ => .pure _
  | drop => exact .bind (uniform_pop _) fun _ => .pure _
  | ifThen => exact .pure _
  | orElse => exact .pure _
  | finish => exact .pure _

theorem uniform_block (sp : Nat) (block : Block) (operands : List Slot) :
    Uniform module module' imports (block.eval source call sp operands) := by
  induction block generalizing operands with
  | done => exact .pure _
  | plain instruction hplain rest ih =>
    exact .bind (uniform_instruction hcall sp instruction operands) (uniform_andThen ih)
  | when body rest ihbody ih =>
    refine .bind (uniform_pop operands) fun popped => ?_
    by_cases hzero : popped.1 = 0
    · simp only [if_pos hzero]
      exact ih _
    · simp only [if_neg hzero]
      exact .bind (ihbody _) (uniform_andThen ih)
  | cond yes no rest ihyes ihno ih =>
    refine .bind (uniform_pop operands) fun popped => ?_
    by_cases hzero : popped.1 = 0
    · simp only [if_pos hzero]
      exact .bind (ihno _) (uniform_andThen ih)
    · simp only [if_neg hzero]
      exact .bind (ihyes _) (uniform_andThen ih)

omit hcall in
theorem uniform_takeResult (func : Func) (top : Nat) (operands : List Slot) :
    Uniform module module' imports (takeResult func top operands) := by
  unfold takeResult
  split
  · exact .bind (.slot _) fun _ => .pure _
  · exact .pure _

omit hcall in
theorem uniform_evalCallee {eval : Func → Nat → Exec Unit}
    (heval : ∀ func sp, Uniform module module' imports (eval func sp)) (function : Nat) (func : Func) (top : Nat) :
    Uniform module module' imports (evalCallee imports eval function func top) := by
  unfold evalCallee
  split
  · split
    · exact .throw _
    · exact .callNative _ _ _
  · exact heval _ _

omit hcall in
theorem uniform_evalCall (hsource : module.source = module'.source) {eval : Func → Nat → Exec Unit}
    (heval : ∀ func sp, Uniform module module' imports (eval func sp)) (top function : Nat) (operands : List Slot) :
    Uniform module module' imports (evalCall source imports eval top function operands) := by
  unfold evalCall
  refine .afterCompiling hsource function ?_
  split
  · exact .throw _
  · refine .bind (uniform_passArguments _ _ _) fun operands => .bind .yieldNow fun _ => ?_
    exact .bind (uniform_evalCallee heval _ _ _) fun _ => uniform_takeResult _ _ _

end Uniform

/-- Evaluating a function does the same wherever code is placed. -/
theorem uniform_evalFunction (hsource : module.source = module'.source) (source : Module) (depth : Nat) (func : Func)
    (sp : Nat) : Uniform module module' imports (evalFunction source imports depth func sp) := by
  induction depth generalizing func sp with
  | zero => exact .throw _
  | succ depth ih =>
    unfold evalFunction
    split
    · exact .throw _
    · refine .bind (uniform_openFrame _ _) fun size => ?_
      have hcall (function : Nat) (operands : List Slot) : Uniform module module' imports
          (evalCall source imports (evalFunction source imports depth) (sp + size) function operands) :=
        uniform_evalCall hsource ih _ function operands
      exact .bind (uniform_block hcall _ _ _) fun operands => uniform_endBody _ _

end Threaded

end WasmEngine

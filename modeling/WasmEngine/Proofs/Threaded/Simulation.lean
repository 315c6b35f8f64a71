import WasmEngine.Proofs.Placement.Machines
import WasmEngine.Proofs.Threaded.Execution

/-!
# Running code is evaluating bodies

Where the code of the functions stands at their entries (`Threaded.Ready`), running the code of a function does what
evaluating its body does. The simulation follows the tree of a body; running a block ends with the fuel that is left,
and calls are an induction over the fuel.
-/

namespace WasmEngine.Threaded

open Exec

variable {code : CodeStore} {func : Func} {function fuel page : Nat} {outcome : Except Error Unit × ExecState}
  {rest : Block}

/-! ## Code that is in place -/

/-- How a function is placed that has an entry or none. An import has one if it is linked. -/
inductive Stands (link : Option HostLink) (code : CodeStore) (func : Func) : Option CodeRef → Prop where
  | unlinked (himport : func.isImport = true) (hlink : link = none) : Stands link code func none
  | linked {found : HostLink} {entry : CodeRef} (himport : func.isImport = true) (hlink : link = some found)
      (hholds : code.Holds entry found.lines) : Stands link code func (some entry)
  | uncompiled (himport : func.isImport = false) : Stands link code func none
  | compiled {entry : CodeRef} {lines : List Line} (himport : func.isImport = false)
      (hlines : functionCode func entry.line = some lines) (hholds : code.Holds entry lines) :
      Stands link code func (some entry)

theorem Stands.extends {link : Option HostLink} {code' : CodeStore} {entry : Option CodeRef}
    (h : Stands link code func entry) (hextends : code.Extends code') : Stands link code' func entry := by
  cases h with
  | unlinked himport hlink => exact .unlinked himport hlink
  | linked himport hlink hholds => exact .linked himport hlink (hholds.extends hextends)
  | uncompiled himport => exact .uncompiled himport
  | compiled himport hlines hholds => exact .compiled himport hlines (hholds.extends hextends)

theorem Stands.setCode {link : Option HostLink} {entry : Option CodeRef}
    (h : Stands link code func entry) (stored : Option CodeRef) :
    Stands link code { func with code := stored } entry := by
  cases h with
  | unlinked himport hlink => exact .unlinked himport hlink
  | linked himport hlink hholds => exact .linked himport hlink hholds
  | uncompiled himport => exact .uncompiled himport
  | compiled himport hlines hholds => exact .compiled himport hlines hholds

/-- The host has the threaded compiler, and every function that has an entry has its code there. -/
structure Ready (module : Module) (imports : Nat → Option HostLink) (state : ExecState) : Prop where
  compiler : state.area.env.host.compiler = compiler
  known : ∀ function entry, state.entryOf module function = some entry →
    ∃ func, module.functions[function]? = some func
  stands : ∀ function func, module.functions[function]? = some func →
    Stands (imports function) state.area.code func (state.entryOf module function)

variable {module : Module} {imports : Nat → Option HostLink} {state state' : ExecState}

theorem Ready.standard (h : Ready module imports state) : state.area.env.host.compiler.Standard :=
  .inl h.compiler

/-- Whatever writes code and leaves the entries alone leaves the code of functions in place. -/
theorem Ready.extends (h : Ready module imports state) (hhost : state'.area.env.host = state.area.env.host)
    (hextends : state.area.code.Extends state'.area.code) (hcompiled : state'.compiled = state.compiled) :
    Ready module imports state' := by
  have hentry (function : Nat) : state'.entryOf module function = state.entryOf module function := by
    unfold ExecState.entryOf
    rw [hcompiled]
  refine ⟨hhost ▸ h.compiler, fun function entry hsome => ?_, fun function func hfunc => ?_⟩
  · rw [hentry] at hsome
    exact h.known function entry hsome
  · rw [hentry]
    exact (h.stands function func hfunc).extends hextends

/-- A function that is compiled gets its entry. -/
theorem Ready.enter (h : Ready module imports state) {entry : CodeRef}
    {lines : List Line} {area : CodeArea} (hhost : area.env.host = state.area.env.host)
    (hfunc : module.functions[function]? = some func) (himport : func.isImport = false)
    (hlines : functionCode func entry.line = some lines) (hgains : state.area.code.Gains area.code entry lines) :
    Ready module imports { state with area, compiled := (function, entry) :: state.compiled } := by
  have hother {function' : Nat} (hne : function' ≠ function) :
      ExecState.entryOf module { state with area, compiled := (function, entry) :: state.compiled } function' =
        state.entryOf module function' := by
    simp only [ExecState.entryOf, List.lookup_cons, beq_false_of_ne hne]
  refine ⟨hhost ▸ h.compiler, fun function' entry' hsome => ?_, fun function' func' hfunc' => ?_⟩
  · by_cases heq : function' = function
    · exact ⟨func, heq ▸ hfunc⟩
    · exact h.known function' entry' ((hother heq).symm.trans hsome)
  · by_cases heq : function' = function
    · subst heq
      cases hfunc.symm.trans hfunc'
      simp only [ExecState.entryOf, List.lookup_cons_self, Option.some_or]
      exact .compiled himport hlines hgains.holds
    · rw [hother heq]
      exact (h.stands function' func' hfunc').extends hgains.keeps

theorem Ready.ensureCompiled (h : Ready module imports state) (function : Nat)
    (hhost : (state.ensureCompiled module function).2.area.env.host = state.area.env.host)
    (haddr : (state.ensureCompiled module function).2.area.code.Addressable) :
    Ready module imports (state.ensureCompiled module function).2 := by
  cases hentry : state.entryOf module function with
  | some entry =>
    rw [ExecState.ensureCompiled_of_entryOf hentry]
    exact h
  | none =>
    rw [ExecState.ensureCompiled_of_none hentry] at hhost haddr ⊢
    cases hcompile : CodeArea.compileFunction module function state.area with
    | error error area =>
      rw [hcompile] at hhost haddr
      exact h.extends hhost ((CodeArea.compileFunction_error h.standard hcompile).2 haddr) rfl
    | ok entry area =>
      rw [hcompile] at hhost haddr
      obtain ⟨func, hfunc, ⟨hcode, -⟩ | ⟨-, himport, -, hgains⟩⟩ := CodeArea.compileFunction_ok h.standard hcompile
      · cases hcode.symm.trans (ExecState.code_of_entryOf_eq_none hentry hfunc)
      · obtain ⟨lines, hlines, hgains⟩ := hgains haddr
        exact h.enter hhost hfunc himport hlines hgains

/-- The functions of a module, as the only one of a machine. -/
def alone (module : Module) : Nat → Nat → Option Func :=
  fun _ function => module.functions[function]?

theorem alone_apply (module : Module) (function : Nat) : alone module 0 function = module.functions[function]? :=
  rfl

/-- Answering replaces no compiler and takes away no code. -/
theorem answer_grows (module : Module) (op : ExecOp) (hcompiler : state.area.env.host.compiler.Standard) :
    (ExecState.answer module op state).2.area.env.host = state.area.env.host ∧
      state.area.code.Grows (ExecState.answer module op state).2.area.code :=
  ⟨(Engine.Reaches.fixed (ExecState.answer_travels module op state [] 0)).2,
    (ExecState.answer_steps (fun _ _ => False) (alone_apply module) op state hcompiler).grows⟩

theorem Ready.answer (op : ExecOp) (h : Ready module imports state)
    (haddr : (ExecState.answer module op state).2.area.code.Addressable) :
    Ready module imports (ExecState.answer module op state).2 := by
  have hhost := (answer_grows module op h.standard).1
  obtain ⟨function, rfl⟩ | ⟨hcode, hcompiled⟩ := ExecState.answer_code module op state
  · exact h.ensureCompiled function hhost haddr
  · exact h.extends hhost (.of_eq (by rw [hcode])) hcompiled

theorem exec_steps {α : Type} (hcompiler : state.area.env.host.compiler.Standard) {program : Exec α}
    {result : Except Error α} (hexec : program.exec module state = (result, state')) :
    state'.area.env.host = state.area.env.host ∧
      Placement.Steps (fun _ _ => False) (state.placement (alone module) 0) (state'.placement (alone module) 0) := by
  have hsteps := ExecState.run_steps (fun _ _ => False) (alone_apply module) program state hcompiler
  rwa [show program.run.run (ExecState.answer module) state = (result, state') from hexec] at hsteps

/-- Running leaves the code of functions in place, and what it compiles is in place too. -/
theorem Ready.after {α : Type} (hready : Ready module imports state) {program : Exec α} {result : Except Error α}
    (hexec : program.exec module state = (result, state')) (haddr : state'.area.code.Addressable) :
    Ready module imports state' := by
  have hafter := Dialogue.run_preserves (ExecState.answer module)
    (fun after => after.area.env.host.compiler.Standard ∧ (after.area.code.Addressable → Ready module imports after))
    (fun op after hafter => by
      obtain ⟨hhost, hgrows⟩ := answer_grows module op hafter.1
      exact ⟨hhost ▸ hafter.1, fun haddr => (hafter.2 (haddr.of_grows hgrows)).answer op haddr⟩)
    program.run state ⟨hready.standard, fun _ => hready⟩
  rw [show program.run.run (ExecState.answer module) state = (result, state') from hexec] at hafter
  exact hafter.2 haddr

/-- A run that came to an end while all lines have numbers. -/
structure Settled (outcome : Except Error Unit × ExecState) : Prop where
  ended : outcome.1 ≠ .error .stepLimit
  addressable : outcome.2.area.code.Addressable

/-- On the way to the end of a run, all code is in place. -/
theorem Ready.between {α β : Type} (hready : Ready module imports state) {outcome : Except Error β × ExecState}
    (haddr : outcome.2.area.code.Addressable) {first : Exec α} {result : Except Error α}
    (hfirst : first.exec module state = (result, state')) {rest : Exec β}
    (hrest : rest.exec module state' = outcome) :
    Ready module imports state' ∧ state.area.code.Extends state'.area.code := by
  obtain ⟨hhost, hsteps⟩ := exec_steps hready.standard hfirst
  have hgrows := (exec_steps (hhost ▸ hready.standard) hrest).2.grows
  have haddr : state'.area.code.Addressable := haddr.of_grows hgrows
  exact ⟨hready.after hfirst haddr, Placement.Steps.extends hsteps haddr⟩

theorem Ready.addressable (hready : Ready module imports state)
    (hsettled : Settled outcome) {program : Exec Unit} (hexec : program.exec module state = outcome) :
    state.area.code.Addressable :=
  hsettled.addressable.of_grows (exec_steps hready.standard hexec).2.grows

theorem entryOf_exec {α : Type} {program : Exec α} {result : Except Error α}
    (hexec : program.exec module state = (result, state')) {entry : CodeRef}
    (h : state.entryOf module function = some entry) : state'.entryOf module function = some entry := by
  have hrun := ExecState.entryOf_run h program
  rwa [show program.run.run (ExecState.answer module) state = (result, state') from hexec] at hrun

/-! ## Calls -/

/-- Running the code of any function with so much fuel is evaluating the function to some depth. -/
def Agrees (module : Module) (imports : Nat → Option HostLink) (fuel depth : Nat) : Prop :=
  ∀ ⦃state : ExecState⦄ ⦃func : Func⦄ ⦃entry : CodeRef⦄ ⦃lines : List Line⦄ ⦃sp : Nat⦄ ⦃after : Exec Unit⦄
    ⦃outcome : Except Error Unit × ExecState⦄, Ready module imports state →
    functionCode func entry.line = some lines → state.area.code.Holds entry lines → Settled outcome →
    (run module fuel { pc := entry, sp } after).exec module state = outcome →
    (evalFunction module.source imports depth func.source sp >>= fun _ => after).exec module state = outcome

variable {after : Exec Unit}

theorem not_settled_run_zero {call : Activation}
    (hsettled : Settled outcome) (h : (run module 0 call after).exec module state = outcome) : False :=
  hsettled.ended (h ▸ rfl)

/-- Running a function that was made ready for it. -/
theorem run_callee {depth : Nat} (hagrees : Agrees module imports fuel depth) (hready : Ready module imports state)
    {entry : CodeRef} {sp : Nat} (hfunc : module.functions[function]? = some func)
    (hentry : state.entryOf module function = some entry) (hsettled : Settled outcome)
    (h : (run module fuel { pc := entry, sp } after).exec module state = outcome) :
    (evalCallee imports (evalFunction module.source imports depth) function func.source sp >>= fun _ =>
      after).exec module state = outcome := by
  have hstands := hready.stands function func hfunc
  rw [hentry] at hstands
  cases hstands with
  | linked himport hlink hholds =>
    rw [evalCallee, Func.isImport_source, if_pos himport, hlink]
    cases fuel with
    | zero => exact (not_settled_run_zero hsettled h).elim
    | succ fuel => exact (run_native hholds).symm.trans h
  | compiled himport hlines hholds =>
    rw [evalCallee, Func.isImport_source, himport]
    exact hagrees hready hlines hholds hsettled h

/-- Calling a function and going on with the caller. -/
theorem run_call {depth : Nat} (hagrees : Agrees module imports fuel depth) (hready : Ready module imports state)
    {caller : Activation} (hsettled : Settled outcome)
    (h : (prepareCall module function caller >>= Next.run module fuel after).exec module state = outcome) :
    (evalCall module.source imports (evalFunction module.source imports depth) caller.top function caller.operands >>=
      fun operands => run module fuel { caller with operands } after).exec module state = outcome := by
  unfold prepareCall at h
  unfold evalCall
  rw [bind_assoc] at h ⊢
  refine exec_bind_imp h fun entry compiled hcompiled h => ?_
  have hentry : compiled.entryOf module function = some entry := ExecState.entryOf_of_ensureCompiled hcompiled
  obtain ⟨hready, -⟩ := hready.between hsettled.addressable hcompiled h
  rw [Module.getElem?_source]
  cases hfunc : module.functions[function]? with
  | none =>
    rw [hfunc] at h
    exact h
  | some func =>
    rw [hfunc] at h
    simp only [bind_assoc, pure_bind, Option.map_some] at h ⊢
    refine exec_bind_imp h fun operands passed hpassed h => ?_
    obtain ⟨hready, -⟩ := hready.between hsettled.addressable hpassed h
    refine exec_bind_imp h fun _ yielded hyielded h => ?_
    obtain ⟨hready, -⟩ := hready.between hsettled.addressable hyielded h
    have hentry : yielded.entryOf module function = some entry :=
      entryOf_exec hyielded (entryOf_exec hpassed hentry)
    unfold takeResult
    rw [Func.type_source]
    cases hresult : func.type.type.result.isSome with
    | true =>
      rw [hresult] at h
      rw [if_pos rfl, bind_assoc]
      exact run_callee hagrees hready hfunc hentry hsettled h
    | false =>
      rw [hresult] at h
      exact run_callee hagrees hready hfunc hentry hsettled h

/-! ## Blocks -/

/-- One piece of code after the other, each with the fuel that is left. -/
theorem run_then (hready : Ready module imports state) (hsettled : Settled outcome) {first : Exec (Option (List Slot))}
    {middle : List Slot → Exec Unit} {next : List Slot → Exec (Option (List Slot))}
    {finish : Nat → List Slot → Exec Unit} (h : (first >>= resume after middle).exec module state = outcome)
    (hnext : ∀ operands state', Ready module imports state' → state.area.code.Extends state'.area.code →
      (middle operands).exec module state' = outcome →
      ∃ left ≤ fuel, (next operands >>= resume after (finish left)).exec module state' = outcome) :
    ∃ left ≤ fuel, ((first >>= andThen next) >>= resume after (finish left)).exec module state = outcome := by
  cases hfirst : first.exec module state with
  | mk result state' =>
    cases result with
    | error error =>
      refine ⟨0, Nat.zero_le _, ?_⟩
      rw [exec_bind_error hfirst] at h
      rw [bind_assoc, exec_bind_error hfirst]
      exact h
    | ok operands =>
      rw [exec_bind_ok hfirst] at h
      cases operands with
      | none =>
        refine ⟨0, Nat.zero_le _, ?_⟩
        rw [bind_assoc, exec_bind_ok hfirst]
        exact h
      | some operands =>
        obtain ⟨hready', hextends⟩ := hready.between hsettled.addressable hfirst h
        obtain ⟨left, hleft, hfinish⟩ := hnext operands state' hready' hextends h
        refine ⟨left, hleft, ?_⟩
        rw [bind_assoc, exec_bind_ok hfirst]
        exact hfinish

/-- Where the code of a block stands, running it with so much fuel is evaluating it and going on behind it. -/
def Simulates (module : Module) (imports : Nat → Option HostLink) (bound depth : Nat) (block : Block) : Prop :=
  ∀ ⦃fuel page start sp size : Nat⦄ ⦃operands : List Slot⦄ ⦃after : Exec Unit⦄ ⦃state : ExecState⦄
    ⦃outcome : Except Error Unit × ExecState⦄, fuel ≤ bound → Ready module imports state →
    state.area.code.Holds ⟨page, start⟩ (block.code start) → Settled outcome →
    (run module fuel ⟨⟨page, start⟩, sp, size, operands⟩ after).exec module state = outcome →
    ∃ left ≤ fuel,
      (block.eval module.source (evalCall module.source imports (evalFunction module.source imports depth) (sp + size))
        sp operands >>= resume after fun operands =>
          run module left ⟨⟨page, start + block.size⟩, sp, size, operands⟩ after).exec module state = outcome

variable {bound depth : Nat}

theorem simulates_plain (hagrees : ∀ fuel < bound, Agrees module imports fuel depth) {instruction : Instruction}
    (hplain : instruction.isPlain = true) (hrest : Simulates module imports bound depth rest) :
    Simulates module imports bound depth (.plain instruction hplain rest) := by
  intro fuel page start sp size operands after state outcome hfuel hready hcode hsettled h
  cases fuel with
  | zero => exact (not_settled_run_zero hsettled h).elim
  | succ fuel =>
    have hrun := run_instruction hplain hcode.append_left
      (fun function operands hcall => run_call (hagrees fuel hfuel) hready hsettled hcall) h
    obtain ⟨left, hleft, hrun⟩ := run_then hready hsettled hrun fun operands state' hready' hextends hrun =>
      hrest (Nat.le_of_succ_le hfuel) hready' (hcode.append_right.extends hextends) hsettled hrun
    refine ⟨left, Nat.le_succ_of_le hleft, ?_⟩
    rw [Nat.add_assoc] at hrun
    exact hrun

theorem line_lt (haddr : code.Addressable) {line : Nat} {lines : List Line}
    (h : code.Holds ⟨page, line⟩ lines) : line < 0x100000000 := by
  have hlength : line + lines.length ≤ (code.text page).length := h.le_length
  have hpage := haddr page
  omega

theorem holds_when {body : Block} {start : Nat} (h : code.Holds ⟨page, start⟩ ((Block.when body rest).code start)) :
    code.Holds ⟨page, start⟩ [Op.branchUnless.line, .imm (.ofNat (start + 2 + body.size))] ∧
      code.Holds ⟨page, start + 2⟩ (body.code (start + 2)) ∧
      code.Holds ⟨page, start + 2 + body.size⟩ (rest.code (start + 2 + body.size)) := by
  have hsplit : code.Holds ⟨page, start⟩ ([Op.branchUnless.line, .imm (.ofNat (start + 2 + body.size))] ++
      (body.code (start + 2) ++ rest.code (start + 2 + body.size))) := h
  have hrest := hsplit.append_right.append_right
  rw [Block.length_code] at hrest
  exact ⟨hsplit.append_left, hsplit.append_right.append_left, hrest⟩

theorem simulates_when {body : Block} (hbody : Simulates module imports bound depth body)
    (hrest : Simulates module imports bound depth rest) :
    Simulates module imports bound depth (.when body rest) := by
  intro fuel page start sp size operands after state outcome hfuel hready hcode hsettled h
  obtain ⟨hbranch, hcode, hcode'⟩ := holds_when hcode
  have hend : start + (Block.when body rest).size = start + 2 + body.size + rest.size := by
    rw [Block.size]
    omega
  rw [hend]
  cases fuel with
  | zero => exact (not_settled_run_zero hsettled h).elim
  | succ fuel =>
    rw [run_branchUnless hbranch (line_lt (hready.addressable hsettled h) hcode')] at h
    cases operands with
    | nil => exact ⟨0, Nat.zero_le _, h⟩
    | cons condition operands =>
      simp only [pop, pure_bind, Block.eval] at h ⊢
      by_cases hzero : condition = 0
      · simp only [if_pos hzero] at h ⊢
        obtain ⟨left, hleft, hrun⟩ := hrest (Nat.le_of_succ_le hfuel) hready hcode' hsettled h
        exact ⟨left, Nat.le_succ_of_le hleft, hrun⟩
      · simp only [if_neg hzero] at h ⊢
        obtain ⟨middle, hmiddle, hrun⟩ := hbody (Nat.le_of_succ_le hfuel) hready hcode hsettled h
        obtain ⟨left, hleft, hrun⟩ := run_then hready hsettled hrun fun operands state' hready' hextends hrun =>
          hrest (Nat.le_trans hmiddle (Nat.le_of_succ_le hfuel)) hready' (hcode'.extends hextends) hsettled hrun
        exact ⟨left, Nat.le_succ_of_le (Nat.le_trans hleft hmiddle), hrun⟩

/-- The parts of a conditional and where they stand. -/
theorem holds_cond {yes no : Block} {start : Nat} (h : code.Holds ⟨page, start⟩ ((Block.cond yes no rest).code start)) :
    code.Holds ⟨page, start⟩ [Op.branchUnless.line, .imm (.ofNat (start + 2 + yes.size + 2))] ∧
      code.Holds ⟨page, start + 2⟩ (yes.code (start + 2)) ∧
      code.Holds ⟨page, start + 2 + yes.size⟩
        [Op.branch.line, .imm (.ofNat (start + 2 + yes.size + 2 + no.size))] ∧
      code.Holds ⟨page, start + 2 + yes.size + 2⟩ (no.code (start + 2 + yes.size + 2)) ∧
      code.Holds ⟨page, start + 2 + yes.size + 2 + no.size⟩ (rest.code (start + 2 + yes.size + 2 + no.size)) := by
  have hsplit : code.Holds ⟨page, start⟩ ([Op.branchUnless.line, .imm (.ofNat (start + 2 + yes.size + 2))] ++
      (yes.code (start + 2) ++ ([Op.branch.line, .imm (.ofNat (start + 2 + yes.size + 2 + no.size))] ++
        (no.code (start + 2 + yes.size + 2) ++ rest.code (start + 2 + yes.size + 2 + no.size))))) := h
  have hskip := hsplit.append_right.append_right
  rw [Block.length_code] at hskip
  have hrest := hskip.append_right.append_right
  rw [Block.length_code] at hrest
  exact ⟨hsplit.append_left, hsplit.append_right.append_left, hskip.append_left, hskip.append_right.append_left, hrest⟩

/-- The first of two branches is followed by a jump over the second one. -/
theorem Simulates.skip (hrest : Simulates module imports bound depth rest)
    {start line sp size : Nat} {operands : List Slot} (hfuel : fuel ≤ bound) (hready : Ready module imports state)
    (hskip : state.area.code.Holds ⟨page, start⟩ [Op.branch.line, .imm (.ofNat line)])
    (hcode : state.area.code.Holds ⟨page, line⟩ (rest.code line)) (hsettled : Settled outcome)
    (h : (run module fuel ⟨⟨page, start⟩, sp, size, operands⟩ after).exec module state = outcome) :
    ∃ left ≤ fuel,
      (rest.eval module.source (evalCall module.source imports (evalFunction module.source imports depth) (sp + size))
        sp operands >>= resume after fun operands =>
          run module left ⟨⟨page, line + rest.size⟩, sp, size, operands⟩ after).exec module state = outcome := by
  cases fuel with
  | zero => exact (not_settled_run_zero hsettled h).elim
  | succ fuel =>
    rw [run_branch hskip (line_lt (hready.addressable hsettled h) hcode)] at h
    obtain ⟨left, hleft, hrun⟩ := hrest (Nat.le_of_succ_le hfuel) hready hcode hsettled h
    exact ⟨left, Nat.le_succ_of_le hleft, hrun⟩

theorem simulates_cond {yes no : Block} (hyes : Simulates module imports bound depth yes)
    (hno : Simulates module imports bound depth no) (hrest : Simulates module imports bound depth rest) :
    Simulates module imports bound depth (.cond yes no rest) := by
  intro fuel page start sp size operands after state outcome hfuel hready hcode hsettled h
  obtain ⟨hbranch, hcodeYes, hskip, hcodeNo, hcodeRest⟩ := holds_cond hcode
  have hend : start + (Block.cond yes no rest).size = start + 2 + yes.size + 2 + no.size + rest.size := by
    rw [Block.size]
    omega
  rw [hend]
  cases fuel with
  | zero => exact (not_settled_run_zero hsettled h).elim
  | succ fuel =>
    rw [run_branchUnless hbranch (line_lt (hready.addressable hsettled h) hcodeNo)] at h
    cases operands with
    | nil => exact ⟨0, Nat.zero_le _, h⟩
    | cons condition operands =>
      simp only [pop, pure_bind, Block.eval] at h ⊢
      by_cases hzero : condition = 0
      · simp only [if_pos hzero] at h ⊢
        obtain ⟨middle, hmiddle, hrun⟩ := hno (Nat.le_of_succ_le hfuel) hready hcodeNo hsettled h
        obtain ⟨left, hleft, hrun⟩ := run_then hready hsettled hrun fun operands state' hready' hextends hrun =>
          hrest (Nat.le_trans hmiddle (Nat.le_of_succ_le hfuel)) hready' (hcodeRest.extends hextends) hsettled hrun
        exact ⟨left, Nat.le_succ_of_le (Nat.le_trans hleft hmiddle), hrun⟩
      · -- Only this branch has a jump behind it, over the other one.
        simp only [if_neg hzero] at h ⊢
        obtain ⟨middle, hmiddle, hrun⟩ := hyes (Nat.le_of_succ_le hfuel) hready hcodeYes hsettled h
        obtain ⟨left, hleft, hrun⟩ := run_then hready hsettled hrun fun operands state' hready' hextends hrun =>
          hrest.skip (Nat.le_trans hmiddle (Nat.le_of_succ_le hfuel)) hready' (hskip.extends hextends)
            (hcodeRest.extends hextends) hsettled hrun
        exact ⟨left, Nat.le_succ_of_le (Nat.le_trans hleft hmiddle), hrun⟩

/-- Running the code of a block is evaluating the block. -/
theorem simulates_block (hagrees : ∀ fuel < bound, Agrees module imports fuel depth) (block : Block) :
    Simulates module imports bound depth block := by
  induction block with
  | done =>
    intro fuel page start sp size operands after state outcome hfuel hready hcode hsettled h
    exact ⟨fuel, Nat.le_refl _, h⟩
  | plain instruction hplain rest ih => exact simulates_plain hagrees hplain ih
  | when body rest ihbody ih => exact simulates_when ihbody ih
  | cond yes no rest ihyes ihno ih => exact simulates_cond ihyes ihno ih

/-! ## Functions -/

/-- A call opens its frame, runs the body and ends it. -/
theorem evalFunction_succ (source : Module) (imports : Nat → Option HostLink) (depth : Nat)
    {body : List UInt8} {block : Block} (hbody : func.body = some body) (hblock : Block.ofBody body = some block)
    (sp : Nat) :
    evalFunction source imports (depth + 1) func.source sp =
      (openFrame func sp >>= fun size =>
        block.eval source (evalCall source imports (evalFunction source imports depth) (sp + size)) sp [] >>=
          endBody sp) := by
  have hfound : func.source.body.bind Block.ofBody = some block := by simp [Func.source, hbody, hblock]
  simp only [evalFunction, hfound]
  rfl

theorem agrees_succ (hagrees : ∀ less < fuel, Agrees module imports less depth) :
    Agrees module imports (fuel + 1) (depth + 1) := by
  intro state func entry lines sp after outcome hready hlines hholds hsettled h
  obtain ⟨body, block, hbody, hblock, rfl⟩ := functionCode_eq_some.1 hlines
  have hsplit : state.area.code.Holds entry
      ([Op.enter.line, .imm (.ofNat func.type.type.params.length), .imm (.ofNat func.numLocals)] ++
        (block.code (entry.line + 3) ++ [Op.ret.line])) := hholds
  have hret := hsplit.append_right.append_right
  rw [Block.length_code] at hret
  rw [run_enter hsplit.append_left] at h
  rw [evalFunction_succ module.source imports depth hbody hblock, bind_assoc]
  refine exec_bind_imp h fun size opened hopened h => ?_
  obtain ⟨hready, hextends⟩ := hready.between hsettled.addressable hopened h
  obtain ⟨left, -, hrun⟩ := simulates_block hagrees block (Nat.le_refl fuel) hready
    (hsplit.append_right.append_left.extends hextends) hsettled h
  rw [bind_assoc]
  refine exec_bind_imp hrun fun operands returned hreturned hrun => ?_
  cases operands with
  | none => exact hrun
  | some operands =>
    obtain ⟨-, hextends'⟩ := hready.between hsettled.addressable hreturned hrun
    change (run module left _ after).exec module returned = outcome at hrun
    cases left with
    | zero => exact (not_settled_run_zero hsettled hrun).elim
    | succ left => exact (run_ret ((hret.extends hextends).extends hextends')).symm.trans hrun

/-- Running a function is evaluating it: one operation at least goes before each call, so fuel bounds the depth. -/
theorem agrees (hdepth : fuel ≤ depth) : Agrees module imports fuel depth := by
  induction fuel using Nat.strong_induction_on generalizing depth with
  | h fuel ih =>
    match fuel, depth, hdepth with
    | 0, _, _ =>
      intro state func entry lines sp after outcome hready hlines hholds hsettled h
      exact (not_settled_run_zero hsettled h).elim
    | fuel + 1, depth + 1, hdepth =>
      exact agrees_succ fun less hless =>
        ih less (Nat.lt_succ_of_lt hless) (Nat.le_trans (Nat.le_of_lt hless) (Nat.le_of_succ_le_succ hdepth))

end WasmEngine.Threaded

import WasmEngine.Proofs.Code.Area
import WasmEngine.Proofs.Machine.Events

/-!
# What every compiler and every executor keeps

Compilers and executors act only through what they ask of the engine. So a relation between code areas that every
answer keeps is kept by all that they do: `CodeArea.CompileClosed` says what a compiler needs for that,
`CodeArea.ExecClosed` what an executor needs besides.
-/

namespace WasmEngine

/-! ## Writing code -/

namespace CodeArea

/-- A relation between areas that is kept by work on a page that is acquired for it and let go. -/
structure WorkClosed (rel : CodeArea → CodeArea → Prop) : Prop where
  refl : ∀ area, rel area area
  refuse : ∀ {minLines : Nat} {error : Error} {area area' : CodeArea},
    acquire minLines area = .error error area' → rel area area'
  compile : ∀ {α : Type} {minLines page : Nat} {area area' : CodeArea} {program : Compile α} {result : Except Error α}
    {state : CompileState}, acquire minLines area = .ok page area' → area'.compile page program = (result, state) →
    rel area (state.area.release state.page)
  emitAll : ∀ {minLines page : Nat} {area area' : CodeArea} {lines : List Line} {result : Except Error Unit}
    {code : CodeStore}, acquire minLines area = .ok page area' → area'.code.emitAll page lines = (result, code) →
    rel area (release { area' with code } page)

namespace WorkClosed

variable {rel : CodeArea → CodeArea → Prop} (h : WorkClosed rel)

include h

theorem compileFunction (module : Module) (function : Nat) : Keeps rel (CodeArea.compileFunction module function) := by
  intro area
  have hcases := compiled module function area
  generalize CodeArea.compileFunction module function area = result at hcases ⊢
  cases hcases with
  | unknown hfunc => exact h.refl area
  | present hfunc hcode => exact h.refl area
  | unlinked hfunc hcode himport => exact h.refl area
  | refused hfunc hcode himport hacquire => exact h.refuse hacquire
  | failed hfunc hcode himport hacquire hcompile => exact h.compile hacquire hcompile
  | done hfunc hcode himport hacquire hcompile => exact h.compile hacquire hcompile

theorem install (link : HostLink) : Keeps rel (CodeArea.install link) := by
  intro area
  have hcases := installed link area
  generalize CodeArea.install link area = result at hcases ⊢
  cases hcases with
  | refused hacquire => exact h.refuse hacquire
  | failed hacquire hemit => exact h.emitAll hacquire hemit
  | done hacquire hemit => exact h.emitAll hacquire hemit

end WorkClosed

/-- A relation between areas that is kept by every answer to a compiler. -/
structure CompileClosed (rel : CodeArea → CodeArea → Prop) : Prop where
  refl : ∀ area, rel area area
  trans : ∀ {first second third : CodeArea}, rel first second → rel second third → rel first third
  acquire : ∀ minLines : Nat, Keeps rel (acquire minLines)
  release : ∀ (area : CodeArea) (page : Nat), rel area (area.release page)
  emit : ∀ {area : CodeArea} {page : Nat} {line : Line} {address : CodeRef} {code : CodeStore},
    area.code.emit page line = .ok (address, code) → rel area { area with code }
  patch : ∀ {area : CodeArea} {address : CodeRef} {line : Line} {code : CodeStore},
    area.code.patch address line = .ok code → rel area { area with code }
  note : ∀ (area : CodeArea) (text : String), rel area { area with env := area.env.note text }

namespace CompileClosed

variable {rel : CodeArea → CodeArea → Prop} (h : CompileClosed rel)

include h

theorem of_accept {minLines page : Nat} {area area' : CodeArea}
    (hacquire : CodeArea.acquire minLines area = .ok page area') : rel area area' :=
  (h.acquire minLines).of_ok hacquire

theorem of_refuse {minLines : Nat} {error : Error} {area area' : CodeArea}
    (hacquire : CodeArea.acquire minLines area = .error error area') : rel area area' :=
  (h.acquire minLines).of_error hacquire

/-- A page is acquired, something happens, and a page is let go. -/
theorem of_acquire {minLines page page' : Nat} {area area' area'' : CodeArea}
    (hacquire : CodeArea.acquire minLines area = .ok page area') (hwork : rel area' area'') :
    rel area (area''.release page') :=
  h.trans (h.trans (h.of_accept hacquire) hwork) (h.release area'' page')

theorem switchPage (state : CompileState) (minLines : Nat) : rel state.area (state.switchPage minLines).2.area := by
  unfold CompileState.switchPage
  cases hacquire : CodeArea.acquire minLines state.area with
  | error error area => exact h.of_refuse hacquire
  | ok page area => exact h.trans (h.of_accept hacquire) (h.release area state.page)

theorem answer (op : CompileOp) (state : CompileState) : rel state.area (state.answer op).2.area := by
  cases op with
  | emit line =>
    simp only [CompileState.answer]
    cases hemit : state.area.code.emit state.page line with
    | error error => exact h.refl _
    | ok emitted => exact h.emit hemit
  | patch address line =>
    simp only [CompileState.answer]
    cases hpatch : state.area.code.patch address line with
    | error error => exact h.refl _
    | ok code => exact h.patch hpatch
  | switchPage minLines => exact h.switchPage state minLines
  | look => exact h.refl _
  | note text => exact h.note _ text

theorem compile {α : Type} (area : CodeArea) (page : Nat) (program : Compile α) :
    rel area (area.compile page program).2.area := by
  apply Dialogue.run_preserves CompileState.answer (fun state => rel area state.area) _ program.run _ (h.refl area)
  intro op state hstate
  exact h.trans hstate (h.answer op state)

theorem emitAll (env : Environment) (code : CodeStore) (page : Nat) (lines : List Line) :
    rel ⟨env, code⟩ ⟨env, (code.emitAll page lines).2⟩ := by
  induction lines generalizing code with
  | nil => exact h.refl _
  | cons line lines ih =>
    unfold CodeStore.emitAll
    cases hemit : code.emit page line with
    | error error => exact h.refl _
    | ok emitted =>
      have hemitted : rel ⟨env, code⟩ ⟨env, emitted.2⟩ := h.emit hemit
      exact h.trans hemitted (ih emitted.2)

theorem work : WorkClosed rel where
  refl := h.refl
  refuse := h.of_refuse
  compile {_ _ page _ area' program _ _} hacquire hcompile := by
    have hcompiled := h.compile area' page program
    rw [hcompile] at hcompiled
    exact h.of_acquire hacquire hcompiled
  emitAll {_ page _ area' lines _ _} hacquire hemit := by
    have hemitted := h.emitAll area'.env area'.code page lines
    rw [hemit] at hemitted
    exact h.of_acquire hacquire hemitted

theorem compileFunction (module : Module) (function : Nat) : Keeps rel (CodeArea.compileFunction module function) :=
  h.work.compileFunction module function

theorem install (link : HostLink) : Keeps rel (CodeArea.install link) :=
  h.work.install link

end CompileClosed

/-! ## Running code -/

end CodeArea

/-- The environment after a linear memory has grown, or failed to. -/
def Environment.grown (env : Environment) (memory : LinearMemory) (pages : Nat) : Environment :=
  { env with heap := (stateAfter (LinearMemory.growTo pages ⟨memory, env.heap⟩)).heap }

namespace CodeArea

/-- A relation between areas that is kept by every answer to an executor. -/
structure ExecClosed (rel : CodeArea → CodeArea → Prop) : Prop extends CompileClosed rel where
  grow : ∀ (area : CodeArea) (memory : LinearMemory) (pages : Nat),
    rel area { area with env := area.env.grown memory pages }
  yields : ∀ (area : CodeArea) (yields : Nat), rel area { area with env := { area.env with yields } }

end CodeArea

/-- The code pages of a machine in its environment. -/
def MachineState.area (state : MachineState) : CodeArea :=
  ⟨state.env, state.machine.code⟩

namespace ExecState

/-- A property of a code area and a linear memory that every answer to an executor keeps. -/
structure Closed (kept : CodeArea → LinearMemory → Prop) : Prop where
  memory : ∀ {area : CodeArea} {memory : LinearMemory} {after : MemoryState},
    MemoryState.Event ⟨memory, area.env.heap⟩ after → kept area memory →
      kept { area with env := { area.env with heap := after.heap } } after.memory
  compileFunction : ∀ (module : Module) (function : Nat) {area : CodeArea} {memory : LinearMemory}, kept area memory →
    kept (stateAfter (CodeArea.compileFunction module function area)) memory
  yields : ∀ (yields : Nat) {area : CodeArea} {memory : LinearMemory}, kept area memory →
    kept { area with env := { area.env with yields } } memory
  note : ∀ (text : String) {area : CodeArea} {memory : LinearMemory}, kept area memory →
    kept { area with env := area.env.note text } memory

namespace Closed

variable {kept : CodeArea → LinearMemory → Prop} (h : Closed kept) {state : ExecState}
  (hkept : kept state.area state.memory)

include h hkept

theorem answerFrame (base : Nat) (op : FrameOp) :
    kept (answerFrame base op state).2.area (answerFrame base op state).2.memory := by
  cases op with
  | slot index =>
    simp only [ExecState.answerFrame]
    split <;> exact hkept
  | setSlot index value =>
    simp only [ExecState.answerFrame]
    split <;> exact hkept
  | memory => exact hkept
  | writeMemory offset data =>
    simp only [ExecState.answerFrame]
    cases hwrite : state.memory.write offset data with
    | ok memory => exact h.memory (.write state.area.env.heap hwrite) hkept
    | error error => exact hkept
  | growMemory pages =>
    have hgrown := h.memory (.grow pages ⟨state.memory, state.area.env.heap⟩) hkept
    simp only [ExecState.answerFrame]
    cases hgrow : LinearMemory.growTo pages ⟨state.memory, state.area.env.heap⟩ <;> rwa [hgrow] at hgrown

theorem callNative (function : HostFunction) (sp : Nat) (cookie : Option UInt64) :
    kept (callNative function sp cookie state).2.area (callNative function sp cookie state).2.memory := by
  unfold ExecState.callNative
  split
  · exact Dialogue.run_preserves (ExecState.answerFrame sp) (fun after => kept after.area after.memory)
      (fun op _ hafter => h.answerFrame hafter sp op) _ state hkept
  · exact hkept

theorem ensureCompiled (module : Module) (function : Nat) :
    kept (ensureCompiled module function state).2.area (ensureCompiled module function state).2.memory := by
  have hcompiled := h.compileFunction module function hkept
  unfold ExecState.ensureCompiled
  split
  · exact hkept
  · cases hcompile : CodeArea.compileFunction module function state.area <;> rwa [hcompile] at hcompiled

theorem answer (module : Module) (op : ExecOp) :
    kept (ExecState.answer module op state).2.area (ExecState.answer module op state).2.memory := by
  cases op with
  | fetch address =>
    simp only [ExecState.answer]
    split <;> exact hkept
  | ensureCompiled function => exact h.ensureCompiled hkept module function
  | yieldNow =>
    simp only [ExecState.answer, Environment.yieldNow]
    cases state.area.env.host.onYield state.area.env.yields <;> exact h.yields _ hkept
  | callNative function sp cookie => exact h.callNative hkept function sp cookie
  | slotCount => exact hkept
  | frame op => exact h.answerFrame hkept 0 op
  | note text => exact h.note text hkept

omit hkept in
theorem execute (module : Module) (purpose : CallPurpose) (entry : CodeRef) (state : ExecState)
    (hkept : kept state.area state.memory) :
    kept (execute module purpose entry state).2.area (execute module purpose entry state).2.memory :=
  Dialogue.run_preserves (ExecState.answer module) (fun after => kept after.area after.memory)
    (fun op _ hafter => h.answer hafter module op) _ state hkept

end Closed

end ExecState

/-- What the evaluation of a constant expression leaves behind. -/
inductive Machine.Evaluated (module : Module) (expr : List UInt8) (type : ValType) (state : MachineState) :
    MachineState → Prop where
  /-- There is no page for the code. -/
  | refused {error : Error} {area : CodeArea}
      (hacquire : CodeArea.acquire state.env.config.freeLineThreshold state.area = .error error area) :
      Evaluated module expr type state ⟨area.env, { state.machine with code := area.code }⟩
  /-- The expression cannot be compiled. -/
  | failed {page : Nat} {area : CodeArea} {error : Error} {after : CompileState}
      (hacquire : CodeArea.acquire state.env.config.freeLineThreshold state.area = .ok page area)
      (hcompile : area.compile page (area.env.host.compiler.constExpr module expr type) = (.error error, after)) :
      Evaluated module expr type state
        ⟨(after.area.release after.page).env, { state.machine with code := (after.area.release after.page).code }⟩
  /-- Its code runs, whether or not it succeeds. -/
  | ran {page length : Nat} {area : CodeArea} {after : CompileState} {result : Except Error Unit} {exec : ExecState}
      (hacquire : CodeArea.acquire state.env.config.freeLineThreshold state.area = .ok page area)
      (hcompile : area.compile page (area.env.host.compiler.constExpr module expr type) = (.ok length, after))
      (hexecute : ExecState.execute module .constExpr after.entry
        { area := after.area, stack := state.machine.stack, memory := state.machine.memory } = (result, exec)) :
      Evaluated module expr type state
        ⟨(exec.area.release after.page).env,
          { state.machine with code := (exec.area.release after.page).code, stack := exec.stack, memory := exec.memory }⟩

theorem Machine.evaluated (module : Module) (expr : List UInt8) (type : ValType) (state : MachineState) :
    Evaluated module expr type state (stateAfter (evaluate module expr type state)) := by
  unfold evaluate
  dsimp only
  cases hacquire : CodeArea.acquire state.env.config.freeLineThreshold ⟨state.env, state.machine.code⟩ with
  | error error area => exact .refused hacquire
  | ok page area =>
    dsimp only
    rcases hcompile : area.compile page (area.env.host.compiler.constExpr module expr type) with ⟨compiled, after⟩
    cases compiled with
    | error error => exact .failed hacquire hcompile
    | ok length =>
      dsimp only
      rcases hexecute : ExecState.execute module .constExpr after.entry
        { area := after.area, stack := state.machine.stack, memory := state.machine.memory } with ⟨result, exec⟩
      cases result with
      | error error => exact .ran hacquire hcompile hexecute
      | ok done =>
        dsimp only
        cases exec.stack[0]? <;> exact .ran hacquire hcompile hexecute

namespace CodeArea.ExecClosed

variable {rel : CodeArea → CodeArea → Prop} (h : ExecClosed rel)

include h

theorem closed (area : CodeArea) : ExecState.Closed fun area' _ => rel area area' where
  memory hevent hrel := by
    cases hevent with
    | write heap hwrite => exact hrel
    | grow pages state => exact h.trans hrel (h.grow _ _ pages)
  compileFunction module function _ _ hrel := h.trans hrel (h.compileFunction module function _)
  yields yields _ _ hrel := h.trans hrel (h.yields _ yields)
  note text _ _ hrel := h.trans hrel (h.note _ text)

theorem execute (module : Module) (purpose : CallPurpose) (entry : CodeRef) (state : ExecState) :
    rel state.area (ExecState.execute module purpose entry state).2.area :=
  (h.closed state.area).execute module purpose entry state (h.refl _)

/-- Once a page is acquired, or not, the rest of an evaluation follows. -/
theorem evaluate_acquired (module : Module) (expr : List UInt8) (type : ValType) (state : MachineState) :
    rel (stateAfter (acquire state.env.config.freeLineThreshold state.area))
      (stateAfter (Machine.evaluate module expr type state)).area := by
  have hevaluated := Machine.evaluated module expr type state
  generalize stateAfter (Machine.evaluate module expr type state) = state' at hevaluated ⊢
  cases hevaluated with
  | refused hacquire =>
    rw [hacquire]
    exact h.refl _
  | @failed page area error after hacquire hcompile =>
    have hcompiled := h.compile area page (area.env.host.compiler.constExpr module expr type)
    rw [hcompile] at hcompiled
    rw [hacquire]
    have hfailed : rel area (after.area.release after.page) := h.trans hcompiled (h.release _ _)
    exact hfailed
  | @ran page length area after result exec hacquire hcompile hexecute =>
    have hcompiled := h.compile area page (area.env.host.compiler.constExpr module expr type)
    have hexecuted := h.execute module .constExpr after.entry
      { area := after.area, stack := state.machine.stack, memory := state.machine.memory }
    rw [hcompile] at hcompiled
    rw [hexecute] at hexecuted
    rw [hacquire]
    have hran : rel area (exec.area.release after.page) := h.trans (h.trans hcompiled hexecuted) (h.release _ _)
    exact hran

theorem evaluate (module : Module) (expr : List UInt8) (type : ValType) :
    Keeps (fun state state' => rel state.area state'.area) (Machine.evaluate module expr type) :=
  fun state => h.trans (h.acquire _ _) (h.evaluate_acquired module expr type state)

end CodeArea.ExecClosed

/-! ## Constant expressions -/

/-- Either there is no scratch machine, or the constant expression is evaluated on one that is then disposed of. -/
theorem Environment.evaluated (module : Module) (expr : List UInt8) (type : ValType) (env : Environment) :
    stateAfter (constValue module expr type env) = env ∨
      ∃ scratch created, Machine.create env.config.constSlots env = .ok scratch created ∧
        let state := stateAfter (Machine.evaluate module expr type ⟨created, scratch⟩)
        stateAfter (constValue module expr type env) = state.machine.dispose state.env := by
  unfold constValue
  change stateAfter (EStateM.bind (Machine.create env.config.constSlots) _ env) = env ∨ ∃ scratch created, _ ∧
    stateAfter (EStateM.bind (Machine.create env.config.constSlots) _ env) = _
  unfold EStateM.bind
  cases hcreate : Machine.create env.config.constSlots env with
  | error error env' => exact .inl (Machine.create_eq_error hcreate)
  | ok scratch created =>
    refine .inr ⟨scratch, created, rfl, ?_⟩
    simp only [run_get_bind]
    cases Machine.evaluate module expr type ⟨created, scratch⟩ with
    | ok value state => rfl
    | error error state => rfl

/-! ## Loading -/

/-- The environments of two points of loading are related. -/
def Loading.Along (rel : Environment → Environment → Prop) (state state' : Loading) : Prop :=
  rel state.env state'.env

instance (rel : Environment → Environment → Prop) [Std.Refl rel] : Std.Refl (Loading.Along rel) where
  refl state := Std.Refl.refl state.env

instance (rel : Environment → Environment → Prop) [IsTrans Environment rel] : IsTrans Loading (Loading.Along rel) where
  trans _ _ _ first second := IsTrans.trans (r := rel) _ _ _ first second

namespace LoadM

open Loading (Along)

section ConstValue

variable {state : Loading} {env' : Environment}

theorem constValue_of_ok {expr : List UInt8} {type : ValType} {value : Slot × Nat}
    (h : Environment.constValue state.module expr type state.env = .ok value env') :
    constValue expr type state = .ok value { state with env := env' } := by
  unfold constValue
  rw [h]

theorem constValue_of_error {expr : List UInt8} {type : ValType} {error : Error}
    (h : Environment.constValue state.module expr type state.env = .error error env') :
    constValue expr type state = .error error { state with env := env' } := by
  unfold constValue
  rw [h]

/-- Of all that loading works on, evaluating a constant expression changes the environment only. -/
theorem stateAfter_constValue (expr : List UInt8) (type : ValType) (state : Loading) :
    stateAfter (constValue expr type state) =
      { state with env := stateAfter (Environment.constValue state.module expr type state.env) } := by
  unfold constValue
  cases Environment.constValue state.module expr type state.env with
  | ok value env => rfl
  | error error env => rfl

end ConstValue

variable {rel : Environment → Environment → Prop} [Std.Refl rel]

theorem along_read {α : Type} (program : Read α) : Keeps (Along rel) (read program) := by
  intro state
  unfold read
  cases program state.input <;> exact Std.Refl.refl state.env

variable [IsTrans Environment rel]
  (hconst : ∀ (module : Module) (expr : List UInt8) (type : ValType),
    Keeps rel (Environment.constValue module expr type))

include hconst

omit [Std.Refl rel] [IsTrans Environment rel] in
theorem along_constValue (expr : List UInt8) (type : ValType) : Keeps (Along rel) (constValue expr type) := by
  intro state
  rw [stateAfter_constValue]
  exact hconst state.module expr type state.env

theorem along_copySegment (segment : DataSegment) : Keeps (Along rel) (copySegment segment) := by
  refine .bind (along_constValue hconst _ _) fun (slot, _) => ?_
  intro state
  change Along rel state (stateAfter ((if !state.memory.allocated then _ else _ : LoadM Unit) state))
  split
  · exact Std.Refl.refl state.env
  · dsimp only
    split
    · exact Std.Refl.refl state.env
    · cases state.memory.write slot.toNat segment.bytes <;> exact Std.Refl.refl state.env

theorem along_closed : Closed fun _ program => Keeps (Along rel) program where
  pure := .pure
  throw _ := .throw _
  bind := .bind
  get := .get
  constValue := along_constValue hconst
  number := along_read _
  skip _ := along_read _
  copySegment := along_copySegment hconst
  modify hplace _ := .modify fun state => by
    unfold Along
    rw [(hplace state).1]
    exact Std.Refl.refl state.env

omit hconst [IsTrans Environment rel] in
theorem along_sizeMemory
    (hgrow : ∀ (env : Environment) (memory : LinearMemory) (pages : Nat), rel env (env.grown memory pages)) :
    Keeps (Along rel) sizeMemory := by
  intro state
  have hgrown := hgrow state.env (state.memory.setMaxPages (state.module.maxPages state.env.config))
    (state.module.memory.getD ⟨0, none⟩).initial
  unfold Environment.grown at hgrown
  unfold sizeMemory
  split
  · exact Std.Refl.refl state.env
  · dsimp only
    cases hgrow : LinearMemory.growTo (state.module.memory.getD ⟨0, none⟩).initial
        ⟨state.memory.setMaxPages (state.module.maxPages state.env.config), state.env.heap⟩ <;> rwa [hgrow] at hgrown

/-- What every evaluation of a constant expression and every growth of a memory keeps, loading keeps. -/
theorem along_prepare
    (hgrow : ∀ (env : Environment) (memory : LinearMemory) (pages : Nat), rel env (env.grown memory pages)) :
    Keeps (Along rel) prepare :=
  .bind (along_sizeMemory hgrow) fun _ => (along_closed hconst).fill

end LoadM

end WasmEngine

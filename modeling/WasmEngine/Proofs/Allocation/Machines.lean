import WasmEngine.Proofs.Allocation.Steps

/-!
# Operations of machines are sequences of allocation steps

A compiler holds one page at a time and lets go of it when it is done, whether or not it succeeded. `CodeArea.Travels`
says that two areas are the ends of a sequence of steps, whatever other machines there are.
-/

namespace WasmEngine

open Engine (Reaches)

/-- Steps lead from one area to another, with the same pages held before and after. -/
def CodeArea.Travels (area area' : CodeArea) : Prop :=
  ∀ (held : List Nat) (places : Multiset Workplace),
    Reaches ⟨area.env, ⟨area.code, held⟩ ::ₘ places⟩ ⟨area'.env, ⟨area'.code, held⟩ ::ₘ places⟩

namespace CodeArea.Travels

variable {first second third : CodeArea}

theorem refl (area : CodeArea) : Travels area area :=
  fun _ _ => .refl

theorem trans (h : Travels first second) (h' : Travels second third) : Travels first third :=
  fun held places => (h held places).trans (h' held places)

theorem tend {env env' : Environment} (code : CodeStore) (h : env.SamePages env') : Travels ⟨env, code⟩ ⟨env', code⟩ :=
  fun _ _ => .single (.tend _ h)

end CodeArea.Travels

/-! ## Compiling -/

namespace CompileState

/-- Steps lead from one point of a compilation to another, with the current page held. -/
def Travels (state state' : CompileState) : Prop :=
  ∀ (held : List Nat) (places : Multiset Workplace),
    Reaches ⟨state.area.env, ⟨state.area.code, state.page :: held⟩ ::ₘ places⟩
      ⟨state'.area.env, ⟨state'.area.code, state'.page :: held⟩ ::ₘ places⟩

theorem switchPage_travels (state : CompileState) (minLines : Nat) : Travels state (state.switchPage minLines).2 := by
  intro held places
  unfold switchPage
  cases h : CodeArea.acquire minLines state.area with
  | error error area => exact .single (.refuse _ _ h)
  | ok page area =>
    have hacquire : Reaches ⟨state.area.env, ⟨state.area.code, state.page :: held⟩ ::ₘ places⟩
        ⟨area.env, ⟨area.code, page :: state.page :: held⟩ ::ₘ places⟩ := .single (.acquire _ _ h)
    have hmem : state.page ∈ page :: state.page :: held := List.mem_cons_of_mem _ (List.mem_cons_self ..)
    -- Should the new page be the current one, one of the two entries is left.
    have herase : (page :: state.page :: held).erase state.page = page :: held := by
      by_cases hsame : page = state.page
      · rw [hsame, List.erase_cons_head]
      · rw [List.erase_cons_tail (by simpa using hsame), List.erase_cons_head]
    have hrelease := Engine.Step.release area.env area.code places hmem
    rw [herase] at hrelease
    exact hacquire.tail hrelease

theorem answer_travels (op : CompileOp) (state : CompileState) : Travels state (answer op state).2 := by
  intro held places
  cases op with
  | emit line =>
    simp only [answer]
    cases h : state.area.code.emit state.page line with
    | error error => exact .refl
    | ok emitted => exact .single (.emit _ _ (List.mem_cons_self ..) h)
  | patch address line =>
    simp only [answer]
    cases h : state.area.code.patch address line with
    | error error => exact .refl
    | ok code => exact .single (.patch _ _ _ h)
  | switchPage minLines => exact switchPage_travels state minLines held places
  | look => exact .refl
  | note text => exact .single (.tend _ (.rest ..))

end CompileState

namespace CodeArea

/-- A compiling program that starts on a held page ends on a held page. -/
theorem compile_travels {α : Type} (area : CodeArea) (page : Nat) (program : Compile α) :
    CompileState.Travels (.start area page) (area.compile page program).2 := by
  refine Dialogue.run_preserves CompileState.answer (CompileState.Travels (.start area page)) ?_ program.run _
    fun _ _ => .refl
  intro op state hstate held places
  exact (hstate held places).trans (CompileState.answer_travels op state held places)

/-- The page that was acquired last is let go. -/
theorem reaches_release (area : CodeArea) (page : Nat) (held : List Nat) (places : Multiset Workplace) :
    Reaches ⟨area.env, ⟨area.code, page :: held⟩ ::ₘ places⟩
      ⟨(area.release page).env, ⟨(area.release page).code, held⟩ ::ₘ places⟩ := by
  have hmem : page ∈ page :: held := List.mem_cons_self ..
  have hrelease := Engine.Step.release area.env area.code places hmem
  rw [List.erase_cons_head] at hrelease
  exact .single hrelease

/-- A page is acquired, something happens with it held, and a page is let go. -/
theorem travels_of_acquire {minLines page page' : Nat} {area area' area'' : CodeArea}
    (hacquire : acquire minLines area = .ok page area')
    (hwork : ∀ (held : List Nat) (places : Multiset Workplace),
      Reaches ⟨area'.env, ⟨area'.code, page :: held⟩ ::ₘ places⟩
        ⟨area''.env, ⟨area''.code, page' :: held⟩ ::ₘ places⟩) :
    Travels area (area''.release page') := by
  intro held places
  have hstart : Reaches ⟨area.env, ⟨area.code, held⟩ ::ₘ places⟩
      ⟨area'.env, ⟨area'.code, page :: held⟩ ::ₘ places⟩ := .single (.acquire _ _ hacquire)
  exact (hstart.trans (hwork held places)).trans (reaches_release area'' page' held places)

theorem travels_of_refuse {minLines : Nat} {error : Error} {area area' : CodeArea}
    (hacquire : acquire minLines area = .error error area') : Travels area area' :=
  fun _ _ => .single (.refuse _ _ hacquire)

theorem emitAll_reaches (env : Environment) (code : CodeStore) (page : Nat) (lines : List Line) (held : List Nat)
    (places : Multiset Workplace) :
    Reaches ⟨env, ⟨code, page :: held⟩ ::ₘ places⟩ ⟨env, ⟨(code.emitAll page lines).2, page :: held⟩ ::ₘ places⟩ := by
  induction lines generalizing code with
  | nil => exact .refl
  | cons line lines ih =>
    unfold CodeStore.emitAll
    cases h : code.emit page line with
    | error error => exact .refl
    | ok emitted => exact .head (.emit _ _ (List.mem_cons_self ..) h) (ih emitted.2)

theorem travels_work : WorkClosed Travels where
  refl := .refl
  refuse := travels_of_refuse
  compile {_ _ page _ area' program _ _} hacquire hcompile := by
    have hcompiled := area'.compile_travels page program
    rw [hcompile] at hcompiled
    exact travels_of_acquire hacquire hcompiled
  emitAll {_ page _ area' lines _ _} hacquire hemit := by
    have hemitted := emitAll_reaches area'.env area'.code page lines
    rw [hemit] at hemitted
    exact travels_of_acquire hacquire hemitted

theorem config_install {link : HostLink} {area area' : CodeArea} {entry : CodeRef}
    (h : install link area = .ok entry area') : area'.env.config = area.env.config :=
  (Engine.Reaches.fixed ((travels_work.install link).of_ok h [] 0)).1

end CodeArea

/-! ## Running -/

theorem CodeArea.travels_closed (area : CodeArea) : ExecState.Closed fun area' _ => area.Travels area' where
  memory _ htravels := htravels.trans (.tend _ (.rest ..))
  compileFunction module function _ _ htravels := htravels.trans (travels_work.compileFunction module function _)
  yields _ _ _ htravels := htravels.trans (.tend _ (.rest ..))
  note _ _ _ htravels := htravels.trans (.tend _ (.rest ..))

theorem ExecState.answer_travels (module : Module) (op : ExecOp) (state : ExecState) :
    state.area.Travels (answer module op state).2.area :=
  state.area.travels_closed.answer (.refl _) module op

theorem ExecState.execute_travels (module : Module) (purpose : CallPurpose) (entry : CodeRef) (state : ExecState) :
    state.area.Travels (execute module purpose entry state).2.area :=
  state.area.travels_closed.execute module purpose entry state (.refl _)

/-! ## Machines -/

theorem Machine.evaluate_travels (module : Module) (expr : List UInt8) (type : ValType) :
    Keeps (fun state state' => state.area.Travels state'.area) (Machine.evaluate module expr type) := by
  intro state
  have hevaluated := evaluated module expr type state
  generalize stateAfter (evaluate module expr type state) = state' at hevaluated ⊢
  cases hevaluated with
  | refused hacquire => exact CodeArea.travels_of_refuse hacquire
  | failed hacquire hcompile => exact CodeArea.travels_work.compile hacquire hcompile
  | @ran page length area after result exec hacquire hcompile hexecute =>
    have hcompiled := area.compile_travels page (area.env.host.compiler.constExpr module expr type)
    have hexecuted := ExecState.execute_travels module .constExpr after.entry
      { area := after.area, stack := state.machine.stack, memory := state.machine.memory }
    rw [hcompile] at hcompiled
    rw [hexecute] at hexecuted
    -- The page of the expression stays held while its code runs.
    exact CodeArea.travels_of_acquire hacquire fun held places =>
      (hcompiled held places).trans (hexecuted (after.page :: held) places)

theorem Machine.samePages_dispose (machine : Machine) (env : Environment) :
    (env.recycle machine.code.drain).SamePages (machine.dispose env) := by
  unfold Machine.dispose
  cases machine.memory.grant with
  | none => exact .refl _
  | some block => exact .rest ..

theorem Machine.reaches_dispose (machine : Machine) (env : Environment) (places : Multiset Workplace) :
    Reaches ⟨env, ⟨machine.code, []⟩ ::ₘ places⟩ ⟨machine.dispose env, places⟩ :=
  .head (.leave _ _ _) (.single (.tend _ (machine.samePages_dispose env)))

theorem Environment.constValue_reaches (module : Module) (expr : List UInt8) (type : ValType) (env : Environment)
    (places : Multiset Workplace) :
    Reaches ⟨env, places⟩ ⟨stateAfter (Environment.constValue module expr type env), places⟩ := by
  rcases evaluated module expr type env with hsame | ⟨scratch, created, hcreate, hafter⟩
  · rw [hsame]
  · obtain ⟨hcode, -, hsame⟩ := Machine.create_eq_ok hcreate
    have hstart : Reaches ⟨env, places⟩ ⟨created, ⟨scratch.code, []⟩ ::ₘ places⟩ := by
      rw [hcode]
      exact .head (.tend _ hsame) (.single (.arrive _ _))
    have hevaluated := Machine.evaluate_travels module expr type ⟨created, scratch⟩
    rw [hafter]
    exact (hstart.trans (hevaluated [] places)).trans (Machine.reaches_dispose _ _ places)

theorem Environment.Event.reaches {env env' : Environment} (h : env.Event env') (places : Multiset Workplace) :
    Reaches ⟨env, places⟩ ⟨env', places⟩ := by
  cases h with
  | constant module expr type => exact Environment.constValue_reaches module expr type env places
  | tend hsame hheap => exact .single (.tend _ hsame)

namespace MachineState

theorem Event.travels {permit : Permit} {state state' : MachineState} (h : Event permit state state') :
    state.area.Travels state'.area := by
  cases h with
  | environment machine hevent => exact fun held places => hevent.reaches _
  | @tend env machine machine' hmodules hcode hmemory =>
    unfold MachineState.area
    rw [hcode]
    exact .refl _
  | bound env machine pages hbounds => exact .refl _
  | memory hevent => exact .tend _ (.rest ..)
  | compile hmodule hcompile => exact (CodeArea.travels_work.compileFunction _ _).of_ok hcompile
  | failCompile hmodule hcompile => exact (CodeArea.travels_work.compileFunction _ _).of_error hcompile
  | link hfunc hlinks hinstall => exact (CodeArea.travels_work.install _).of_ok hinstall
  | failLink hinstall => exact (CodeArea.travels_work.install _).of_error hinstall
  | @run env machine index module purpose entry result after hmodule hexecute =>
    have hexecuted := ExecState.execute_travels module purpose entry
      { area := ⟨env, machine.code⟩, stack := machine.stack, memory := machine.memory }
    rw [hexecute] at hexecuted
    exact hexecuted
  | push env machine hloads => exact .refl _

/-- An operation of a machine that holds no page is a sequence of steps. -/
theorem Events.reaches {permit : Permit} {state state' : MachineState} (h : Events permit state state')
    (places : Multiset Workplace) :
    Reaches ⟨state.env, ⟨state.machine.code, []⟩ ::ₘ places⟩ ⟨state'.env, ⟨state'.machine.code, []⟩ ::ₘ places⟩ := by
  induction h with
  | refl => exact .refl
  | tail _ hevent ih => exact ih.trans (hevent.travels [] places)

end MachineState

end WasmEngine

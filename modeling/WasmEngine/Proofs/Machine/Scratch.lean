import WasmEngine.Proofs.Machine.Constants

/-!
# One code page for all constant expressions of a module

A scratch machine with the threaded compiler takes hold of one page and leaves it in the pool, where the next one finds
it (`CodePage.Replenishes`). That is so as long as the executor takes no page of the heap itself.
-/

namespace WasmEngine

open Threaded

/-! ## Pages -/

namespace CodePage

/-- Pages with some room are taken and given back: none is lost, and at most one is new, if none had that room. -/
structure Replenishes (room : Nat) (pages pages' : List CodePage) : Prop where
  kept : pages.Subperm pages'
  most : pages'.length ≤ pages.length + 1
  enough : (∃ page ∈ pages, room ≤ page.freeLines) → pages'.length ≤ pages.length
  roomy : pages.length < pages'.length → ∃ page ∈ pages', room ≤ page.freeLines

namespace Replenishes

variable {room : Nat} {first second third : List CodePage}

theorem refl (room : Nat) (pages : List CodePage) : Replenishes room pages pages :=
  ⟨.refl _, Nat.le_succ _, fun _ => Nat.le_refl _, fun h => absurd h (Nat.lt_irrefl _)⟩

/-- A page with room stays. -/
theorem exists_of_exists (h : Replenishes room first second) (hroom : ∃ page ∈ first, room ≤ page.freeLines) :
    ∃ page ∈ second, room ≤ page.freeLines := by
  obtain ⟨page, hpage, hle⟩ := hroom
  exact ⟨page, h.kept.subset hpage, hle⟩

theorem trans (h : Replenishes room first second) (h' : Replenishes room second third) :
    Replenishes room first third where
  kept := h.kept.trans h'.kept
  most := by
    have hfirst := h.most
    have hsecond := h'.most
    by_cases hnew : first.length < second.length
    · have henough := h'.enough (h.roomy hnew)
      omega
    · omega
  enough hroom := Nat.le_trans (h'.enough (h.exists_of_exists hroom)) (h.enough hroom)
  roomy hnew := by
    by_cases hfirst : first.length < second.length
    · exact h'.exists_of_exists (h.roomy hfirst)
    · exact h'.roomy (by omega)

/-- It is enough to know of pages that are kept, and outnumber the last ones. -/
theorem of_le (h : Replenishes room first second) (hkept : second.Subperm third)
    (hle : third.length ≤ second.length) : Replenishes room first third where
  kept := h.kept.trans hkept
  most := Nat.le_trans hle h.most
  enough hroom := Nat.le_trans hle (h.enough hroom)
  roomy hnew := by
    obtain ⟨page, hpage, hroom⟩ := h.roomy (by omega)
    exact ⟨page, hkept.subset hpage, hroom⟩

theorem of_perm (h : Replenishes room first second) (hperm : third.Perm second) : Replenishes room first third :=
  h.of_le hperm.symm.subperm (Nat.le_of_eq hperm.length_eq)

end Replenishes

end CodePage

/-- A machine without code takes hold of a page of the pool with enough room, or else of a new one. -/
theorem CodeArea.replenishes_acquire {env : Environment} (htidy : env.pool.Tidy) (minLines : Nat) :
    CodePage.Replenishes minLines env.pool.batches.flatten (stateAfter (acquire minLines ⟨env, {}⟩)).stock := by
  have hstock := stock_empty htidy
  rcases stock_acquire minLines ⟨env, {}⟩ with hperm | ⟨page, heap, -, hpool, halloc, hnew⟩
  · rw [hstock] at hperm
    exact (CodePage.Replenishes.refl _ _).of_perm hperm
  · rw [hnew, hstock]
    refine ⟨(List.sublist_append_left _ _).subperm, by simp, ?_, fun _ => ⟨page.reset, by simp, ?_⟩⟩
    · rintro ⟨other, hother, hroom⟩
      exact absurd hroom (Nat.not_le.2 (PagePool.lt_of_take_eq_none hpool other hother))
    · rw [(CodePage.allocate_eq_some halloc).1.reset_eq]
      exact CodePage.le_freeLines_of_allocate halloc

/-! ## Executors -/

/-- An executor takes no page of the heap when it runs the code of a constant expression. -/
def Executor.Frugal (executor : Executor) : Prop :=
  ∀ (module : Module) (instructions : List Instruction) (entry : CodeRef) (state : ExecState),
    (∀ instruction ∈ instructions, instruction.IsConstant) →
    state.area.code.Holds entry (constantCode instructions) →
    ((executor.run module .constExpr entry).exec module state).2.area.pages.length ≤ state.area.pages.length

/-- Leaving a result works on the stack only. -/
theorem Threaded.area_leave (result : Except Error (List Slot)) (module : Module) (state : ExecState) :
    ((Exec.check result >>= leave 0).exec module state).2.area = state.area := by
  cases result with
  | error error => rfl
  | ok operands =>
    cases operands with
    | nil => rfl
    | cons value operands =>
      change ((Exec.setSlot 0 value).exec module state).2.area = state.area
      rcases Nat.lt_or_ge 0 state.stack.size with hlt | hle
      · rw [Exec.exec_setSlot hlt]
      · rw [Exec.exec_setSlot_of_le hle]

/-- The threaded executor compiles nothing but functions that are called. -/
theorem Threaded.frugal_executor (fuel : Nat) : (executor fuel).Frugal := by
  intro module instructions entry state hconstant hcode
  rw [exec_executor hconstant hcode, area_leave]

/-! ## Scratch machines -/

theorem CompileState.length_pages_withLines (state : CompileState) (page : CodePage) (lines : List Line) :
    (state.withLines page lines).area.pages.length = state.area.pages.length := by
  simp [withLines, CodeArea.pages]

/-- Compiling a constant expression takes no page. -/
theorem CodeArea.length_pages_compileConstExpr {area : CodeArea} {page : Nat} (hlt : page < area.code.pages.size)
    (expr : List UInt8) : (area.compile page (compileConstExpr expr)).2.area.pages.length = area.pages.length := by
  obtain ⟨found, hstart⟩ := CompileState.start_eq_withLines hlt
  have hwrites : Compile.Writes (.start area page) found 0 (compileConstExpr expr) fun _ => True :=
    writes_compileConstExpr hlt (Nat.zero_le _) expr
  obtain ⟨result, lines, hexec, -⟩ := hwrites (area.code.text page) (Nat.zero_le _)
  change ((compileConstExpr expr).exec (.start area page)).2.area.pages.length = _
  rw [hstart, hexec]
  exact CompileState.length_pages_withLines (.start area page) found lines

namespace Machine

variable {state : MachineState} {module : Module} {expr : List UInt8} {type : ValType}

/-- A scratch machine takes no page but the one for its code. -/
theorem length_stock_evaluate (hcompiler : state.env.host.compiler = compiler)
    (hexecutor : state.env.host.executor.Frugal) (htidy : state.env.pool.Tidy) (hempty : state.machine.code = {}) :
    (stateAfter (evaluate module expr type state)).area.stock.length ≤
      (stateAfter (CodeArea.acquire state.env.config.freeLineThreshold ⟨state.env, {}⟩)).stock.length := by
  have hevaluated := evaluated module expr type state
  have hstart : state.area = ⟨state.env, {}⟩ := congrArg (CodeArea.mk state.env) hempty
  generalize stateAfter (evaluate module expr type state) = state' at hevaluated ⊢
  rw [← hstart]
  have hbegun {page : Nat} {area : CodeArea}
      (hacquire : CodeArea.acquire state.env.config.freeLineThreshold state.area = .ok page area) :
      area.env.host = state.env.host ∧ area.env.host.compiler.constExpr module expr type = compileConstExpr expr := by
    have hhost : area.env.host = state.env.host := (Engine.Step.acquire [] 0 hacquire).fixed.2
    rw [hhost, hcompiler]
    exact ⟨rfl, rfl⟩
  -- Neither compiling nor running takes a page, and letting go of one does not count.
  have hrelease {page : Nat} {area : CodeArea} {result : Except Error Nat} {after : CompileState} {area' : CodeArea}
      (hacquire : CodeArea.acquire state.env.config.freeLineThreshold state.area = .ok page area)
      (hcompile : area.compile page (compileConstExpr expr) = (result, after))
      (hpages : area'.pages.length ≤ after.area.pages.length) :
      (area'.release after.page).stock.length ≤ area.stock.length := by
    have hcompiled := CodeArea.length_pages_compileConstExpr (CodeArea.extends_of_acquire hacquire).2 expr
    rw [hcompile] at hcompiled
    rw [CodeArea.stock_release]
    unfold CodeArea.stock
    rw [List.length_map, List.length_map, ← hcompiled]
    exact hpages
  cases hevaluated with
  | refused hacquire =>
    rw [hacquire]
    exact Nat.le_refl _
  | @failed page area error after hacquire hcompile =>
    rw [(hbegun hacquire).2] at hcompile
    have hfailed : (after.area.release after.page).stock.length ≤ area.stock.length :=
      hrelease hacquire hcompile (Nat.le_refl _)
    rw [hacquire]
    exact hfailed
  | @ran page length area after result exec hacquire hcompile hexecute =>
    obtain ⟨hhost, hprogram⟩ := hbegun hacquire
    rw [hprogram] at hcompile
    have hblank := CodeArea.text_of_acquire_empty htidy (hstart ▸ hacquire)
    obtain ⟨-, henv, hcode⟩ := CodeArea.holds_of_compileConstExpr (CodeArea.extends_of_acquire hacquire).2 hblank hcompile
    rw [← hhost, ← henv] at hexecutor
    have hfrugal : (ExecState.execute module .constExpr after.entry
        { area := after.area, stack := state.machine.stack, memory := state.machine.memory }).2.area.pages.length ≤
          after.area.pages.length :=
      hexecutor module _ after.entry _ (fun _ => Instruction.isConstant_of_mem) hcode
    rw [hexecute] at hfrugal
    have hran : (exec.area.release after.page).stock.length ≤ area.stock.length :=
      hrelease hacquire hcompile hfrugal
    rw [hacquire]
    exact hran

end Machine

/-- The host compiles to threaded code, its executor takes no page of the heap for constant expressions, and code pages
are where they belong. -/
structure Environment.Frugal (env : Environment) : Prop where
  compiler : env.host.compiler = Threaded.compiler
  executor : env.host.executor.Frugal
  sound : ∃ places, Engine.Sound ⟨env, places⟩

/-- Pages with the room that the configuration asks for are taken and given back, from such an environment on. -/
def Environment.Replenishes (env env' : Environment) : Prop :=
  env.Frugal → env'.Frugal ∧ env'.config = env.config ∧
    CodePage.Replenishes env.config.freeLineThreshold env.pool.batches.flatten env'.pool.batches.flatten

instance : Std.Refl Environment.Replenishes where
  refl _ h := ⟨h, rfl, .refl _ _⟩

instance : IsTrans Environment Environment.Replenishes where
  trans _ _ _ first second hfrugal := by
    obtain ⟨hbetween, hconfig, hfirst⟩ := first hfrugal
    obtain ⟨hlast, hconfig', hsecond⟩ := second hbetween
    rw [hconfig] at hsecond
    exact ⟨hlast, hconfig'.trans hconfig, hfirst.trans hsecond⟩

namespace Environment.Frugal

variable {env env' : Environment}

theorem reaches (h : env.Frugal) (hreaches : ∀ places, Engine.Reaches ⟨env, places⟩ ⟨env', places⟩) :
    env'.Frugal := by
  obtain ⟨places, hsound⟩ := h.sound
  have hhost := (Engine.Reaches.fixed (hreaches places)).2
  exact ⟨by rw [hhost]; exact h.compiler, by rw [hhost]; exact h.executor, places, hsound.reaches (hreaches places)⟩

/-- A constant expression takes at most one page of the heap, and none if the pool has one with enough room. -/
theorem replenishes (h : env.Frugal) (module : Module) (expr : List UInt8) (type : ValType) :
    CodePage.Replenishes env.config.freeLineThreshold env.pool.batches.flatten
      (stateAfter (Environment.constValue module expr type env)).pool.batches.flatten := by
  obtain ⟨places, hsound⟩ := h.sound
  rcases Environment.stocked_constValue module expr type hsound with hunchanged | ⟨state, hcode, hsame, -, hperm⟩
  · rw [hunchanged]
    exact .refl _ _
  · have htidy : state.env.pool.Tidy := hsame.pool ▸ hsound.tidy
    have hacquired := CodeArea.replenishes_acquire htidy state.env.config.freeLineThreshold
    have hkept := CodeArea.stocks_closed.evaluate_acquired module expr type state
    have hle : (stateAfter (Machine.evaluate module expr type state)).area.stock.length ≤ _ :=
      Machine.length_stock_evaluate (by rw [hsame.host]; exact h.compiler) (by rw [hsame.host]; exact h.executor) htidy
        hcode
    unfold MachineState.area at hkept
    rw [hcode] at hkept
    rw [hsame.pool, hsame.config] at hacquired
    rw [hsame.config] at hkept hle
    exact (hacquired.of_le hkept hle).of_perm hperm

end Environment.Frugal

theorem Environment.replenishes_constValue (module : Module) (expr : List UInt8) (type : ValType) :
    Keeps Replenishes (Environment.constValue module expr type) := by
  intro env hfrugal
  have hreaches := Environment.constValue_reaches module expr type env
  exact ⟨hfrugal.reaches hreaches, (Engine.Reaches.fixed (hreaches 0)).1, hfrugal.replenishes module expr type⟩

/-- All constant expressions of a module together take at most one page of the heap. -/
theorem LoadM.replenishes_prepare : Keeps (Loading.Along Environment.Replenishes) prepare := by
  apply along_prepare Environment.replenishes_constValue
  intro env memory pages hfrugal
  refine ⟨hfrugal.reaches fun places => ?_, rfl, .refl _ _⟩
  exact .single (.tend places (.rest ..))

end WasmEngine

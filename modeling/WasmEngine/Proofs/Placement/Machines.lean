import WasmEngine.Proofs.Allocation.Machines
import WasmEngine.Proofs.Module.Fresh
import WasmEngine.Proofs.Placement.Steps

/-!
# Operations of machines place code

With the threaded compiler, or with none, every event of a machine follows the steps of `Placement`. While code runs,
functions that get compiled on the way count as having their entries.
-/

namespace WasmEngine

open Threaded (functionCode)
open Placement (Steps)

/-! ## Compiling -/

namespace CompileState

variable {state : CompileState} {page : CodePage}

theorem withLines_self (h : state.area.code.pages[state.page]? = some page) :
    state.withLines page page.lines.toList = state := by
  have hpages : state.area.code.pages.setIfInBounds state.page page = state.area.code.pages := by
    refine Array.ext_getElem? fun id => ?_
    rw [Array.getElem?_setIfInBounds]
    split
    · rename_i heq
      subst heq
      rw [if_pos (Array.getElem?_eq_some_iff.1 h).1, h]
    · rfl
  simp [withLines, hpages]

theorem text_withLines (hlt : state.page < state.area.code.pages.size) (lines : List Line) (id : Nat) :
    (state.withLines page lines).area.code.text id = if id = state.page then lines else state.area.code.text id := by
  by_cases heq : id = state.page
  · rw [if_pos heq, heq, CodeStore.text_of_getElem? (getElem?_withLines page hlt lines)]
  · rw [if_neg heq]
    simp [withLines, CodeStore.text, Ne.symm heq]

/-- A compiler begins with the lines that are on its page. -/
theorem start_eq_withLines {area : CodeArea} {id : Nat} (hlt : id < area.code.pages.size) :
    ∃ page, start area id = (start area id).withLines page (area.code.text id) := by
  obtain ⟨page, hpage⟩ : ∃ page, area.code.pages[id]? = some page := ⟨_, Array.getElem?_eq_getElem hlt⟩
  refine ⟨page, ?_⟩
  rw [CodeStore.text_of_getElem? hpage]
  exact (withLines_self hpage).symm

end CompileState

/-- The threaded compiler, or none. -/
def Compiler.Standard (compiler : Compiler) : Prop :=
  compiler = Threaded.compiler ∨ compiler = .unsupported

/-- A standard compiler writes behind what is there. -/
theorem Compiler.Standard.writes {compiler : Compiler} (h : compiler.Standard) {state : CompileState} {page : CodePage}
    {base : Nat} (hlt : state.page < state.area.code.pages.size) (haddr : base ≤ 0xFFFFFFFF) (module : Module)
    (function : Nat) : Compile.Writes state page base (compiler.function module function) fun _ => True := by
  rcases h with rfl | rfl
  · exact Threaded.writes_compileFunction hlt haddr module function
  · exact .throw _

/-- A standard compiler appends the code of the function. -/
theorem Compiler.Standard.code {compiler : Compiler} (h : compiler.Standard) {state : CompileState} {page : CodePage}
    {module : Module} {function : Nat} {lines final : List Line} (hlt : state.page < state.area.code.pages.size)
    (haddr : final.length ≤ 0xFFFFFFFF)
    (hexec : (compiler.function module function).exec (state.withLines page lines) =
      (.ok (), state.withLines page final)) :
    ∃ func code, module.functions[function]? = some func ∧ functionCode func lines.length = some code ∧
      final = lines ++ code := by
  rcases h with rfl | rfl
  · exact Threaded.code_of_compileFunction hlt haddr hexec
  · cases hexec

namespace CodeArea

/-- Compiling a function puts lines behind the text of the page; if it succeeds, they are its code. -/
theorem compile_appends {area : CodeArea} {page : Nat} (hlt : page < area.code.pages.size) {compiler : Compiler}
    (hcompiler : compiler.Standard) {module : Module} {function : Nat} {result : Except Error Unit}
    {state : CompileState} (h : area.compile page (compiler.function module function) = (result, state)) :
    state.page = page ∧ state.entry = area.code.pc page ∧ area.code.Grows state.area.code ∧
      (state.area.code.Addressable → ∃ lines, area.code.Appends state.area.code page lines ∧
        (result = .ok () → ∃ func, module.functions[function]? = some func ∧
          functionCode func (area.code.text page).length = some lines)) := by
  obtain ⟨found, hstart⟩ := CompileState.start_eq_withLines hlt
  have hwrites (base : Nat) (haddr : base ≤ 0xFFFFFFFF) :
      Compile.Writes (.start area page) found base (compiler.function module function) fun _ => True :=
    hcompiler.writes hlt haddr module function
  change (compiler.function module function).exec (.start area page) = (result, state) at h
  rw [hstart] at h
  obtain ⟨result', final, hexec, hlength, -, -⟩ := hwrites 0 (Nat.zero_le _) (area.code.text page) (Nat.zero_le _)
  rw [h] at hexec
  cases hexec
  have hafter (id : Nat) : ((CompileState.start area page).withLines found final).area.code.text id =
      if id = page then final else area.code.text id := CompileState.text_withLines hlt final id
  refine ⟨rfl, rfl, fun id => ?_, fun haddr => ?_⟩
  · rw [hafter id]
    split
    · rename_i heq
      exact heq ▸ hlength
    · exact Nat.le_refl _
  · have hfinal : final.length ≤ 0xFFFFFFFF := by
      have hpage := haddr page
      rwa [hafter page, if_pos rfl] at hpage
    obtain ⟨result', final', hexec, -, htake, -⟩ :=
      hwrites _ (Nat.le_trans hlength hfinal) (area.code.text page) (Nat.le_refl _)
    rw [h] at hexec
    rw [← Threaded.withLines_inj hlt (congrArg Prod.snd hexec), List.take_length] at htake
    -- The lines that were there are the first of those that are there in the end.
    have hsplit : final = area.code.text page ++ final.drop (area.code.text page).length := by
      rw [← htake, List.length_take, Nat.min_eq_left hlength]
      exact (List.take_append_drop _ final).symm
    refine ⟨_, fun id => (hafter id).trans (by rw [← hsplit]), fun hok => ?_⟩
    subst hok
    obtain ⟨func, code, hfunc, hcode, hlines⟩ := hcompiler.code hlt hfinal h
    rw [hlines, List.drop_left]
    exact ⟨func, hfunc, hcode⟩

/-- Letting go of a page changes no text. -/
theorem appends_release {code : CodeStore} {area : CodeArea} {id : Nat} {lines : List Line}
    (h : code.Appends area.code id lines) (page : Nat) : code.Appends (area.release page).code id lines := by
  intro other
  rw [text_release]
  exact h other

variable {area area' : CodeArea} {module : Module} {function : Nat}

/-- What compiling a function on a page that was acquired for it does to the code. -/
theorem compile_gains (hcompiler : area.env.host.compiler.Standard) {minLines page : Nat}
    (hacquire : acquire minLines area = .ok page area') {result : Except Error Unit} {state : CompileState}
    (hcompile : area'.compile page (area'.env.host.compiler.function module function) = (result, state)) :
    area.code.Grows (state.area.release state.page).code ∧
      ((state.area.release state.page).code.Addressable →
        area.code.Extends (state.area.release state.page).code ∧
          (result = .ok () → ∃ func lines, module.functions[function]? = some func ∧
            functionCode func state.entry.line = some lines ∧
            area.code.Gains (state.area.release state.page).code state.entry lines)) := by
  obtain ⟨hextends, hlt⟩ := extends_of_acquire hacquire
  have hhost : area'.env.host = area.env.host := (Engine.Step.acquire [] 0 hacquire).fixed.2
  obtain ⟨-, hentry, hgrows, hwritten⟩ := compile_appends hlt (hhost ▸ hcompiler) hcompile
  have htext := state.area.text_release state.page
  refine ⟨hextends.grows.trans fun id => htext ▸ hgrows id, fun haddr => ?_⟩
  obtain ⟨lines, happends, hok⟩ := hwritten fun id => htext ▸ haddr id
  have hreleased := appends_release happends state.page
  refine ⟨hextends.trans hreleased.extends, fun hresult => ?_⟩
  obtain ⟨func, hfunc, hcode⟩ := hok hresult
  have haddr' : (area'.code.text page).length ≤ 0xFFFFFFFF := haddr.of_grows hreleased.extends.grows page
  rw [CodeStore.pc_eq, Nat.min_eq_left haddr'] at hentry
  rw [hentry]
  exact ⟨func, lines, hfunc, hcode, hreleased.gains hextends⟩

/-- A function that has an entry now had it before, or its code is gained. -/
theorem compileFunction_ok (hcompiler : area.env.host.compiler.Standard) {entry : CodeRef}
    (h : compileFunction module function area = .ok entry area') :
    ∃ func, module.functions[function]? = some func ∧
      (func.code = some entry ∧ area' = area ∨
        func.code = none ∧ func.isImport = false ∧ area.code.Grows area'.code ∧
          (area'.code.Addressable → ∃ lines, functionCode func entry.line = some lines ∧
            area.code.Gains area'.code entry lines)) := by
  have hcases := compiled module function area
  rw [h] at hcases
  cases hcases with
  | present hfunc hcode => exact ⟨_, hfunc, .inl ⟨hcode, rfl⟩⟩
  | @done func area' page state hfunc hcode himport hacquire hcompile =>
    obtain ⟨hgrows, hwritten⟩ := compile_gains hcompiler hacquire hcompile
    refine ⟨func, hfunc, .inr ⟨hcode, himport, hgrows, fun haddr => ?_⟩⟩
    obtain ⟨func', lines, hfunc', hlines, hgains⟩ := (hwritten haddr).2 rfl
    cases hfunc.symm.trans hfunc'
    exact ⟨lines, hlines, hgains⟩

theorem compileFunction_error (hcompiler : area.env.host.compiler.Standard) {error : Error}
    (h : compileFunction module function area = .error error area') :
    area.code.Grows area'.code ∧ (area'.code.Addressable → area.code.Extends area'.code) := by
  have hcases := compiled module function area
  rw [h] at hcases
  cases hcases with
  | unknown hfunc => exact ⟨.refl _, fun _ => .refl _⟩
  | unlinked hfunc hcode himport => exact ⟨.refl _, fun _ => .refl _⟩
  | refused hfunc hcode himport hacquire =>
    rw [code_of_refuse hacquire]
    exact ⟨.refl _, fun _ => .refl _⟩
  | failed hfunc hcode himport hacquire hcompile =>
    obtain ⟨hgrows, hwritten⟩ := compile_gains hcompiler hacquire hcompile
    exact ⟨hgrows, fun haddr => (hwritten haddr).1⟩

/-- The call of a host function goes behind the code of a page, and it is gained if all lines have numbers. -/
theorem install_ok {link : HostLink} {entry : CodeRef} (h : install link area = .ok entry area') :
    area.code.Extends area'.code ∧ (area'.code.Addressable → area.code.Gains area'.code entry link.lines) := by
  have hcases := installed link area
  rw [h] at hcases
  cases hcases with
  | @done area₁ page code hacquire hemit =>
    obtain ⟨hextends, -⟩ := extends_of_acquire hacquire
    obtain ⟨written, happends, hall⟩ := area₁.code.appends_emitAll page link.lines
    rw [hemit] at happends hall
    cases hall rfl
    have hreleased : area₁.code.Appends (CodeArea.release { area₁ with code } page).code page link.lines :=
      appends_release happends page
    refine ⟨hextends.trans hreleased.extends, fun haddr => ?_⟩
    have haddr' : (area₁.code.text page).length ≤ 0xFFFFFFFF := haddr.of_grows hreleased.extends.grows page
    rw [CodeStore.pc_eq, Nat.min_eq_left haddr']
    exact hreleased.gains hextends

theorem install_error {link : HostLink} {error : Error} (h : install link area = .error error area') :
    area.code.Extends area'.code := by
  have hcases := installed link area
  rw [h] at hcases
  cases hcases with
  | refused hacquire =>
    rw [code_of_refuse hacquire]
    exact .refl _
  | @failed _ area₁ page code hacquire hemit =>
    obtain ⟨written, happends, -⟩ := area₁.code.appends_emitAll page link.lines
    rw [hemit] at happends
    have hreleased : area₁.code.Appends (CodeArea.release { area₁ with code } page).code page written :=
      appends_release happends page
    exact (extends_of_acquire hacquire).1.trans hreleased.extends

end CodeArea

/-! ## Running -/

namespace ExecState

variable (links : Nat → Func → Prop) {state : ExecState} {functions : Nat → Nat → Option Func} {module : Module}

/-- The code of a machine and its functions, with the entries that those of the running module got on the way. -/
def placement (functions : Nat → Nat → Option Func) (index : Nat) (state : ExecState) : Placement where
  code := state.area.code
  functions index' function :=
    if index' = index then
      (functions index' function).map fun func => { func with code := (state.compiled.lookup function).or func.code }
    else functions index' function

/-- Answers about slots and memory concern no code. -/
theorem answerFrame_code (base : Nat) (op : FrameOp) (state : ExecState) :
    (answerFrame base op state).2.area.code = state.area.code ∧
      (answerFrame base op state).2.compiled = state.compiled := by
  cases op with
  | slot index =>
    simp only [answerFrame]
    split <;> exact ⟨rfl, rfl⟩
  | setSlot index value =>
    simp only [answerFrame]
    split <;> exact ⟨rfl, rfl⟩
  | memory => exact ⟨rfl, rfl⟩
  | writeMemory offset data =>
    simp only [answerFrame]
    split <;> exact ⟨rfl, rfl⟩
  | growMemory pages =>
    simp only [answerFrame]
    split <;> exact ⟨rfl, rfl⟩

theorem callNative_code (function : HostFunction) (sp : Nat) (cookie : Option UInt64) (state : ExecState) :
    (callNative function sp cookie state).2.area.code = state.area.code ∧
      (callNative function sp cookie state).2.compiled = state.compiled := by
  unfold callNative
  split
  · refine Dialogue.run_preserves (answerFrame sp)
      (fun after => after.area.code = state.area.code ∧ after.compiled = state.compiled) ?_ _ state ⟨rfl, rfl⟩
    intro op after hafter
    obtain ⟨hcode, hcompiled⟩ := answerFrame_code sp op after
    exact ⟨hcode.trans hafter.1, hcompiled.trans hafter.2⟩
  · exact ⟨rfl, rfl⟩

theorem placement_of_nil (functions : Nat → Nat → Option Func) (index : Nat)
    (h : state.compiled = []) : state.placement functions index = ⟨state.area.code, functions⟩ := by
  unfold placement
  congr 1
  funext index' function
  simp [h]

theorem placement_congr {state' : ExecState} (functions : Nat → Nat → Option Func) (index : Nat)
    (h : state'.area.code = state.area.code ∧ state'.compiled = state.compiled) :
    state'.placement functions index = state.placement functions index := by
  unfold placement
  rw [h.1, h.2]

theorem placement_compiled (functions : Nat → Nat → Option Func) (index function : Nat) (entry : CodeRef)
    (area : CodeArea) (state : ExecState) :
    ({ state with area, compiled := (function, entry) :: state.compiled } : ExecState).placement functions index =
      ⟨area.code, Placement.enter (state.placement functions index).functions index function entry⟩ := by
  unfold placement Placement.enter
  congr 1
  funext index' function'
  by_cases hindex : index' = index
  · by_cases hfunction : function' = function
    · simp [hindex, hfunction, Function.comp_def]
    · simp [hindex, hfunction, List.lookup_cons, beq_false_of_ne hfunction]
  · simp [hindex]

/-- The entry of a function of the running module. -/
def entryOf (module : Module) (state : ExecState) (function : Nat) : Option CodeRef :=
  (state.compiled.lookup function).or (module.codeOf function)

section Entries

variable {module : Module} {function : Nat} {state : ExecState}

theorem lookup_of_entryOf_eq_none (h : state.entryOf module function = none) :
    state.compiled.lookup function = none ∧ module.codeOf function = none :=
  Option.or_eq_none_iff.1 h

theorem code_of_entryOf_eq_none (h : state.entryOf module function = none) {func : Func}
    (hfunc : module.functions[function]? = some func) : func.code = none := by
  have hcode := (lookup_of_entryOf_eq_none h).2
  rwa [Module.codeOf, hfunc] at hcode

/-- A function that has an entry is not compiled again. -/
theorem ensureCompiled_of_entryOf {entry : CodeRef} (h : state.entryOf module function = some entry) :
    state.ensureCompiled module function = (.ok entry, state) := by
  unfold entryOf at h
  unfold ensureCompiled
  cases hlookup : state.compiled.lookup function with
  | some found =>
    rw [hlookup, Option.some_or] at h
    cases h
    rfl
  | none =>
    rw [hlookup, Option.none_or] at h
    have hpresent : CodeArea.compileFunction module function state.area = .ok entry state.area := by
      unfold Module.codeOf at h
      split at h
      · cases h
      · rename_i func hfunc
        simp only [CodeArea.compileFunction, hfunc, h]
        rfl
    simp only [hpresent, h, Option.isNone_some, Bool.false_eq_true, if_false]

theorem ensureCompiled_of_none (h : state.entryOf module function = none) :
    state.ensureCompiled module function =
      match CodeArea.compileFunction module function state.area with
      | .error error area => (.error error, { state with area })
      | .ok entry area => (.ok entry, { state with area, compiled := (function, entry) :: state.compiled }) := by
  obtain ⟨hlookup, hcode⟩ := lookup_of_entryOf_eq_none h
  cases hcompile : CodeArea.compileFunction module function state.area with
  | error error area => simp [ensureCompiled, hlookup, hcompile]
  | ok entry area => simp [ensureCompiled, hlookup, hcompile, hcode]

/-- A function that was compiled has its entry. -/
theorem entryOf_of_ensureCompiled {entry : CodeRef} {state' : ExecState}
    (h : state.ensureCompiled module function = (.ok entry, state')) : state'.entryOf module function = some entry := by
  cases hentry : state.entryOf module function with
  | some found =>
    rw [ensureCompiled_of_entryOf hentry] at h
    cases h
    exact hentry
  | none =>
    rw [ensureCompiled_of_none hentry] at h
    split at h
    · cases h
    · cases h
      simp [entryOf]

end Entries

/-- Compiling a function on first use. -/
theorem ensureCompiled_steps {index : Nat}
    (hmodule : ∀ function, functions index function = module.functions[function]?) (function : Nat) (state : ExecState)
    (hcompiler : state.area.env.host.compiler.Standard) :
    Steps links (state.placement functions index)
      ((state.ensureCompiled module function).2.placement functions index) := by
  cases hentry : state.entryOf module function with
  | some entry =>
    rw [ensureCompiled_of_entryOf hentry]
  | none =>
    rw [ensureCompiled_of_none hentry]
    have hlookup := (lookup_of_entryOf_eq_none hentry).1
    cases hcompile : CodeArea.compileFunction module function state.area with
    | error error area =>
      obtain ⟨hgrows, hextends⟩ := CodeArea.compileFunction_error hcompiler hcompile
      exact .single (.write _ hgrows hextends)
    | ok entry area =>
      obtain ⟨func, hfunc, ⟨hcode, -⟩ | ⟨hcode, himport, hgrows, hgains⟩⟩ :=
        CodeArea.compileFunction_ok hcompiler hcompile
      · cases hcode.symm.trans (code_of_entryOf_eq_none hentry hfunc)
      · have hbefore : (state.placement functions index).functions index function = some func := by
          simp [placement, hmodule, hfunc, hlookup]
        rw [placement_compiled]
        exact .single (.compile hbefore hcode himport hgrows hgains)

/-- No other answer concerns code. -/
theorem answer_code (module : Module) (op : ExecOp) (state : ExecState) :
    (∃ function, op = .ensureCompiled function) ∨
      (answer module op state).2.area.code = state.area.code ∧
        (answer module op state).2.compiled = state.compiled := by
  cases op with
  | fetch address =>
    simp only [answer]
    split <;> exact .inr ⟨rfl, rfl⟩
  | ensureCompiled function => exact .inl ⟨function, rfl⟩
  | yieldNow =>
    simp only [answer]
    split <;> exact .inr ⟨rfl, rfl⟩
  | callNative function sp cookie => exact .inr (callNative_code function sp cookie state)
  | slotCount => exact .inr ⟨rfl, rfl⟩
  | frame op => exact .inr (answerFrame_code 0 op state)
  | note text => exact .inr ⟨rfl, rfl⟩

/-- No answer to an executor does more than place code. -/
theorem answer_steps {index : Nat}
    (hmodule : ∀ function, functions index function = module.functions[function]?) (op : ExecOp) (state : ExecState)
    (hcompiler : state.area.env.host.compiler.Standard) :
    Steps links (state.placement functions index) ((answer module op state).2.placement functions index) := by
  obtain ⟨function, rfl⟩ | hsame := answer_code module op state
  · exact ensureCompiled_steps links hmodule function state hcompiler
  · rw [placement_congr functions index hsame]

/-- Running code places the code of the functions that it needs. -/
theorem run_steps {α : Type} {index : Nat}
    (hmodule : ∀ function, functions index function = module.functions[function]?) (program : Exec α)
    (state : ExecState) (hcompiler : state.area.env.host.compiler.Standard) :
    (program.run.run (answer module) state).2.area.env.host = state.area.env.host ∧
      Steps links (state.placement functions index)
        ((program.run.run (answer module) state).2.placement functions index) := by
  refine Dialogue.run_preserves (answer module) (fun after => after.area.env.host = state.area.env.host ∧
    Steps links (state.placement functions index) (after.placement functions index)) ?_ _ state ⟨rfl, .refl⟩
  rintro op after ⟨hhost, hsteps⟩
  have hfixed := Engine.Reaches.fixed (answer_travels module op after [] 0)
  exact ⟨hfixed.2.trans hhost, hsteps.trans (answer_steps links hmodule op after (hhost ▸ hcompiler))⟩

/-- An entry stays for the rest of the run. -/
theorem entryOf_run {α : Type} {function : Nat} {entry : CodeRef}
    (h : state.entryOf module function = some entry) (program : Exec α) :
    (program.run.run (answer module) state).2.entryOf module function = some entry := by
  refine Dialogue.run_preserves (answer module) (fun after => after.entryOf module function = some entry) ?_ _ state h
  intro op after hafter
  obtain ⟨other, rfl⟩ | ⟨-, hsame⟩ := answer_code module op after
  · change (after.ensureCompiled module other).2.entryOf module function = some entry
    cases hother : after.entryOf module other with
    | some found =>
      rw [ensureCompiled_of_entryOf hother]
      exact hafter
    | none =>
      have hne : function ≠ other := by
        rintro rfl
        cases hafter.symm.trans hother
      rw [ensureCompiled_of_none hother]
      cases CodeArea.compileFunction module other after.area with
      | error error area => exact hafter
      | ok found area =>
        unfold entryOf at hafter ⊢
        rw [List.lookup_cons, beq_false_of_ne hne]
        exact hafter
  · unfold entryOf at hafter ⊢
    rw [hsame]
    exact hafter

end ExecState

/-! ## Machines -/

theorem Module.getElem?_storeCode (module : Module) (entries : List (Nat × CodeRef)) (function : Nat) :
    (entries.foldr (fun (function, entry) found => found.setCode function entry) module).functions[function]? =
      module.functions[function]?.map fun func => { func with code := (entries.lookup function).or func.code } := by
  induction entries with
  | nil => simp
  | cons entry entries ih =>
    obtain ⟨index, entry⟩ := entry
    rw [List.foldr_cons]
    change (Array.modify _ index _)[function]? = _
    rw [Array.getElem?_modify, ih, List.lookup_cons]
    by_cases heq : index = function
    · simp [heq, Function.comp_def]
    · simp [heq, beq_false_of_ne (Ne.symm heq)]

theorem Module.owner_storeCode (module : Module) (entries : List (Nat × CodeRef)) :
    (entries.foldr (fun (function, entry) found => found.setCode function entry) module).owner = module.owner := by
  induction entries with
  | nil => rfl
  | cons entry entries ih => exact ih

namespace Machine

variable {machine : Machine}

/-- The modules of a machine belong to it. -/
def Owned (machine : Machine) : Prop :=
  ∀ (index : Nat) (module : Module), machine.modules[index]? = some module → module.owner = some machine.id

theorem Owned.storeCode (h : machine.Owned) (index : Nat) (entries : List (Nat × CodeRef)) :
    (machine.storeCode index entries).Owned := by
  intro other module hmodule
  unfold Machine.storeCode at hmodule
  rw [Array.getElem?_modify] at hmodule
  split at hmodule
  · obtain ⟨found, hfound, rfl⟩ := Option.map_eq_some_iff.1 hmodule
    exact (found.owner_storeCode entries).trans (h other found hfound)
  · exact h other module hmodule

/-- A function of a loaded module. -/
def func? (machine : Machine) (index function : Nat) : Option Func :=
  machine.modules[index]?.bind (·.functions[function]?)

/-- The code of a machine and its functions. -/
def placement (machine : Machine) : Placement :=
  ⟨machine.code, machine.func?⟩

theorem func?_storeCode (machine : Machine) (index : Nat) (entries : List (Nat × CodeRef)) :
    (machine.storeCode index entries).func? = fun index' function =>
      if index' = index then
        (machine.func? index' function).map fun func => { func with code := (entries.lookup function).or func.code }
      else machine.func? index' function := by
  funext index' function
  unfold func? storeCode
  simp only [Array.getElem?_modify]
  by_cases heq : index' = index
  · subst heq
    cases hmodule : machine.modules[index']? with
    | none => simp
    | some module => simp [Module.getElem?_storeCode]
  · simp [heq, Ne.symm heq]

/-- The function whose entry is stored has it, whatever becomes of the code. -/
theorem func?_storeCode_single (machine : Machine) (code : CodeStore) (index function : Nat) (entry : CodeRef) :
    ({ machine with code }.storeCode index [(function, entry)]).func? =
      Placement.enter machine.func? index function entry := by
  rw [func?_storeCode]
  change (fun index' function' => if index' = index then
    (machine.func? index' function').map _ else machine.func? index' function') = _
  funext index' function'
  unfold Placement.enter
  by_cases hindex : index' = index
  · by_cases hfunction : function' = function
    · simp [hindex, hfunction]
    · simp [hindex, hfunction, List.lookup_cons, beq_false_of_ne hfunction]
  · simp [hindex]

/-- Storing an entry enters it. -/
theorem placement_storeCode (machine : Machine) (code : CodeStore) (index function : Nat) (entry : CodeRef) :
    ({ machine with code }.storeCode index [(function, entry)]).placement =
      ⟨code, Placement.enter machine.func? index function entry⟩ :=
  congrArg (Placement.mk code) (func?_storeCode_single machine code index function entry)

/-- The entries that functions got during a run are stored. -/
theorem entryOf_storeCode {index function : Nat} {module : Module} {func : Func} {entry : CodeRef}
    {state : ExecState} (hmodule : machine.modules[index]? = some module)
    (hfunc : module.functions[function]? = some func) (hentry : state.entryOf module function = some entry) :
    (machine.storeCode index state.compiled).placement.entryOf index function = some entry := by
  have hfunc? : machine.func? index function = some func := by simp [func?, hmodule, hfunc]
  change ((machine.storeCode index state.compiled).func? index function).bind Func.code = some entry
  rw [func?_storeCode]
  simpa [hfunc?, ExecState.entryOf, Module.codeOf, hfunc] using hentry

/-- Storing the entry that a function has changes nothing. -/
theorem storeCode_eq_self {index function : Nat} {func : Func} {entry : CodeRef}
    (hfunc : machine.func? index function = some func) (hcode : func.code = some entry) :
    machine.storeCode index [(function, entry)] = machine := by
  obtain ⟨module, hmodule, hfunc⟩ := Option.bind_eq_some_iff.1 hfunc
  have hfunctions : (module.setCode function entry).functions = module.functions := by
    refine Array.ext_getElem? fun other => ?_
    rw [Module.setCode, Module.updateFunction, Array.getElem?_modify]
    split
    · rename_i heq
      rw [← heq, hfunc, Option.map_some, ← hcode]
    · rfl
  have hmodules : (machine.modules.modify index fun found => found.setCode function entry) = machine.modules := by
    refine Array.ext_getElem? fun other => ?_
    rw [Array.getElem?_modify]
    split
    · rename_i heq
      rw [← heq, hmodule, Option.map_some]
      exact congrArg (fun functions => some { module with functions }) hfunctions
    · rfl
  exact congrArg (fun modules => { machine with modules }) hmodules

/-- A function that has an entry is not compiled again. -/
theorem ensureCompiled_of_func? {index function : Nat} {func : Func} {entry : CodeRef}
    (hfunc : machine.func? index function = some func) (hcode : func.code = some entry) (env : Environment) :
    Machine.ensureCompiled index function ⟨env, machine⟩ = .ok entry ⟨env, machine⟩ := by
  have hstore := storeCode_eq_self hfunc hcode
  obtain ⟨module, hmodule, hfunc⟩ := Option.bind_eq_some_iff.1 hfunc
  have hpresent : CodeArea.compileFunction module function ⟨env, machine.code⟩ = .ok entry ⟨env, machine.code⟩ := by
    simp only [CodeArea.compileFunction, hfunc, hcode]
    rfl
  unfold Machine.ensureCompiled
  rw [run_get_bind]
  simp only [hmodule]
  change EStateM.bind (MachineM.onCode (CodeArea.compileFunction module function)) _ ⟨env, machine⟩ = _
  unfold EStateM.bind MachineM.onCode
  rw [hpresent]
  exact congrArg (fun machine => EStateM.Result.ok entry (MachineState.mk env machine)) hstore

theorem placement_congr {machine' : Machine} (hmodules : machine'.modules = machine.modules)
    (hcode : machine'.code = machine.code) : machine'.placement = machine.placement := by
  unfold placement func?
  rw [hmodules, hcode]

end Machine

namespace Placement

/-- Entering the entry that a function has changes nothing. -/
theorem enter_eq_self {functions : Nat → Nat → Option Func} {index function : Nat} {func : Func} {entry : CodeRef}
    (hfunc : functions index function = some func) (hcode : func.code = some entry) :
    enter functions index function entry = functions := by
  funext index' function'
  by_cases heq : (index', function') = (index, function)
  · cases heq
    rw [enter_self hfunc, hfunc, ← hcode]
  · exact enter_of_ne heq functions entry

end Placement

/-- What an operation may link are imports, and the functions that it may load have no entries. -/
structure Permit.Sane (permit : Permit) : Prop where
  imports : ∀ index func, permit.links index func → func.isImport = true
  fresh : ∀ functions, permit.loads functions → Fresh functions

namespace MachineState

variable {permit : Permit} {state state' : MachineState}

theorem Event.id_eq (h : Event permit state state') : state'.machine.id = state.machine.id := by
  cases h with
  | tend env hmodules hcode hmemory hid => exact hid
  | _ => rfl

theorem Event.owned (h : Event permit state state') (howned : state.machine.Owned) : state'.machine.Owned := by
  cases h with
  | environment machine hevent => exact howned
  | tend env hmodules hcode hmemory hid =>
    unfold Machine.Owned
    rw [hmodules, hid]
    exact howned
  | bound env machine pages hbounds => exact howned
  | memory hevent => exact howned
  | compile hmodule hcompile => exact Machine.Owned.storeCode howned _ _
  | failCompile hmodule hcompile => exact howned
  | link hfunc hlinks hinstall => exact Machine.Owned.storeCode howned _ _
  | failLink hinstall => exact howned
  | run hmodule hexecute => exact Machine.Owned.storeCode howned _ _
  | push env machine hloads howner =>
    intro index module hmodule
    rw [Array.getElem?_push] at hmodule
    split at hmodule
    · cases hmodule
      exact howner
    · exact howned index module hmodule

theorem Events.id_eq (h : Events permit state state') : state'.machine.id = state.machine.id := by
  induction h with
  | refl => rfl
  | tail _ hevent ih => exact hevent.id_eq.trans ih

theorem Events.owned (h : Events permit state state') (howned : state.machine.Owned) : state'.machine.Owned := by
  induction h with
  | refl => exact howned
  | tail _ hevent ih => exact hevent.owned ih

/-- Every event of a machine follows steps of placement. -/
theorem Event.steps (h : Event permit state state') (hpermit : permit.Sane)
    (hcompiler : state.env.host.compiler.Standard) :
    Steps permit.links state.machine.placement state'.machine.placement := by
  cases h with
  | environment machine hevent => exact .refl
  | tend env hmodules hcode hmemory => exact Machine.placement_congr hmodules hcode ▸ .refl
  | bound env machine pages hbounds => exact .refl
  | memory hevent => exact .refl
  | @compile env machine index function module entry area hmodule hcompile =>
    have hfunc? (function : Nat) : machine.func? index function = module.functions[function]? := by
      simp [Machine.func?, hmodule]
    obtain ⟨func, hfunc, hcases⟩ := CodeArea.compileFunction_ok hcompiler hcompile
    rw [← hfunc?] at hfunc
    rw [Machine.placement_storeCode]
    obtain ⟨hcode, rfl⟩ | ⟨hcode, himport, hgrows, hgains⟩ := hcases
    · rw [Placement.enter_eq_self hfunc hcode]
      exact .refl
    · exact .single (.compile hfunc hcode himport hgrows hgains)
  | failCompile hmodule hcompile =>
    obtain ⟨hgrows, hextends⟩ := CodeArea.compileFunction_error hcompiler hcompile
    exact .single (.write _ hgrows hextends)
  | @link env machine index function func link entry area hfunc hlinks hinstall =>
    obtain ⟨hextends, hgains⟩ := CodeArea.install_ok hinstall
    rw [Machine.placement_storeCode]
    exact .single (.link hfunc hlinks (hpermit.imports index func hlinks) hextends.grows hgains)
  | failLink hinstall =>
    have hextends := CodeArea.install_error hinstall
    exact .single (.write _ hextends.grows fun _ => hextends)
  | @run env machine index module purpose entry result after hmodule hexecute =>
    have hfunc? (function : Nat) : machine.func? index function = module.functions[function]? := by
      simp [Machine.func?, hmodule]
    have hsteps := (ExecState.run_steps permit.links hfunc? (env.host.executor.run module purpose entry)
      { area := ⟨env, machine.code⟩, stack := machine.stack, memory := machine.memory } hcompiler).2
    have hrun : (env.host.executor.run module purpose entry).run.run (ExecState.answer module)
        { area := ⟨env, machine.code⟩, stack := machine.stack, memory := machine.memory } = (result, after) := hexecute
    rw [hrun, ExecState.placement_of_nil machine.func? index rfl] at hsteps
    have hafter : ({ machine with code := after.area.code, stack := after.stack, memory := after.memory }.storeCode
        index after.compiled).placement = after.placement machine.func? index :=
      congrArg (Placement.mk after.area.code) (Machine.func?_storeCode _ index after.compiled)
    rw [hafter]
    exact hsteps
  | @push env machine module hloads howner =>
    refine .single (.load _ (fun index function func hfunc => ?_) fun index function func hfunc hold => ?_)
    · obtain ⟨found, hfound, hfunc⟩ := Option.bind_eq_some_iff.1 hfunc
      have hlt : index < machine.modules.size := (Array.getElem?_eq_some_iff.1 hfound).1
      refine Option.bind_eq_some_iff.2 ⟨found, ?_, hfunc⟩
      rw [Array.getElem?_push, if_neg (Nat.ne_of_lt hlt), hfound]
    · obtain ⟨found, hfound, hfunc⟩ := Option.bind_eq_some_iff.1 hfunc
      rw [Array.getElem?_push] at hfound
      split at hfound
      · cases hfound
        exact hpermit.fresh _ hloads function func hfunc
      · have hsame : machine.func? index function = some func := Option.bind_eq_some_iff.2 ⟨found, hfound, hfunc⟩
        cases hsame.symm.trans hold

theorem Events.steps (h : Events permit state state') (hpermit : permit.Sane)
    (hcompiler : state.env.host.compiler.Standard) :
    state'.env.host = state.env.host ∧
      Steps permit.links state.machine.placement state'.machine.placement := by
  induction h with
  | refl => exact ⟨rfl, .refl⟩
  | tail _ hevent ih =>
    have hhost := (Engine.Reaches.fixed (hevent.travels [] 0)).2
    exact ⟨hhost.trans ih.1, ih.2.trans (hevent.steps hpermit (ih.1 ▸ hcompiler))⟩

end MachineState

end WasmEngine

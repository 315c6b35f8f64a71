import WasmEngine.Proofs.Ownership.Code
import WasmEngine.Proofs.Placement.Machines

/-!
# Machines give out the entries of their functions

Functions get entries while a machine compiles them, links them or runs code that needs them, and always such that the
machine's own code issues (`Directory.Advances`). So every entry names a place in the code of its machine.
-/

namespace WasmEngine

/-! ## Directories -/

/-- Code, and the entries that some things have in it. -/
structure Directory (κ : Type) where
  code : CodeStore
  entryOf : κ → Option CodeRef

namespace Directory

variable {κ : Type} {first second third : Directory κ}

/-- All entries name places in the code. -/
def Sound (directory : Directory κ) : Prop :=
  ∀ key entry, directory.entryOf key = some entry → directory.code.Names entry

/-- The code goes on, and what has an entry then had it before, or the code issues it. -/
structure Advances (first second : Directory κ) : Prop where
  widens : first.code.Widens second.code
  entries : ∀ key entry, second.entryOf key = some entry →
    first.entryOf key = some entry ∨ first.code.Issues second.code entry

theorem Advances.refl (directory : Directory κ) : directory.Advances directory :=
  ⟨.refl _, fun _ _ h => .inl h⟩

theorem Advances.trans (h : first.Advances second) (h' : second.Advances third) : first.Advances third := by
  refine ⟨h.widens.trans h'.widens, fun key entry hentry => ?_⟩
  obtain hbefore | hissues := h'.entries key entry hentry
  · exact (h.entries key entry hbefore).imp_right fun hissues => hissues.widens h'.widens
  · exact .inr (hissues.after h.widens)

/-- Code is written, and nothing gets an entry. -/
theorem Advances.of_widens {code code' : CodeStore} (h : code.Widens code') (entryOf : κ → Option CodeRef) :
    Advances ⟨code, entryOf⟩ ⟨code', entryOf⟩ :=
  ⟨h, fun _ _ hentry => .inl hentry⟩

theorem Sound.advances (h : first.Sound) (hadvances : first.Advances second) : second.Sound := by
  intro key entry hentry
  obtain hbefore | hissues := hadvances.entries key entry hentry
  · exact (h key entry hbefore).widens hadvances.widens
  · exact hissues.names

end Directory

/-! ## Running -/

namespace ExecState

/-- The entries of the functions of a running module. -/
def directory (module : Module) (state : ExecState) : Directory Nat :=
  ⟨state.area.code, state.entryOf module⟩

variable {module : Module}

theorem ensureCompiled_advances (module : Module) (function : Nat) (state : ExecState) :
    (state.directory module).Advances ((state.ensureCompiled module function).2.directory module) := by
  cases hentry : state.entryOf module function with
  | some entry =>
    rw [ensureCompiled_of_entryOf hentry]
    exact .refl _
  | none =>
    rw [ensureCompiled_of_none hentry]
    have hwidens := CodeArea.widens_closed.compileFunction module function
    cases hcompile : CodeArea.compileFunction module function state.area with
    | error error area => exact .of_widens (hwidens.of_error hcompile) _
    | ok entry area =>
      refine ⟨hwidens.of_ok hcompile, fun other found hfound => ?_⟩
      by_cases heq : other = function
      · have hsame : found = entry := by simpa [directory, entryOf, heq] using hfound.symm
        obtain hpresent | hissues := CodeArea.compileFunction_issues hcompile
        · cases hpresent.symm.trans (lookup_of_entryOf_eq_none hentry).2
        · exact .inr (hsame ▸ hissues)
      · refine .inl ?_
        simpa [directory, entryOf, List.lookup_cons, beq_false_of_ne heq] using hfound

theorem answer_advances (module : Module) (op : ExecOp) (state : ExecState) :
    (state.directory module).Advances ((answer module op state).2.directory module) := by
  obtain ⟨function, rfl⟩ | ⟨hcode, hcompiled⟩ := answer_code module op state
  · exact ensureCompiled_advances module function state
  · have hsame : (answer module op state).2.directory module = state.directory module := by
      unfold directory entryOf
      rw [hcode, hcompiled]
    exact hsame ▸ .refl _

theorem run_advances {α : Type} (module : Module) (program : Exec α) (state : ExecState) :
    (state.directory module).Advances ((program.run.run (answer module) state).2.directory module) := by
  refine Dialogue.run_preserves (answer module)
    (fun after => (state.directory module).Advances (after.directory module)) ?_ _ state (.refl _)
  intro op after hadvances
  exact hadvances.trans (answer_advances module op after)

theorem entryOf_of_nil {state : ExecState} (h : state.compiled = []) : state.entryOf module = module.codeOf := by
  funext function
  simp [entryOf, h]

end ExecState

/-- Whatever program runs code of a module, an entry that it is handed for a function is one that the function has or
that the code issues. Either way it names a place in the code. -/
def CodeStore.Serves (store : CodeStore) (module : Module) : Prop :=
  ∀ (state next : ExecState) (program : Exec Unit) (function : Nat) (entry : CodeRef),
    state.area.code = store → state.compiled = [] →
    (program.run.run (ExecState.answer module) state).2.ensureCompiled module function = (.ok entry, next) →
    next.area.code.Names entry ∧ (module.codeOf function = some entry ∨ store.Issues next.area.code entry)

theorem CodeStore.serves_of_sound {store : CodeStore} {module : Module}
    (h : (Directory.mk store module.codeOf).Sound) : store.Serves module := by
  intro state next program function entry hcode hcompiled hensure
  have hstart : state.directory module = ⟨store, module.codeOf⟩ := by
    rw [ExecState.directory, ExecState.entryOf_of_nil hcompiled, hcode]
  have hadvances := (ExecState.run_advances module program state).trans
    (ExecState.ensureCompiled_advances module function _)
  rw [hensure, hstart] at hadvances
  have hentry : (next.directory module).entryOf function = some entry := ExecState.entryOf_of_ensureCompiled hensure
  exact ⟨h.advances hadvances function entry hentry, hadvances.entries function entry hentry⟩

theorem Fresh.codeOf {module : Module} (h : Fresh module.functions) (function : Nat) :
    module.codeOf function = none := by
  unfold Module.codeOf
  split
  · rfl
  · rename_i func hfunc
    exact h function func hfunc

theorem CodeStore.serves_of_fresh {module : Module} (h : Fresh module.functions) (store : CodeStore) :
    store.Serves module := by
  refine serves_of_sound fun function entry hentry => ?_
  cases (h.codeOf function).symm.trans hentry

/-! ## Machines -/

namespace Machine

variable {machine machine' : Machine}

/-- The entries of the functions of a machine, by the index of their module and their own. -/
def directory (machine : Machine) : Directory (Nat × Nat) :=
  ⟨machine.code, fun key => (machine.func? key.1 key.2).bind Func.code⟩

theorem entryOf_directory {index function : Nat} {module : Module} (hmodule : machine.modules[index]? = some module) :
    machine.directory.entryOf (index, function) = module.codeOf function := by
  simp only [directory, func?, hmodule, Option.bind_some, Module.codeOf]
  cases module.functions[function]? with
  | none => rfl
  | some func => rfl

/-- A call starts at the entry of its function. -/
theorem entryOf_of_entryPoint {index function : Nat} {state after : MachineState} {entry : CodeRef} {func : Func}
    (h : entryPoint index function state = .ok (entry, func) after) :
    state.machine.directory.entryOf (index, function) = some entry := by
  unfold entryPoint at h
  rw [run_get_bind] at h
  cases hmodule : state.machine.modules[index]? with
  | none =>
    rw [hmodule] at h
    cases h
  | some module =>
    rw [entryOf_directory hmodule, Module.codeOf]
    simp only [hmodule] at h
    cases hfunc : module.functions[function]? with
    | none =>
      rw [hfunc] at h
      cases h
    | some found =>
      simp only [hfunc] at h
      cases hcode : found.code with
      | none =>
        rw [hcode] at h
        cases h
      | some start =>
        rw [hcode] at h
        cases h
        exact hcode

theorem directory_congr (hmodules : machine'.modules = machine.modules) (hcode : machine'.code = machine.code) :
    machine'.directory = machine.directory := by
  unfold directory func?
  rw [hmodules, hcode]

/-- The code goes on, and entries are stored that the functions of a module have or the code issues. -/
theorem storeCode_advances (machine machine' : Machine) (hmodules : machine'.modules = machine.modules)
    (hwidens : machine.code.Widens machine'.code) (index : Nat) {entries : List (Nat × CodeRef)}
    (hentries : ∀ function entry, entries.lookup function = some entry →
      machine.directory.entryOf (index, function) = some entry ∨ machine.code.Issues machine'.code entry) :
    machine.directory.Advances (machine'.storeCode index entries).directory := by
  have hfunc? : machine'.func? = machine.func? := by
    unfold func?
    rw [hmodules]
  refine ⟨hwidens, fun key entry hentry => ?_⟩
  obtain ⟨index', function⟩ := key
  simp only [directory, func?_storeCode, hfunc?] at hentry
  by_cases heq : index' = index
  · subst heq
    rw [if_pos rfl] at hentry
    obtain ⟨stored, hstored, hcode⟩ := Option.bind_eq_some_iff.1 hentry
    obtain ⟨func, hfunc, rfl⟩ := Option.map_eq_some_iff.1 hstored
    obtain hlookup | ⟨-, hcode⟩ := Option.or_eq_some_iff.1 hcode
    · exact hentries function entry hlookup
    · exact .inl (Option.bind_eq_some_iff.2 ⟨func, hfunc, hcode⟩)
  · rw [if_neg heq] at hentry
    exact .inl hentry

/-- One entry that is kept or new may be stored. -/
theorem storeCode_advances_single (machine machine' : Machine) (hmodules : machine'.modules = machine.modules)
    (hwidens : machine.code.Widens machine'.code) {index function : Nat} {entry : CodeRef}
    (hentry : machine.directory.entryOf (index, function) = some entry ∨ machine.code.Issues machine'.code entry) :
    machine.directory.Advances (machine'.storeCode index [(function, entry)]).directory := by
  refine storeCode_advances machine machine' hmodules hwidens index fun other found hlookup => ?_
  rw [List.lookup_cons] at hlookup
  by_cases heq : other = function
  · subst heq
    rw [beq_self_eq_true] at hlookup
    cases hlookup
    exact hentry
  · rw [beq_false_of_ne heq] at hlookup
    cases hlookup

/-- The functions of a module that is added have no entries. -/
theorem push_advances (machine : Machine) {module : Module} (h : Fresh module.functions) :
    machine.directory.Advances ({ machine with modules := machine.modules.push module } : Machine).directory := by
  refine ⟨.refl _, fun key entry hentry => .inl ?_⟩
  obtain ⟨func, hfunc, hcode⟩ := Option.bind_eq_some_iff.1 hentry
  obtain ⟨found, hfound, hfunc⟩ := Option.bind_eq_some_iff.1 hfunc
  rw [Array.getElem?_push] at hfound
  split at hfound
  · cases hfound
    cases (h key.2 func hfunc).symm.trans hcode
  · exact Option.bind_eq_some_iff.2 ⟨func, Option.bind_eq_some_iff.2 ⟨found, hfound, hfunc⟩, hcode⟩

end Machine

namespace MachineState

variable {permit : Permit} {state state' : MachineState}

/-- Every event of a machine, if modules that it adds have no entries. -/
theorem Event.advances (h : Event permit state state') (hfresh : ∀ functions, permit.loads functions → Fresh functions) :
    state.machine.directory.Advances state'.machine.directory := by
  cases h with
  | environment machine hevent => exact .refl _
  | tend env hmodules hcode hmemory hid => exact Machine.directory_congr hmodules hcode ▸ .refl _
  | bound env machine pages hbounds => exact .refl _
  | memory hevent => exact .refl _
  | @compile env machine index function module entry area hmodule hcompile =>
    have hwidens := (CodeArea.widens_closed.compileFunction module function).of_ok hcompile
    refine Machine.storeCode_advances_single machine { machine with code := area.code } rfl hwidens ?_
    rw [Machine.entryOf_directory hmodule]
    exact CodeArea.compileFunction_issues hcompile
  | @failCompile env machine index function module error area hmodule hcompile =>
    exact .of_widens ((CodeArea.widens_closed.compileFunction module function).of_error hcompile) _
  | @link env machine index function func link entry area hfunc hlinks hinstall =>
    have hwidens := (CodeArea.widens_closed.install link).of_ok hinstall
    exact Machine.storeCode_advances_single machine { machine with code := area.code } rfl hwidens
      (.inr (CodeArea.install_issues hinstall))
  | @failLink env machine link error area hinstall =>
    exact .of_widens ((CodeArea.widens_closed.install link).of_error hinstall) _
  | @run env machine index module purpose entry result after hmodule hexecute =>
    have hadvances := ExecState.run_advances module (env.host.executor.run module purpose entry)
      { area := ⟨env, machine.code⟩, stack := machine.stack, memory := machine.memory }
    have hrun : (env.host.executor.run module purpose entry).run.run (ExecState.answer module)
        { area := ⟨env, machine.code⟩, stack := machine.stack, memory := machine.memory } = (result, after) := hexecute
    rw [hrun, ExecState.directory, ExecState.entryOf_of_nil rfl] at hadvances
    refine Machine.storeCode_advances machine
      { machine with code := after.area.code, stack := after.stack, memory := after.memory } rfl hadvances.widens index
      fun function found hlookup => ?_
    rw [Machine.entryOf_directory hmodule]
    refine hadvances.entries function found ?_
    change (after.compiled.lookup function).or (module.codeOf function) = some found
    rw [hlookup, Option.some_or]
  | push env machine hloads howner => exact machine.push_advances (hfresh _ hloads)

theorem Events.advances (h : Events permit state state')
    (hfresh : ∀ functions, permit.loads functions → Fresh functions) :
    state.machine.directory.Advances state'.machine.directory := by
  induction h with
  | refl => exact .refl _
  | tail _ hevent ih => exact ih.trans (hevent.advances hfresh)

end MachineState

end WasmEngine

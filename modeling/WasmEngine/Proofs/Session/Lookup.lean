import WasmEngine.Proofs.Allocation.Sessions
import WasmEngine.Proofs.Machine.Admission
import WasmEngine.Proofs.Module.Names

/-!
# Looking up functions by their names

A machine looks a function up by its display name: the first one of that name in the module loaded last that has any
(`Machine.Selects`). It compiles the function, which has an entry from then on.
-/

namespace WasmEngine

namespace Machine

variable {machine machine' : Machine} {name : String} {module function : Nat}

/-! ## Names in a machine -/

/-- A function of a loaded module goes by a display name. -/
def Shows (machine : Machine) (name : String) (module function : Nat) : Prop :=
  ∃ func, machine.func? module function = some func ∧ func.name = some name

/-- The first function of a display name in its module, if no module that was loaded later has one. -/
structure Selects (machine : Machine) (name : String) (module function : Nat) : Prop where
  shows : machine.Shows name module function
  first : ∀ earlier < function, ¬machine.Shows name module earlier
  latest : ∀ later, module < later → ∀ other, ¬machine.Shows name later other

theorem findFunction_eq_some_iff_shows :
    (machine.modules[module]?.bind (·.findFunction name)) = some function ↔
      machine.Shows name module function ∧ ∀ earlier < function, ¬machine.Shows name module earlier := by
  unfold Shows func?
  cases machine.modules[module]? with
  | none => simp
  | some found =>
    simp only [Option.bind_some, Module.findFunction_eq_some_iff]
    refine and_congr_right fun _ => forall₂_congr fun earlier _ => ?_
    exact ⟨fun hnone ⟨func, hfunc, hname⟩ => hnone func hfunc hname, fun hnone func hfunc hname =>
      hnone ⟨func, hfunc, hname⟩⟩

theorem findFunction_eq_none_iff_shows :
    (machine.modules[module]?.bind (·.findFunction name)) = none ↔ ∀ function, ¬machine.Shows name module function := by
  unfold Shows func?
  cases machine.modules[module]? with
  | none => simp
  | some found =>
    simp only [Option.bind_some, Module.findFunction_eq_none_iff]
    exact ⟨fun hnone function ⟨func, hfunc, hname⟩ => hnone function func hfunc hname, fun hnone function func hfunc
      hname => hnone function ⟨func, hfunc, hname⟩⟩

/-- The search goes back from the last of some modules to the first one. -/
theorem lookup?_eq_some_iff {count : Nat} :
    lookup? machine.modules name count = some (module, function) ↔
      module < count ∧ machine.Shows name module function ∧ (∀ earlier < function, ¬machine.Shows name module earlier) ∧
        ∀ later, module < later → later < count → ∀ other, ¬machine.Shows name later other := by
  induction count with
  | zero => simp [lookup?]
  | succ count ih =>
    unfold lookup?
    cases hfind : machine.modules[count]?.bind (·.findFunction name) with
    | some first =>
      obtain ⟨hshows, hfirst⟩ := findFunction_eq_some_iff_shows.1 hfind
      constructor
      · intro hsame
        cases hsame
        exact ⟨Nat.lt_succ_self _, hshows, hfirst, fun later hlater hcount => by omega⟩
      · rintro ⟨hlt, hshown, hearlier, hlatest⟩
        obtain hlt | rfl := Nat.lt_succ_iff_lt_or_eq.1 hlt
        · exact absurd hshows (hlatest count hlt (Nat.lt_succ_self _) first)
        · rw [findFunction_eq_some_iff_shows.2 ⟨hshown, hearlier⟩] at hfind
          cases hfind
          rfl
    | none =>
      have hnone := findFunction_eq_none_iff_shows.1 hfind
      rw [ih]
      constructor
      · rintro ⟨hlt, hshows, hfirst, hlatest⟩
        refine ⟨Nat.lt_succ_of_lt hlt, hshows, hfirst, fun later hlater hcount => ?_⟩
        obtain hcount | rfl := Nat.lt_succ_iff_lt_or_eq.1 hcount
        · exact hlatest later hlater hcount
        · exact hnone
      · rintro ⟨hlt, hshows, hfirst, hlatest⟩
        refine ⟨?_, hshows, hfirst, fun later hlater hcount => hlatest later hlater (Nat.lt_succ_of_lt hcount)⟩
        obtain hlt | rfl := Nat.lt_succ_iff_lt_or_eq.1 hlt
        · exact hlt
        · exact absurd hshows (hnone function)

theorem lookup?_eq_none_iff {count : Nat} :
    lookup? machine.modules name count = none ↔ ∀ module < count, ∀ function, ¬machine.Shows name module function := by
  induction count with
  | zero => simp [lookup?]
  | succ count ih =>
    unfold lookup?
    cases hfind : machine.modules[count]?.bind (·.findFunction name) with
    | some first =>
      refine ⟨nofun, fun hnone => ?_⟩
      exact absurd (findFunction_eq_some_iff_shows.1 hfind).1 (hnone count (Nat.lt_succ_self _) first)
    | none =>
      rw [ih]
      refine ⟨fun hnone module hlt => ?_, fun hnone module hlt => hnone module (Nat.lt_succ_of_lt hlt)⟩
      obtain hlt | rfl := Nat.lt_succ_iff_lt_or_eq.1 hlt
      · exact hnone module hlt
      · exact findFunction_eq_none_iff_shows.1 hfind

theorem Shows.lt_size (h : machine.Shows name module function) : module < machine.modules.size := by
  obtain ⟨func, hfunc, -⟩ := h
  obtain ⟨found, hfound, -⟩ := Option.bind_eq_some_iff.1 hfunc
  exact (Array.getElem?_eq_some_iff.1 hfound).1

theorem Shows.modules_ne (h : machine.Shows name module function) : machine.modules ≠ #[] := by
  intro hempty
  have hlt := h.lt_size
  rw [hempty] at hlt
  cases hlt

theorem lookup?_eq_some_iff_selects :
    lookup? machine.modules name machine.modules.size = some (module, function) ↔
      machine.Selects name module function := by
  rw [lookup?_eq_some_iff]
  constructor
  · rintro ⟨-, hshows, hfirst, hlatest⟩
    exact ⟨hshows, hfirst, fun later hlater other hother => hlatest later hlater hother.lt_size other hother⟩
  · intro h
    exact ⟨h.shows.lt_size, h.shows, h.first, fun later hlater _ => h.latest later hlater⟩

/-! ## Lookups -/

/-- The ways in which a lookup can go. Where it fails, the failure is recorded too. -/
inductive FindOutcome (name : String) (state : MachineState) :
    EStateM.Result Error MachineState (Nat × Nat) → Prop where
  /-- There are no modules. -/
  | empty {state' : MachineState} (hmodules : state.machine.modules = #[])
      (hsame : state'.machine.func? = state.machine.func?) : FindOutcome name state (.error .noModulesLoaded state')
  /-- No function goes by the name. -/
  | unnamed {state' : MachineState} (hmodules : state.machine.modules ≠ #[])
      (hnone : ∀ module function, ¬state.machine.Shows name module function)
      (hsame : state'.machine.func? = state.machine.func?) :
      FindOutcome name state (.error .functionLookupFailed state')
  /-- The function that is selected cannot be compiled. -/
  | failed {module function : Nat} {func : Func} {error : Error} {between state' : MachineState}
      (hselects : state.machine.Selects name module function)
      (hcompile : ensureCompiled module function state = .error error between)
      (hfunc : state.machine.func? module function = some func) (hcode : func.code = none)
      (hsame : state'.machine.func? = state.machine.func?) : FindOutcome name state (.error error state')
  /-- The function that is selected has an entry. -/
  | found {module function : Nat} {entry : CodeRef} {state' : MachineState}
      (hselects : state.machine.Selects name module function)
      (hcompile : ensureCompiled module function state = .ok entry state')
      (hentered : state'.machine.func? = Placement.enter state.machine.func? module function entry) :
      FindOutcome name state (.ok (module, function) state')

/-- A function of a loaded module gets its entry. If it does not, it had none, and no function changes. -/
theorem ensureCompiled_cases {state : MachineState} {func : Func}
    (hfunc : state.machine.func? module function = some func) :
    (∃ entry state', ensureCompiled module function state = .ok entry state' ∧
      state'.machine.func? = Placement.enter state.machine.func? module function entry) ∨
    ∃ error state', ensureCompiled module function state = .error error state' ∧ func.code = none ∧
      state'.machine.func? = state.machine.func? := by
  obtain ⟨found, hmodule, hfunction⟩ := Option.bind_eq_some_iff.1 hfunc
  cases hcompile : CodeArea.compileFunction found function ⟨state.env, state.machine.code⟩ with
  | ok entry area =>
    refine .inl ⟨entry, _, ensureCompiled_of_ok hmodule hcompile, ?_⟩
    exact func?_storeCode_single _ _ module function entry
  | error error area =>
    have hcode : MachineM.onCode (CodeArea.compileFunction found function) state =
        .error error ⟨area.env, { state.machine with code := area.code }⟩ := by
      unfold MachineM.onCode
      rw [hcompile]
    have hensure : ensureCompiled module function state =
        .error error ⟨area.env, { state.machine with code := area.code }⟩ := by
      unfold ensureCompiled
      rw [run_get_bind, hmodule]
      exact run_bind_of_error hcode
    refine .inr ⟨error, _, hensure, ?_, rfl⟩
    have hcompiled := CodeArea.compiled found function ⟨state.env, state.machine.code⟩
    rw [hcompile] at hcompiled
    cases hcompiled with
    | unknown hunknown => cases hunknown.symm.trans hfunction
    | unlinked hfound hnone => exact Option.some.inj (hfound.symm.trans hfunction) ▸ hnone
    | refused hfound hnone => exact Option.some.inj (hfound.symm.trans hfunction) ▸ hnone
    | failed hfound hnone => exact Option.some.inj (hfound.symm.trans hfunction) ▸ hnone

theorem find_outcome (name : String) (state : MachineState) : FindOutcome name state (find name state) := by
  unfold find MachineM.recording
  rw [run_get_bind]
  dsimp only
  by_cases hmodules : state.machine.modules = #[]
  · rw [if_pos (Array.isEmpty_iff.2 hmodules)]
    exact .empty hmodules rfl
  rw [if_neg (by simpa using hmodules)]
  cases hlookup : lookup? state.machine.modules name state.machine.modules.size with
  | none =>
    refine .unnamed hmodules (fun module function hshows => ?_) rfl
    exact lookup?_eq_none_iff.1 hlookup module hshows.lt_size function hshows
  | some target =>
    obtain ⟨module, function⟩ := target
    have hselects := lookup?_eq_some_iff_selects.1 hlookup
    obtain ⟨func, hfunc, -⟩ := hselects.shows
    dsimp only
    rcases ensureCompiled_cases hfunc with ⟨entry, state', hcompile, hentered⟩ | ⟨error, state', hcompile, hcode, hsame⟩
    · rw [run_bind_of_ok hcompile]
      exact .found hselects hcompile hentered
    · rw [run_bind_of_error hcompile]
      exact .failed hselects hcompile hfunc hcode hsame

end Machine

/-! ## Entries last -/

/-- Functions stay apart from their entries, and those that have entries keep having some. -/
def Machine.Retains (machine machine' : Machine) : Prop :=
  ∀ module function func, machine.func? module function = some func →
    ∃ code, machine'.func? module function = some { func with code } ∧ (func.code.isSome → code.isSome)

namespace Machine.Retains

variable {machine machine' between : Machine}

theorem of_func?_eq (h : machine'.func? = machine.func?) : machine.Retains machine' := by
  intro module function func hfunc
  exact ⟨func.code, h ▸ hfunc, fun hcode => hcode⟩

theorem refl (machine : Machine) : machine.Retains machine :=
  of_func?_eq rfl

theorem trans (h : machine.Retains between) (h' : between.Retains machine') : machine.Retains machine' := by
  intro module function func hfunc
  obtain ⟨code, hbetween, hkept⟩ := h module function func hfunc
  obtain ⟨code', hafter, hkept'⟩ := h' module function _ hbetween
  exact ⟨code', hafter, fun hcode => hkept' (hkept hcode)⟩

theorem storeCode (machine : Machine) (index : Nat) (entries : List (Nat × CodeRef)) :
    machine.Retains (machine.storeCode index entries) := by
  intro module function func hfunc
  rw [func?_storeCode]
  by_cases heq : module = index
  · refine ⟨(entries.lookup function).or func.code, by simp [heq, heq ▸ hfunc], fun hcode => ?_⟩
    rw [Option.isSome_or, hcode, Bool.or_true]
  · exact ⟨func.code, by simp [heq, hfunc], fun hcode => hcode⟩

theorem push (machine : Machine) (module : Module) :
    machine.Retains { machine with modules := machine.modules.push module } := by
  intro index function func hfunc
  obtain ⟨found, hfound, hfunction⟩ := Option.bind_eq_some_iff.1 hfunc
  refine ⟨func.code, Option.bind_eq_some_iff.2 ⟨found, ?_, hfunction⟩, fun hcode => hcode⟩
  rwa [Array.getElem?_push_lt (Array.getElem?_eq_some_iff.1 hfound).1, ← Array.getElem?_eq_getElem]

end Machine.Retains

namespace MachineState

variable {permit : Permit} {state state' : MachineState}

theorem Event.retains (h : Event permit state state') : state.machine.Retains state'.machine := by
  cases h with
  | environment machine hevent => exact .refl _
  | tend env hmodules hcode hmemory hid =>
    apply Machine.Retains.of_func?_eq
    unfold Machine.func?
    rw [hmodules]
  | bound env machine pages hbounds => exact .refl _
  | memory hevent => exact .refl _
  | compile hmodule hcompile => exact .storeCode _ _ _
  | failCompile hmodule hcompile => exact .refl _
  | link hfunc hlinks hinstall => exact .storeCode _ _ _
  | failLink hinstall => exact .refl _
  | run hmodule hexecute => exact .storeCode _ _ _
  | push env machine hloads howner => exact .push machine _

theorem Events.retains (h : Events permit state state') : state.machine.Retains state'.machine := by
  induction h with
  | refl => exact .refl _
  | tail _ hevent ih => exact ih.trans hevent.retains

end MachineState

namespace Session

variable {session session' : Session} {name : String} {machine : Machine}

theorem Effects.retains {permit : String → Permit} (h : Effects permit session session')
    (hget : session.machines.get? name = some machine) (hkept : ¬(permit name).replaces) :
    ∃ machine', session'.machines.get? name = some machine' ∧ machine.Retains machine' := by
  induction h with
  | refl => exact ⟨machine, hget, .refl _⟩
  | tail _ heffect ih =>
    obtain ⟨between, hbetween, hretains⟩ := ih
    obtain ⟨state, hevents, hafter⟩ := heffect.machine hbetween hkept
    exact ⟨state.machine, hafter, hretains.trans hevents.retains⟩

/-- A machine that is not replaced retains the entries of its functions. -/
theorem performAll_retains (actions : List Action) (hget : session.machines.get? name = some machine)
    (hkept : ∀ action ∈ actions, ¬action.Replaces name) :
    ∃ machine', (session.performAll actions).machines.get? name = some machine' ∧ machine.Retains machine' := by
  induction actions generalizing session machine with
  | nil => exact ⟨machine, hget, .refl _⟩
  | cons action actions ih =>
    obtain ⟨hfirst, hothers⟩ := List.forall_mem_cons.1 hkept
    obtain ⟨between, hbetween, hretains⟩ := Effects.retains (perform_effects session action) hget hfirst
    obtain ⟨machine', hget', hretains'⟩ := ih hbetween hothers
    exact ⟨machine', hget', hretains.trans hretains'⟩

end Session

/-! ## Calls of functions that have entries -/

/-- Growing a memory does not fail for want of code. -/
theorem LinearMemory.growTo_ne_missingCode {pages : Nat} {state after : MemoryState} :
    growTo pages state ≠ .error .missingCode after := by
  intro hgrow
  have hgrowth := growth pages state
  rw [hgrow] at hgrowth
  cases hgrowth

namespace Machine

variable {module function : Nat} {func : Func} {entry : CodeRef} {state state' : MachineState}

theorem Copying.ne_missingCode {texts : List (List UInt8)} :
    ¬Copying texts state (.error .missingCode state') := by
  intro h
  cases h with
  | noRoom _ _ hgrow => exact LinearMemory.growTo_ne_missingCode hgrow

variable (hfunc : state.machine.func? module function = some func) (hcode : func.code = some entry)

include hfunc hcode

/-- A call of a function that has an entry and fails for want of code has run. -/
theorem admitted_of_missingCode {texts : List String}
    (h : call module function texts state = .error .missingCode state') :
    ∃ found func entry slots, Decides state.machine module function texts (.admitted found func entry slots) := by
  obtain ⟨found, hmodule, hfunction⟩ := Option.bind_eq_some_iff.1 hfunc
  obtain ⟨verdict, hdecides⟩ := exists_decides state.machine module function texts
  cases verdict with
  | admitted found func entry slots => exact ⟨found, func, entry, slots, hdecides⟩
  | refused error touched =>
    obtain ⟨stack, hcall, -⟩ := hdecides.call_refused
    cases hcall.symm.trans h
    cases hdecides with
    | noEntry hmodule' hfunction' hnone =>
      cases hmodule.symm.trans hmodule'
      cases hfunction.symm.trans hfunction'
      cases hcode.symm.trans hnone

theorem entered_of_missingCode {arguments : List String}
    (h : callMain module function arguments state = .error .missingCode state') :
    ∃ found entered, enterMain module function arguments state = .ok found entered := by
  obtain ⟨found, hmodule, hfunction⟩ := Option.bind_eq_some_iff.1 hfunc
  have hentry := entryPoint_of_code hmodule hfunction hcode
  have hentering := entering module function arguments state
  cases hmain : enterMain module function arguments state with
  | ok found entered => exact ⟨found, entered, rfl⟩
  | error error after =>
    cases (callMain_of_refused hmain).symm.trans h
    rw [hmain] at hentering
    cases hentering with
    | unknown _ hunknown => cases hentry.symm.trans hunknown
    | refused _ _ _ _ hcopying => exact absurd hcopying Copying.ne_missingCode

end Machine

/-- A function goes by a name and has an entry, and calls of it are not refused for want of code. -/
structure Machine.Callable (env : Environment) (machine : Machine) (name : String) (module function : Nat) : Prop where
  entry : ∃ func, machine.func? module function = some func ∧ func.name = some name ∧ func.code.isSome
  call : ∀ texts state', Machine.call module function texts ⟨env, machine⟩ = .error .missingCode state' →
    ∃ found func entry slots, machine.Decides module function texts (.admitted found func entry slots)
  callMain : ∀ texts state', Machine.callMain module function texts ⟨env, machine⟩ = .error .missingCode state' →
    ∃ found entered, Machine.enterMain module function texts ⟨env, machine⟩ = .ok found entered

theorem Machine.Callable.of_code {env : Environment} {machine : Machine} {name : String} {module function : Nat}
    {func : Func} {entry : CodeRef} (hfunc : machine.func? module function = some func) (hname : func.name = some name)
    (hcode : func.code = some entry) : machine.Callable env name module function where
  entry := ⟨func, hfunc, hname, Option.isSome_of_eq_some hcode⟩
  call _ _ h := admitted_of_missingCode hfunc hcode h
  callMain _ _ h := entered_of_missingCode hfunc hcode h

/-! ## Sessions -/

namespace Session

/-- A function that has an entry can be called whatever a host does without replacing the machine. -/
theorem callable_performAll {session : Session} {name display : String} {machine : Machine} {module function : Nat}
    {func : Func} {entry : CodeRef} (hget : session.machines.get? name = some machine)
    (hfunc : machine.func? module function = some func) (hname : func.name = some display)
    (hcode : func.code = some entry) (later : List Action) (hkept : ∀ action ∈ later, ¬action.Replaces name) :
    ∃ last, (session.performAll later).machines.get? name = some last ∧
      last.Callable (session.performAll later).env display module function := by
  obtain ⟨last, hlast, hretains⟩ := performAll_retains later hget hkept
  obtain ⟨code, hfound, hsome⟩ := hretains module function func hfunc
  obtain ⟨start, rfl⟩ := Option.isSome_iff_exists.1 (hsome (Option.isSome_of_eq_some hcode))
  exact ⟨last, hlast, .of_code hfound hname rfl⟩

/-- A lookup by a display name fails in a machine without modules, and if no function goes by the name. Otherwise it is
about the first function of that name in the module loaded last that has one. Either this function is given an entry and
no other function changes: then whatever the host does without replacing the machine, the function can be called. Or it
cannot be compiled: then it has no entry, no function changes, and the pages of every machine are on its two chains. -/
theorem found_by_name (backing : Option Nat) (config : Config) (host : Host) (heap : Heap) (earlier : List Action)
    (name display : String) :
    let before := (startWithin backing config host heap).performAll earlier
    let outcome : Option (Except Error (Nat × Nat)) := (before.perform (.find name display)).1
    let after := (before.perform (.find name display)).2
    ∀ machine, before.machines.get? name = some machine → ∃ machine', after.machines.get? name = some machine' ∧
      (machine.modules = #[] → outcome = some (.error .noModulesLoaded)) ∧
      (machine.modules ≠ #[] → (∀ module function, ¬machine.Shows display module function) →
        outcome = some (.error .functionLookupFailed)) ∧
      ((∃ module function, machine.Shows display module function) →
        ∃ module function, machine.Selects display module function ∧
          ((∃ entry, outcome = some (.ok (module, function)) ∧
              machine'.func? = Placement.enter machine.func? module function entry ∧
              ∀ later, (∀ action ∈ later, ¬action.Replaces name) → ∃ last,
                (after.performAll later).machines.get? name = some last ∧
                  last.Callable (after.performAll later).env display module function) ∨
            ∃ error, outcome = some (.error error) ∧
              resultOf (Machine.ensureCompiled module function ⟨before.env, machine⟩) = .error error ∧
              (∃ func, machine'.func? module function = some func ∧ func.code = none) ∧
              machine'.func? = machine.func? ∧
              ∀ other machine'', after.machines.get? other = some machine'' →
                machine''.code.numOpen + machine''.code.numFull = machine''.code.numTotal)) := by
  intro before outcome after machine hget
  have houtcome : outcome = some (resultOf (Machine.find display ⟨before.env, machine⟩)) := outcome_onMachine hget
  have hafter : after.machines.get? name = some (stateAfter (Machine.find display ⟨before.env, machine⟩)).machine :=
    get?_onMachine hget
  refine ⟨_, hafter, ?_⟩
  rw [houtcome]
  have hfind := Machine.find_outcome display ⟨before.env, machine⟩
  generalize Machine.find display ⟨before.env, machine⟩ = result at hfind hafter ⊢
  cases hfind with
  | empty hmodules hsame =>
    refine ⟨fun _ => rfl, fun hsome => absurd hmodules hsome, ?_⟩
    rintro ⟨module, function, hshows⟩
    exact absurd hmodules hshows.modules_ne
  | unnamed hmodules hnone hsame =>
    refine ⟨fun hempty => absurd hempty hmodules, fun _ _ => rfl, ?_⟩
    rintro ⟨module, function, hshows⟩
    exact absurd hshows (hnone module function)
  | @failed module function func error between state' hselects hcompile hfunc hcode hsame =>
    refine ⟨fun hempty => absurd hempty hselects.shows.modules_ne,
      fun _ hnone => absurd hselects.shows (hnone module function), fun _ => ⟨module, function, hselects, .inr ?_⟩⟩
    refine ⟨error, rfl, congrArg resultOf hcompile, ⟨func, ?_, hcode⟩, hsame, fun other machine'' hother => ?_⟩
    · change state'.machine.func? module function = some func
      rw [hsame]
      exact hfunc
    · have hsound := (sound_startWithin backing config host heap).reaches
        ((performAll_reaches _ earlier).trans (perform_reaches before (.find name display)))
      obtain ⟨opens, fulls, hlaid⟩ := hsound.laid _ (mem_places_of_get? hother)
      exact hlaid.settled.2.1
  | @found module function entry state' hselects hcompile hentered =>
    refine ⟨fun hempty => absurd hempty hselects.shows.modules_ne,
      fun _ hnone => absurd hselects.shows (hnone module function), fun _ => ⟨module, function, hselects, .inl ?_⟩⟩
    obtain ⟨func, hfunc, hname⟩ := hselects.shows
    have hentry : state'.machine.func? module function = some { func with code := some entry } := by
      rw [hentered]
      exact Placement.enter_self hfunc entry
    exact ⟨entry, rfl, hentered, callable_performAll hafter hentry hname rfl⟩

/-- Three functions go by one name. The lookup finds the first of the two in the second module, which can be called
after a module with another one was loaded. -/
theorem found_by_name_latest :
    let before := (startWithin (some 0x800000000000) {} (.ofBackends .threaded .threaded none) (.system 0)).performAll
      [.create "a" 64, .build "m" [.function "v()" 0 [0x0B], .exportFunction 0 "f"], .copy "m" "o",
        .build "n" [.function "v()" 0 [0x0B], .function "v()" 0 [0x0B], .function "v()" 0 [0x0B], .exportFunction 2 "f",
          .exportFunction 1 "f"],
        .load "a" "m", .load "a" "n"]
    let outcome : Option (Except Error (Nat × Nat)) := (before.perform (.find "a" "f")).1
    let later := (before.perform (.find "a" "f")).2.performAll [.load "a" "o", .call "a" 1 1 []]
    ∃ machine last, before.machines.get? "a" = some machine ∧ machine.Shows "f" 0 0 ∧ machine.Selects "f" 1 1 ∧
      outcome = some (.ok (1, 1)) ∧ later.machines.get? "a" = some last ∧ last.Callable later.env "f" 1 1 := by
  intro before outcome later
  have hshown : (before.machines.get? "a").map (fun machine => (machine.func? 0 0).map Func.name) =
      some (some (some "f")) := by decide +kernel
  obtain ⟨machine, hget, hshown⟩ := Option.map_eq_some_iff.1 hshown
  have hshows : machine.Shows "f" 0 0 := Option.map_eq_some_iff.1 hshown
  have houtcome : outcome = some (.ok (1, 1)) := by decide +kernel
  have hkept : ∀ action ∈ ([.load "a" "o", .call "a" 1 1 []] : List Action), ¬action.Replaces "a" := by
    simp [Action.Replaces]
  obtain ⟨machine', -, -, -, hfound⟩ := found_by_name _ _ _ _ _ "a" "f" machine hget
  obtain ⟨module, function, hselects, ⟨entry, hfound, -, hcallable⟩ | ⟨error, hfailed, -⟩⟩ := hfound ⟨0, 0, hshows⟩
  · cases houtcome.symm.trans hfound
    obtain ⟨last, hlast, hcallable⟩ := hcallable _ hkept
    exact ⟨machine, last, hget, hshows, hselects, houtcome, hlast, hcallable⟩
  · cases houtcome.symm.trans hfailed

end Session

end WasmEngine

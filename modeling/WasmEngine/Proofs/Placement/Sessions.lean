import WasmEngine.Proofs.Machine.Crowding
import WasmEngine.Proofs.Session.Modules

/-!
# Code stays where it is

In every session with the threaded compiler, or with none, functions keep their entries and, as long as all lines have
numbers, the lines that stand there. Only a link that binds an import again gives it another entry (`Action.Binds`).
-/

namespace WasmEngine

open Placement (Placed Steps)

/-- The modules in some slots that are in no machine have functions without entries. -/
def Table.Fresh (slots : Table Module) : Prop :=
  ∀ slot module, slots.get? slot = some module → module.isLinked = false → WasmEngine.Fresh module.functions

namespace Session

variable {session session' : Session}

/-- Slots get modules from machines, which belong to them, or modules that were never in one. -/
theorem fresh_perform (h : session.slots.Fresh)
    (howned : ∀ name machine, session.machines.get? name = some machine → machine.Owned) (action : Action) :
    (session.perform action).2.slots.Fresh := by
  intro slot module hslot
  cases yields_perform session action slot module hslot with
  | kept hkept => exact h _ _ hkept
  | named hkept name =>
    have hfresh := h _ _ hkept
    exact hfresh
  | built items => exact fun _ => (Draft.adds_addAll _ items _).1 WasmEngine.Fresh.empty
  | decoded hdecode => exact fun _ => Module.fresh_decode hdecode
  | loaded hget hmodule =>
    intro hunlinked
    have hlinked : module.isLinked = true := congrArg Option.isSome (howned _ _ hget _ module hmodule)
    cases hlinked.symm.trans hunlinked
  | returned hget hgiven hload =>
    obtain ⟨rfl, hlinked⟩ | ⟨hfunctions, hlinked⟩ := Machine.load_refused hload
    · intro hunlinked
      cases hlinked.symm.trans hunlinked
    · rw [hfunctions]
      exact fun _ => h _ _ hgiven hlinked

end Session

/-! ## Machines -/

/-- The modules of a machine belong to it, and its functions have their code where their entries say. -/
structure Machine.Orderly (machine : Machine) : Prop where
  owned : machine.Owned
  placed : machine.code.Addressable → ∃ region, machine.placement.Placed region

theorem Machine.Orderly.of_new {machine : Machine} (hmodules : machine.modules = #[]) : machine.Orderly := by
  have hnone (index function : Nat) : machine.placement.functions index function = none := by
    simp [Machine.placement, Machine.func?, hmodules]
  refine ⟨fun index module hmodule => ?_, fun _ => ⟨fun _ _ => [], ?_, ?_, ?_⟩⟩
  · simp [hmodules] at hmodule
  · intro index function func entry hfunc
    cases (hnone index function).symm.trans hfunc
  · intro index function entry hentry
    simp [Placement.entryOf, hnone] at hentry
  · intro index function entry _ _ _ hentry
    simp [Placement.entryOf, hnone] at hentry

theorem Machine.Orderly.events {permit : Permit} {state state' : MachineState} (h : state.machine.Orderly)
    (hevents : MachineState.Events permit state state') (hpermit : permit.Sane)
    (hcompiler : state.env.host.compiler.Standard) : state'.machine.Orderly := by
  have hsteps := (hevents.steps hpermit hcompiler).2
  refine ⟨hevents.owned h.owned, fun haddr => ?_⟩
  obtain ⟨region, hplaced⟩ := h.placed (haddr.of_grows (Steps.grows hsteps))
  exact hplaced.steps hsteps haddr

/-- An action binds an import of a machine: it is a link that gives the import an entry. -/
def Action.Binds (session : Session) (action : Action) (name : String) (index function : Nat) : Prop :=
  ∃ module field signature link machine, action = .link name index module field signature link ∧
    session.machines.get? name = some machine ∧
    Machine.BoundBy index module field signature link ⟨session.env, machine⟩ function

namespace Session

variable {session session' : Session} {permit : String → Permit} {name : String} {machine : Machine}

theorem Effects.host_eq (h : Effects permit session session') : session'.env.host = session.env.host :=
  (Engine.Reaches.fixed (Effects.reaches h)).2

/-- What happens to a machine that is not replaced are steps of placement. -/
theorem Effects.steps (h : Effects permit session session') (hpermit : ∀ name, (permit name).Sane)
    (hcompiler : session.env.host.compiler.Standard) {name : String} {machine : Machine}
    (hget : session.machines.get? name = some machine) (hkept : ¬(permit name).replaces) :
    ∃ machine', session'.machines.get? name = some machine' ∧
      Steps (permit name).links machine.placement machine'.placement := by
  induction h with
  | refl => exact ⟨machine, hget, .refl⟩
  | tail heffects heffect ih =>
    obtain ⟨machine', hget', hsteps⟩ := ih
    obtain ⟨state, hevents, hafter⟩ := heffect.machine hget' hkept
    have hstandard := Effects.host_eq heffects ▸ hcompiler
    exact ⟨state.machine, hafter, hsteps.trans (hevents.steps (hpermit name) hstandard).2⟩

/-- The slots and the machines of a session are in order. -/
structure Orderly (session : Session) : Prop where
  slots : session.slots.Fresh
  machines : ∀ name machine, session.machines.get? name = some machine → machine.Orderly

theorem orderly_startWithin (backing : Option Nat) (config : Config) (host : Host) (heap : Heap) :
    (startWithin backing config host heap).Orderly where
  slots _ _ h := by cases h
  machines _ _ h := by cases h

/-- Only imports are linked. -/
theorem isImport_of_links {action : Action} {name : String} {index : Nat} {func : Func}
    (h : action.Links name index func) : func.isImport = true := by
  obtain ⟨module, field, signature, link, -, hmatch⟩ := h
  unfold Machine.importMatches at hmatch
  split at hmatch
  · cases hmatch
  · rename_i importName himported
    simp [Func.isImport, himported]

/-- Only functions without entries are loaded. -/
theorem fresh_of_loads (h : session.slots.Fresh) {action : Action} {name : String} {functions : Array Func}
    (hloads : (action.permit session name).loads functions) : WasmEngine.Fresh functions := by
  obtain ⟨slot, module, -, hslot, hlinked, rfl⟩ := hloads
  exact h slot module hslot hlinked

theorem Orderly.sane (h : session.Orderly) (action : Action) (name : String) : (action.permit session name).Sane where
  imports _ _ hlinks := isImport_of_links hlinks
  fresh _ hloads := fresh_of_loads h.slots hloads

/-- Every action keeps a session orderly. -/
theorem Orderly.perform (h : session.Orderly) (hcompiler : session.env.host.compiler.Standard) (action : Action) :
    (session.perform action).2.Orderly := by
  refine ⟨fresh_perform h.slots (fun name machine hget => (h.machines name machine hget).owned) action, ?_⟩
  have heffects := perform_effects session action
  generalize (session.perform action).2 = after at heffects ⊢
  induction heffects with
  | refl => exact h.machines
  | tail heffects heffect ih =>
    refine heffect.forall_machines (fun _ hcreate => .of_new (Machine.create_eq_ok hcreate).2.1) ?_ ih
    intro name machine state hevents hmachine
    exact hmachine.events hevents (h.sane action name) (Effects.host_eq heffects ▸ hcompiler)

theorem Orderly.performAll (h : session.Orderly) (hcompiler : session.env.host.compiler.Standard)
    (actions : List Action) : (session.performAll actions).Orderly := by
  induction actions generalizing session with
  | nil => exact h
  | cons action actions ih =>
    exact ih (h.perform hcompiler action) (Effects.host_eq (perform_effects session action) ▸ hcompiler)

/-- A function that has an entry stays as it is in an action that does not bind it. -/
theorem keeps_perform (hget : session.machines.get? name = some machine) {action : Action} {machine' : Machine}
    (hget' : (session.perform action).2.machines.get? name = some machine')
    (hsteps : Steps (action.Links name) machine.placement machine'.placement) {index function : Nat} {func : Func}
    {entry : CodeRef} (hfunc : machine.func? index function = some func) (hcode : func.code = some entry) :
    machine'.func? index function = some func ∨ func.isImport = true ∧ action.Binds session name index function := by
  obtain hkept | hlinks := Steps.keeps hsteps hfunc hcode
  · exact .inl hkept
  · have himport := isImport_of_links hlinks
    obtain ⟨module, field, signature, link, rfl, -⟩ := hlinks
    by_cases hbound : Machine.BoundBy index module field signature link ⟨session.env, machine⟩ function
    · exact .inr ⟨himport, module, field, signature, link, machine, rfl, hget, hbound⟩
    · cases hget'.symm.trans (get?_onMachine hget)
      exact .inl ((Machine.func?_link hbound).trans hfunc)

/-- What actions do to a machine that they do not replace are steps of placement, and entries stay unless an action
binds the function. -/
theorem Orderly.steps (h : session.Orderly) (hcompiler : session.env.host.compiler.Standard) (actions : List Action)
    (hget : session.machines.get? name = some machine) (hkept : ∀ action ∈ actions, ¬action.Replaces name) :
    ∃ machine', (session.performAll actions).machines.get? name = some machine' ∧
      Steps (fun _ _ => True) machine.placement machine'.placement ∧
      ∀ index function func entry, machine.func? index function = some func → func.code = some entry →
        machine'.func? index function = some func ∨ func.isImport = true ∧
          ∃ first action rest, actions = first ++ action :: rest ∧
            action.Binds (session.performAll first) name index function := by
  induction actions generalizing session machine with
  | nil => exact ⟨machine, hget, .refl, fun _ _ _ _ hfunc _ => .inl hfunc⟩
  | cons action actions ih =>
    obtain ⟨hfirst, hothers⟩ := List.forall_mem_cons.1 hkept
    have heffects := perform_effects session action
    obtain ⟨between, hbetween, hsteps⟩ := Effects.steps heffects (h.sane action) hcompiler hget hfirst
    obtain ⟨machine', hget', hsteps', hstays⟩ :=
      ih (h.perform hcompiler action) (Effects.host_eq heffects ▸ hcompiler) hbetween hothers
    have hall : Steps (fun _ _ => True) machine.placement between.placement :=
      Relation.ReflTransGen.mono (fun _ _ => Placement.Step.mono fun _ _ _ => trivial) _ _ hsteps
    refine ⟨machine', hget', hall.trans hsteps', fun index function func entry hfunc hcode => ?_⟩
    obtain hfunc' | ⟨himport, hbinds⟩ := keeps_perform hget hbetween hsteps hfunc hcode
    · obtain hafter | ⟨himport, first, other, rest, rfl, hbinds⟩ := hstays index function func entry hfunc' hcode
      · exact .inl hafter
      · exact .inr ⟨himport, action :: first, other, rest, rfl, hbinds⟩
    · exact .inr ⟨himport, [], action, actions, rfl, hbinds⟩

/-- Whatever a host does later without replacing a machine, a function of the machine that has an entry keeps it unless
it is an import that a link binds again. As long as all lines have numbers, the lines that the function emitted stand at
its entry; indeed no line of code ever changes, and functions have no lines in common. A function that has an entry is
not compiled again, and one that gets compiled while code runs is compiled once and has its entry after the run. -/
theorem code_stable (backing : Option Nat) (config : Config) (host : Host) (heap : Heap)
    (hcompiler : host.compiler.Standard) (earlier later : List Action) (name : String)
    (hkept : ∀ action ∈ later, ¬action.Replaces name) :
    let before := (startWithin backing config host heap).performAll earlier
    let after := before.performAll later
    ∀ machine, before.machines.get? name = some machine → ∃ machine', after.machines.get? name = some machine' ∧
      (∀ index function func entry, machine.func? index function = some func → func.code = some entry →
        machine'.func? index function = some func ∨ func.isImport = true ∧
          ∃ first action rest, later = first ++ action :: rest ∧
            action.Binds (before.performAll first) name index function) ∧
      (machine'.code.Addressable →
        (∃ region, machine.placement.Placed region ∧
          ∀ index function entry, machine.placement.entryOf index function = some entry →
            machine'.code.Holds entry (region index function)) ∧
        (∀ address line, machine.code.line? address = some line → machine'.code.line? address = some line) ∧
        ∃ region, machine'.placement.Placed region) ∧
      (∀ index function func entry, machine'.func? index function = some func → func.code = some entry →
        Machine.ensureCompiled index function ⟨after.env, machine'⟩ = .ok entry ⟨after.env, machine'⟩) ∧
      ∀ (index function : Nat) module func, machine'.modules[index]? = some module →
        module.functions[function]? = some func →
        ∀ (state next : ExecState) entry, state.ensureCompiled module function = (.ok entry, next) →
          ∀ program : Exec Unit,
            let final := (program.run.run (ExecState.answer module) next).2
            final.ensureCompiled module function = (.ok entry, final) ∧
              (machine'.storeCode index final.compiled).placement.entryOf index function = some entry := by
  intro before after machine hget
  have hhost : before.env.host = host := (Engine.Reaches.fixed (performAll_reaches _ earlier)).2
  have horderly : before.Orderly := (orderly_startWithin backing config host heap).performAll hcompiler earlier
  obtain ⟨machine', hget', hsteps, hstays⟩ := horderly.steps (hhost ▸ hcompiler) later hget hkept
  refine ⟨machine', hget', hstays, fun haddr => ?_, fun index function func entry hfunc hcode =>
    Machine.ensureCompiled_of_func? hfunc hcode after.env, ?_⟩
  · have hextends := Steps.extends hsteps haddr
    obtain ⟨region, hplaced⟩ := (horderly.machines name machine hget).placed (haddr.of_grows hextends.grows)
    refine ⟨⟨region, hplaced, fun index function entry hentry => ?_⟩, fun address line => hextends.line?,
      hplaced.steps hsteps haddr⟩
    exact (hplaced.held index function entry hentry).extends hextends
  · intro index function module func hmodule hfunc state next entry hcompiled program final
    have hfinal : final.entryOf module function = some entry :=
      ExecState.entryOf_run (ExecState.entryOf_of_ensureCompiled hcompiled) program
    exact ⟨ExecState.ensureCompiled_of_entryOf hfinal, Machine.entryOf_storeCode hmodule hfunc hfinal⟩

/-- A function keeps its entry on line 2 while a call compiles another one and traps, a second module is loaded and
linked, and the import that it calls in the end is linked again on another page. -/
theorem code_stable_relinked :
    let link : HostLink := { function := ⟨fun _ => pure ()⟩ }
    let before := (startWithin none { codePageAlign := 256, freeLineThreshold := 3 }
      (.ofBackends .threaded .threaded none) (.system 0)).performAll
        [.create "a" 64,
          .build "m" [.importFunction ⟨"env", "f"⟩ "v()", .function "v()" 0 [0x10, 0x00, 0x0B],
            .function "v()" 0 [0x10, 0x01, 0x00, 0x0B], .exportFunction 2 "g"],
          .copy "m" "n", .load "a" "m", .link "a" 0 "env" "f" "v()" link, .find "a" "g"]
    let after := before.performAll
      [.call "a" 0 2 [], .load "a" "n", .link "a" 1 "env" "f" "v()" link, .find "a" "g",
        .link "a" 0 "env" "f" "v()" link]
    ∃ machine machine' func, before.machines.get? "a" = some machine ∧ after.machines.get? "a" = some machine' ∧
      machine.placement.entryOf 0 0 = some ⟨0, 0⟩ ∧ machine'.placement.entryOf 0 0 = some ⟨1, 9⟩ ∧
      machine.func? 0 2 = some func ∧ func.code = some ⟨0, 2⟩ ∧ machine'.func? 0 2 = some func ∧
      ∃ region, machine'.placement.Placed region := by
  intro link before after
  have hbefore : (before.machines.get? "a").map (fun machine => (machine.placement.entryOf 0 0,
      (machine.func? 0 2).map fun func => (func.code, func.isImport))) =
        some (some ⟨0, 0⟩, some (some ⟨0, 2⟩, false)) := by decide +kernel
  obtain ⟨machine, hget, hentries⟩ := Option.map_eq_some_iff.1 hbefore
  obtain ⟨himport, hdefined⟩ := Prod.ext_iff.1 hentries
  obtain ⟨func, hfunc, hcode⟩ := Option.map_eq_some_iff.1 hdefined
  have hkept : ∀ action ∈ ([.call "a" 0 2 [], .load "a" "n", .link "a" 1 "env" "f" "v()" link, .find "a" "g",
      .link "a" 0 "env" "f" "v()" link] : List Action), ¬action.Replaces "a" := by
    simp [Action.Replaces]
  obtain ⟨machine', hget', hstays, hstable, -, -⟩ :=
    code_stable none _ (.ofBackends .threaded .threaded none) _ (.inl rfl) _ _ "a" hkept machine hget
  have hafter : (after.machines.get? "a").map (fun machine => (machine.placement.entryOf 0 0,
      machine.code.pages.all fun page => page.lines.size ≤ 0xFFFFFFFF)) = some (some ⟨1, 9⟩, true) := by decide +kernel
  obtain ⟨found, hfound, hfacts⟩ := Option.map_eq_some_iff.1 hafter
  cases hget'.symm.trans hfound
  obtain ⟨hmoved, hsizes⟩ := Prod.ext_iff.1 hfacts
  obtain ⟨-, -, hplaced⟩ := hstable (CodeStore.addressable_of_all hsizes)
  have hcode' : func.code = some ⟨0, 2⟩ := congrArg Prod.fst hcode
  have hsame : machine'.func? 0 2 = some func := by
    refine (hstays 0 2 func _ hfunc hcode').resolve_right ?_
    rintro ⟨himport, -⟩
    cases himport.symm.trans (congrArg Prod.snd hcode)
  exact ⟨machine, machine', func, hget, hget', himport, hmoved, hfunc, hcode', hsame, hplaced⟩

/-- An import that is bound gets another entry by a link that fails, as it goes on to an import of another type. Where
lines have no numbers any more, two imports get the same entry. -/
theorem entry_moved_by_failed_link :
    let link : HostLink := { function := ⟨fun _ => pure ()⟩ }
    let before := (startWithin none {} (.ofBackends .threaded .threaded none) (.system 0)).performAll
      [.build "m" [.importFunction ⟨"env", "f"⟩ "v(i)", .importFunction ⟨"env", "f"⟩ "v()"], .create "a" 64,
        .load "a" "m", .link "a" 0 "env" "f" "v(i)" { link with cookie := some 7 }]
    let again := before.perform (.link "a" 0 "env" "f" "v(i)" link)
    (again.1 = some (.error .signatureMismatch) ∧
      (before.machines.get? "a").bind (fun machine => machine.placement.entryOf 0 0) = some ⟨0, 0⟩ ∧
      (again.2.machines.get? "a").bind (fun machine => machine.placement.entryOf 0 0) = some ⟨0, 3⟩) ∧
    ∃ count machine, ((relinked count).perform linkAgain).2.machines.get? "a" = some machine ∧
      machine.placement.entryOf 0 0 = some ⟨0, 0xFFFFFFFF⟩ ∧
      machine.placement.entryOf 0 1 = some ⟨0, 0xFFFFFFFF⟩ := by
  intro link before again
  refine ⟨by decide +kernel, ?_⟩
  obtain ⟨count, machine, after, hget, hlink, hentry, hentry'⟩ :=
    exists_sharedEntry (show (HostLink.mk ⟨fun _ => pure ()⟩ none).cookie = none from rfl)
  refine ⟨count, after.machine, ?_, hentry, hentry'⟩
  refine (get?_onMachine hget).trans ?_
  rw [hlink]
  rfl

end Session

end WasmEngine

import WasmEngine.Proofs.Ownership.Machines
import WasmEngine.Proofs.Placement.Sessions

/-!
# Modules belong to machines, and entries to their code

A module in a machine belongs to it, a module that belongs to none has no entries, and the code of a machine issues all
the entries that its functions get.
-/

namespace WasmEngine

/-! ## Machines -/

/-- The modules of a machine belong to it, and their entries name places in its code. -/
structure Machine.OwnsCode (machine : Machine) : Prop where
  owned : machine.Owned
  sound : machine.directory.Sound

namespace Machine.OwnsCode

variable {machine : Machine} {permit : Permit} {state state' : MachineState}

theorem of_new (hmodules : machine.modules = #[]) : machine.OwnsCode where
  owned index module hmodule := by simp [hmodules] at hmodule
  sound key entry hentry := by simp [directory, func?, hmodules] at hentry

theorem events (h : state.machine.OwnsCode) (hevents : MachineState.Events permit state state')
    (hfresh : ∀ functions, permit.loads functions → Fresh functions) : state'.machine.OwnsCode :=
  ⟨hevents.owned h.owned, h.sound.advances (hevents.advances hfresh)⟩

theorem names (h : machine.OwnsCode) {index function : Nat} {module : Module} {entry : CodeRef}
    (hmodule : machine.modules[index]? = some module) (hentry : module.codeOf function = some entry) :
    machine.code.Names entry :=
  h.sound (index, function) entry ((entryOf_directory hmodule).trans hentry)

theorem serves (h : machine.OwnsCode) {index : Nat} {module : Module}
    (hmodule : machine.modules[index]? = some module) : machine.code.Serves module :=
  CodeStore.serves_of_sound fun _ _ hentry => h.names hmodule hentry

end Machine.OwnsCode

theorem Machine.machinesMade_dispose (machine : Machine) (env : Environment) :
    (machine.dispose env).machinesMade = env.machinesMade := by
  unfold Machine.dispose
  cases machine.memory.grant with
  | none => rfl
  | some block => rfl

namespace Session

variable {session session' : Session} {permit : String → Permit} {number : String → Nat}

/-! ## The numbers of machines -/

/-- The machines have the numbers of different ones among those that were made. -/
structure Numbered (session : Session) (number : String → Nat) : Prop where
  id_eq : ∀ name machine, session.machines.get? name = some machine → machine.id = ⟨UInt32.ofNat (number name)⟩
  made : ∀ name machine, session.machines.get? name = some machine → number name < session.env.machinesMade
  differ : ∀ name other machine machine', session.machines.get? name = some machine →
    session.machines.get? other = some machine' → number name = number other → name = other

/-- Numbers stay where no machine is new. -/
theorem Numbered.of_kept (h : session.Numbered number)
    (hkept : ∀ name machine', session'.machines.get? name = some machine' →
      ∃ machine, session.machines.get? name = some machine ∧ machine'.id = machine.id)
    (hmade : session.env.machinesMade ≤ session'.env.machinesMade) : session'.Numbered number where
  id_eq name machine' hget := by
    obtain ⟨machine, hbefore, hid⟩ := hkept name machine' hget
    exact hid.trans (h.id_eq name machine hbefore)
  made name machine' hget := by
    obtain ⟨machine, hbefore, -⟩ := hkept name machine' hget
    exact Nat.lt_of_lt_of_le (h.made name machine hbefore) hmade
  differ name other machine machine' hget hget' heq := by
    obtain ⟨_, hbefore, -⟩ := hkept name machine hget
    obtain ⟨_, hbefore', -⟩ := hkept other machine' hget'
    exact h.differ name other _ _ hbefore hbefore' heq

/-- A new machine gets the next number. -/
theorem Numbered.put (h : session.Numbered number) {name : String} {machine : Machine}
    (hmachines : session'.machines = session.machines.put name machine)
    (hid : machine.id = ⟨UInt32.ofNat session.env.machinesMade⟩)
    (hmade : session'.env.machinesMade = session.env.machinesMade + 1) :
    session'.Numbered fun other => if other = name then session.env.machinesMade else number other := by
  -- The machines of the session are the new one and some that were there.
  have hcases (other : String) (found : Machine) (hget : session'.machines.get? other = some found) :
      other = name ∧ found = machine ∨ other ≠ name ∧ session.machines.get? other = some found := by
    rw [hmachines, Table.get?_put_eq] at hget
    split at hget
    · rename_i heq
      exact .inl ⟨heq, (Option.some.inj hget).symm⟩
    · rename_i hne
      exact .inr ⟨hne, hget⟩
  refine ⟨fun other found hget => ?_, fun other found hget => ?_, fun first second found found' hget hget' heq => ?_⟩
  · obtain ⟨rfl, rfl⟩ | ⟨hne, hget⟩ := hcases other found hget
    · rw [if_pos rfl, hid]
    · rw [if_neg hne, h.id_eq other found hget]
  · obtain ⟨rfl, rfl⟩ | ⟨hne, hget⟩ := hcases other found hget
    · rw [if_pos rfl, hmade]
      exact Nat.lt_succ_self _
    · rw [if_neg hne, hmade]
      exact Nat.lt_succ_of_lt (h.made other found hget)
  · obtain ⟨rfl, rfl⟩ | ⟨hne, hget⟩ := hcases first found hget
    · obtain ⟨rfl, rfl⟩ | ⟨hne', hget'⟩ := hcases second found' hget'
      · rfl
      · rw [if_pos rfl, if_neg hne'] at heq
        exact absurd heq (Nat.ne_of_gt (h.made second found' hget'))
    · obtain ⟨rfl, rfl⟩ | ⟨hne', hget'⟩ := hcases second found' hget'
      · rw [if_neg hne, if_pos rfl] at heq
        exact absurd heq (Nat.ne_of_lt (h.made first found hget))
      · rw [if_neg hne, if_neg hne'] at heq
        exact h.differ first second found found' hget hget' heq

theorem Effect.numbered (heffect : Effect permit session session') (h : session.Numbered number) :
    ∃ number', session'.Numbered number' := by
  have hmade : session.env.machinesMade ≤ session'.env.machinesMade := (Engine.Reaches.lasts heffect.reaches).made
  cases heffect with
  | tend hmachines henv hheap =>
    exact ⟨number, h.of_kept (fun name machine hget => ⟨machine, hmachines ▸ hget, rfl⟩) hmade⟩
  | @work worker machine state hget hevents henv hmachines =>
    refine ⟨number, h.of_kept (fun name machine' hget' => ?_) hmade⟩
    rw [hmachines, Table.get?_put_eq] at hget'
    split at hget'
    · rename_i heq
      cases hget'
      exact ⟨machine, heq ▸ hget, hevents.id_eq⟩
    · exact ⟨machine', hget', rfl⟩
  | create hmakes hreplaces hget hcreate hmachines =>
    obtain ⟨hid, hnext, -⟩ := Machine.create_inherits hcreate
    exact ⟨_, h.put hmachines hid hnext⟩
  | replace hmakes hreplaces hget hcreate henv hmachines =>
    obtain ⟨hid, hnext, -⟩ := Machine.create_inherits hcreate
    refine ⟨_, h.put hmachines hid ?_⟩
    rw [henv, Machine.machinesMade_dispose, hnext]
  | dispose hreplaces hget henv hmachines =>
    refine ⟨number, h.of_kept (fun name machine' hget' => ?_) hmade⟩
    rw [hmachines, Table.get?_erase_eq] at hget'
    split at hget'
    · cases hget'
    · exact ⟨machine', hget', rfl⟩
  | teardown hempty henv hmachines =>
    exact ⟨number, h.of_kept (fun name machine hget => ⟨machine, hmachines ▸ hget, rfl⟩) hmade⟩

theorem Effects.numbered (heffects : Effects permit session session') (h : session.Numbered number) :
    ∃ number', session'.Numbered number' := by
  induction heffects with
  | refl => exact ⟨number, h⟩
  | tail _ heffect ih =>
    obtain ⟨number', hnumbered⟩ := ih
    exact heffect.numbered hnumbered

/-- As long as numbers of 32 bits last, no two machines have the same one. -/
theorem Numbered.eq_of_id_eq (h : session.Numbered number) (hfew : session.env.machinesMade ≤ 0x100000000)
    {name other : String} {machine machine' : Machine} (hget : session.machines.get? name = some machine)
    (hget' : session.machines.get? other = some machine') (hid : machine.id = machine'.id) : name = other := by
  refine h.differ name other machine machine' hget hget' ?_
  rw [h.id_eq name machine hget, h.id_eq other machine' hget'] at hid
  have hnumbers := congrArg (fun id => id.number.toNat) hid
  have hlt := h.made name machine hget
  have hlt' := h.made other machine' hget'
  simp only [UInt32.toNat_ofNat'] at hnumbers
  omega

/-! ## Sessions -/

/-- What happens to a machine that is not replaced: it goes on giving out the entries of its functions. -/
theorem Effects.advances (heffects : Effects permit session session')
    (hfresh : ∀ name functions, (permit name).loads functions → Fresh functions) {name : String} {machine : Machine}
    (hget : session.machines.get? name = some machine) (hkept : ¬(permit name).replaces) :
    ∃ machine', session'.machines.get? name = some machine' ∧ machine'.id = machine.id ∧
      machine.directory.Advances machine'.directory := by
  induction heffects with
  | refl => exact ⟨machine, hget, rfl, .refl _⟩
  | tail _ heffect ih =>
    obtain ⟨between, hbetween, hid, hadvances⟩ := ih
    obtain ⟨state, hevents, hafter⟩ := heffect.machine hbetween hkept
    exact ⟨state.machine, hafter, hevents.id_eq.trans hid, hadvances.trans (hevents.advances (hfresh name))⟩

/-- Modules outside of machines that belong to none have no entries, and those in machines belong to them. -/
structure Owning (session : Session) : Prop where
  slots : session.slots.Fresh
  machines : ∀ name machine, session.machines.get? name = some machine → machine.OwnsCode
  numbered : ∃ number, session.Numbered number

theorem owning_startWithin (backing : Option Nat) (config : Config) (host : Host) (heap : Heap) :
    (startWithin backing config host heap).Owning where
  slots _ _ h := by cases h
  machines _ _ h := by cases h
  numbered := ⟨fun _ => 0, fun _ _ h => (by cases h), fun _ _ h => (by cases h), fun _ _ _ _ h => (by cases h)⟩

theorem Owning.perform (h : session.Owning) (action : Action) : (session.perform action).2.Owning := by
  have heffects := perform_effects session action
  obtain ⟨number, hnumbered⟩ := h.numbered
  refine ⟨fresh_perform h.slots (fun name machine hget => (h.machines name machine hget).owned) action, ?_,
    heffects.numbered hnumbered⟩
  generalize (session.perform action).2 = after at heffects ⊢
  induction heffects with
  | refl => exact h.machines
  | tail _ heffect ih =>
    refine heffect.forall_machines (fun _ hcreate => .of_new (Machine.create_eq_ok hcreate).2.1) ?_ ih
    intro name machine state hevents hmachine
    exact hmachine.events hevents fun _ => fresh_of_loads h.slots

theorem Owning.performAll (h : session.Owning) (actions : List Action) : (session.performAll actions).Owning := by
  induction actions generalizing session with
  | nil => exact h
  | cons action actions ih => exact ih (h.perform action)

/-- Whatever a host has done, with whatever compiler and executor:

* A module outside of machines that belongs to none has no function with an entry. While it is being loaded, code that
  runs for its constant expressions is handed no entries but those of the scratch machine that it runs on.
* Machines have different numbers, as long as these last.
* At every moment of what is done to a machine next, each of its modules belongs to it and the entries of the functions
  name places in its code. A call starts at such an entry, and code that runs is handed no other ones.
* Entries that functions of a machine get are issued by its own code. -/
theorem modules_own_code (backing : Option Nat) (config : Config) (host : Host) (heap : Heap) (actions : List Action) :
    let session := (startWithin backing config host heap).performAll actions
    (∀ slot module, session.slots.get? slot = some module → module.owner = none →
      (∀ function, module.codeOf function = none) ∧
        ∀ (loading : Module) (scratch : CodeStore), loading.functions = module.functions → scratch.Serves loading) ∧
    (session.env.machinesMade ≤ 0x100000000 → ∀ name other machine machine',
      session.machines.get? name = some machine → session.machines.get? other = some machine' →
        machine.id = machine'.id → name = other) ∧
    ∀ name machine, session.machines.get? name = some machine → ∀ action,
      (∀ state, MachineState.Events (action.permit session name) ⟨session.env, machine⟩ state →
        state.machine.id = machine.id ∧ machine.directory.Advances state.machine.directory ∧
          (∀ index function entry func after, Machine.entryPoint index function state = .ok (entry, func) after →
            state.machine.code.Names entry) ∧
          ∀ (index : Nat) module, state.machine.modules[index]? = some module →
            module.owner = some machine.id ∧
              (∀ function entry, module.codeOf function = some entry → state.machine.code.Names entry) ∧
              state.machine.code.Serves module) ∧
      (¬action.Replaces name → ∃ machine', (session.perform action).2.machines.get? name = some machine' ∧
        machine'.id = machine.id ∧ machine.directory.Advances machine'.directory) := by
  intro session
  have howning : session.Owning := (owning_startWithin backing config host heap).performAll actions
  have hfresh (action : Action) (name : String) (functions : Array Func) :
      (action.permit session name).loads functions → Fresh functions := fresh_of_loads howning.slots
  refine ⟨fun slot module hslot howner => ?_, fun hfew name other machine machine' hget hget' hid => ?_,
    fun name machine hget action => ⟨fun state hevents => ?_, fun hkept => ?_⟩⟩
  · have hlinked : module.isLinked = false := congrArg Option.isSome howner
    have hfunctions := howning.slots slot module hslot hlinked
    refine ⟨fun function => hfunctions.codeOf function, fun loading scratch hsame => ?_⟩
    exact CodeStore.serves_of_fresh (hsame ▸ hfunctions) scratch
  · obtain ⟨number, hnumbered⟩ := howning.numbered
    exact hnumbered.eq_of_id_eq hfew hget hget' hid
  · have howns := (howning.machines name machine hget).events hevents (hfresh action name)
    refine ⟨hevents.id_eq, hevents.advances (hfresh action name), fun index function entry func after hentry =>
      howns.sound _ _ (Machine.entryOf_of_entryPoint hentry), fun index module hmodule => ?_⟩
    refine ⟨?_, fun function entry hentry => howns.names hmodule hentry, howns.serves hmodule⟩
    rw [howns.owned index module hmodule, hevents.id_eq]
  · exact Effects.advances (perform_effects session action) (hfresh action) hget hkept

/-- Two machines compile copies of a module. The copy that the first one compiled comes back into a slot with an entry
that names nothing in the code of the second one, which refuses it and compiles the function for itself. -/
theorem modules_own_code_copied :
    let session := (startWithin none {} (.ofBackends .threaded .threaded none) (.system 0)).performAll
      [.create "a" 64, .create "b" 64,
        .build "m" [.function "v()" 0 [0x0B], .function "v()" 0 [0x0B], .function "v()" 0 [0x0B],
          .exportFunction 0 "f", .exportFunction 1 "g", .exportFunction 2 "h"],
        .copy "m" "n", .load "a" "m", .find "a" "f", .find "a" "g", .find "a" "h", .copyLoaded "a" 0 "c",
        .load "b" "c", .load "b" "n", .find "b" "h"]
    session.env.machinesMade ≤ 0x100000000 ∧
      ∃ machine machine' copy loaded, session.machines.get? "a" = some machine ∧
        session.machines.get? "b" = some machine' ∧ machine.id ≠ machine'.id ∧
        session.slots.get? "c" = some copy ∧ copy.owner = some machine.id ∧
        copy.codeOf 2 = some ⟨0, 8⟩ ∧ ¬machine'.code.Names ⟨0, 8⟩ ∧
        machine'.modules[0]? = some loaded ∧ loaded.owner = some machine'.id ∧
        loaded.codeOf 2 = some ⟨0, 0⟩ ∧ machine'.code.Names ⟨0, 0⟩ := by
  intro session
  have hfew : session.env.machinesMade ≤ 0x100000000 := by decide +kernel
  have hfirst : (session.machines.get? "a").map (·.id) = some ⟨0⟩ := by decide +kernel
  have hcopied : (session.slots.get? "c").map (fun copy => (copy.owner, copy.codeOf 2)) =
      some (some ⟨0⟩, some ⟨0, 8⟩) := by decide +kernel
  have hsecond : (session.machines.get? "b").map (fun machine =>
      (machine.modules[0]?.map (·.codeOf 2), (machine.code.text 0).length)) = some (some (some ⟨0, 0⟩), 4) := by
    decide +kernel
  obtain ⟨machine, hget, hid⟩ := Option.map_eq_some_iff.1 hfirst
  obtain ⟨copy, hcopy, hfacts⟩ := Option.map_eq_some_iff.1 hcopied
  obtain ⟨howner, hentry⟩ := Prod.ext_iff.1 hfacts
  obtain ⟨machine', hget', hfacts'⟩ := Option.map_eq_some_iff.1 hsecond
  obtain ⟨hmodules, hlength⟩ := Prod.ext_iff.1 hfacts'
  obtain ⟨loaded, hloaded, hentry'⟩ := Option.map_eq_some_iff.1 hmodules
  have hforeign : ¬machine'.code.Names ⟨0, 8⟩ := by
    rintro ⟨-, hline⟩
    have hshort : (machine'.code.text 0).length = 4 := hlength
    change 8 ≤ (machine'.code.text 0).length at hline
    omega
  obtain ⟨-, hdiffer, hmachines⟩ := modules_own_code none {} (.ofBackends .threaded .threaded none) (.system 0)
    [.create "a" 64, .create "b" 64,
      .build "m" [.function "v()" 0 [0x0B], .function "v()" 0 [0x0B], .function "v()" 0 [0x0B],
        .exportFunction 0 "f", .exportFunction 1 "g", .exportFunction 2 "h"],
      .copy "m" "n", .load "a" "m", .find "a" "f", .find "a" "g", .find "a" "h", .copyLoaded "a" 0 "c",
      .load "b" "c", .load "b" "n", .find "b" "h"]
  obtain ⟨howner', hnames, -⟩ := ((hmachines "b" machine' hget' .yieldNow).1 _ .refl).2.2.2 0 loaded hloaded
  refine ⟨hfew, machine, machine', copy, loaded, hget, hget', fun hsame => ?_, hcopy, hid ▸ howner, hentry, hforeign,
    hloaded, howner', hentry', hnames 2 _ hentry'⟩
  exact absurd (hdiffer hfew "a" "b" machine machine' hget hget' hsame) (by decide)

end Session

end WasmEngine

import WasmEngine.Proofs.Allocation.Sessions
import WasmEngine.Proofs.Machine.FailedLoad

/-!
# The modules of a session

`Session.Yields` lists where the module in a slot can come from. A property of modules that survives being copied,
named, loaded and run (`Module.Lasting`) holds of every module of every session.
-/

namespace WasmEngine

/-! ## Slots -/

namespace Session

theorem slots_settle (session : Session) : session.settle.slots = session.slots := by
  unfold settle
  split <;> rfl

/-- After an action every slot has a module of such an origin. -/
theorem yields_perform (session : Session) (action : Action) : (session.perform action).2.slots.All session.Yields := by
  have hperforms := performs session action
  generalize (session.perform action).2 = session' at hperforms ⊢
  cases hperforms with
  | idle => exact session.all_yields
  | tend henv hheap hslots => exact hslots
  | release =>
    rw [slots_settle]
    exact session.all_yields
  | create hcreate => exact session.all_yields
  | dispose hget =>
    rw [slots_settle]
    exact session.all_yields
  | work hget hevents hrecord hslots => exact hslots

end Session

/-! ## Lasting properties -/

/-- A property of modules that every new module has and that survives naming, loading and running them. -/
structure Module.Lasting (kept : Module → Prop) : Prop where
  built : ∀ (limit : Nat) (items : List BuildItem) (registry : TypeRegistry),
    kept (Draft.addAll limit items ⟨registry, {}⟩).2.module
  decoded : ∀ {config : Config} {registry : TypeRegistry} {bytes : List UInt8} {module : Module},
    (Module.decode config registry bytes).1 = .ok module → kept module
  named : ∀ (module : Module) (name : Option String), kept module → kept { module with name }
  owned : ∀ (module : Module) (owner : Option MachineId), kept module → kept { module with owner }
  coded : ∀ (module : Module) (index : Nat) (entry : CodeRef), kept (module.setCode index entry) ↔ kept module
  prepared : Keeps (Preserves fun state : Loading => kept state.module) LoadM.prepare

namespace Machine

variable {kept : Module → Prop}

/-- Every module of a machine has a property. -/
def All (kept : Module → Prop) (machine : Machine) : Prop :=
  ∀ module ∈ machine.modules, kept module

theorem all_congr {machine machine' : Machine} (h : machine'.modules.map kept = machine.modules.map kept) :
    machine'.All kept ↔ machine.All kept := by
  have hmap (machine : Machine) : machine.All kept ↔ ∀ holds ∈ machine.modules.map kept, holds := by
    simp only [All, Array.mem_map, forall_exists_index, and_imp, forall_apply_eq_imp_iff₂]
  rw [hmap, hmap, h]

/-- A module that is prepared is in the machine after loading, and the start function gives entries only. -/
theorem load_prepared {module : Module} {state : MachineState} {loading : Loading} (hlinked : module.isLinked = false)
    (h : LoadM.prepare (preparing module state) = .ok () loading) :
    ((load module state).1 = .linked state.machine.modules.size ∨
      ∃ error, (load module state).1 = .startFailed error state.machine.modules.size) ∧
    ∀ {β : Type} {view : Module → β}, (∀ module index entry, view (Module.setCode module index entry) = view module) →
      (load module state).2.machine.modules.map view = (state.machine.modules.push loading.module).map view := by
  have hloaded := loaded module state
  generalize load module state = outcome at hloaded ⊢
  cases hloaded with
  | present hlinked' => cases hlinked.symm.trans hlinked'
  | refused hlinked' hprepare => cases h.symm.trans hprepare
  | linked hlinked' hprepare hstart =>
    cases h.symm.trans hprepare
    exact ⟨.inl rfl, fun _ => rfl⟩
  | started hlinked' hprepare hstart hrun =>
    cases h.symm.trans hprepare
    have hevents : MachineState.Events .none _ _ := (keeps_runStart _ _).of_ok hrun
    exact ⟨.inl rfl, fun hview => hevents.map_modules hview fun _ => False.elim⟩
  | startFailed hlinked' hprepare hstart hrun =>
    cases h.symm.trans hprepare
    have hevents : MachineState.Events .none _ _ := (keeps_runStart _ _).of_error hrun
    exact ⟨.inr ⟨_, rfl⟩, fun hview => hevents.map_modules hview fun _ => False.elim⟩

/-- Loading keeps a lasting property, of the modules of the machine and of a module that is handed back. -/
theorem all_load (hlasting : Module.Lasting kept) {module : Module} {state : MachineState} (hmodule : kept module)
    (hall : state.machine.All kept) :
    (load module state).2.machine.All kept ∧
      ∀ error returned after, load module state = (.refused error returned, after) → kept returned := by
  have hprepared := hlasting.prepared (preparing module state) (hlasting.owned _ _ hmodule)
  have htaken {loading : Loading} (hlinked : module.isLinked = false)
      (hprepare : LoadM.prepare (preparing module state) = .ok () loading) :
      (load module state).2.machine.All kept := by
    have hmap := (load_prepared hlinked hprepare).2 fun module index entry =>
      propext (hlasting.coded module index entry)
    have hpushed : ({ state.machine with modules := state.machine.modules.push loading.module } : Machine).All kept := by
      intro other hother
      rcases Array.mem_push.1 hother with hother | rfl
      · exact hall other hother
      · rwa [hprepare] at hprepared
    exact (all_congr hmap).2 hpushed
  have hloaded := loaded module state
  generalize load module state = outcome at hloaded htaken ⊢
  cases hloaded with
  | present hlinked =>
    refine ⟨hall, fun error returned after heq => ?_⟩
    cases heq
    exact hmodule
  | refused hlinked hprepare =>
    refine ⟨hall, fun error returned after heq => ?_⟩
    cases heq
    rw [hprepare] at hprepared
    exact hlasting.owned _ _ hprepared
  | linked hlinked hprepare hstart => exact ⟨htaken hlinked hprepare, fun _ _ _ heq => nomatch congrArg Prod.fst heq⟩
  | started hlinked hprepare hstart hrun =>
    exact ⟨htaken hlinked hprepare, fun _ _ _ heq => nomatch congrArg Prod.fst heq⟩
  | startFailed hlinked hprepare hstart hrun =>
    exact ⟨htaken hlinked hprepare, fun _ _ _ heq => nomatch congrArg Prod.fst heq⟩

end Machine

namespace Session

variable {session : Session} {kept : Module → Prop}

/-- Every module of a session has a property. -/
structure All (kept : Module → Prop) (session : Session) : Prop where
  slots : session.slots.All kept
  machines : session.machines.All (Machine.All kept)

theorem all_startWithin (backing : Option Nat) (config : Config) (host : Host) (heap : Heap) :
    (startWithin backing config host heap).All kept where
  slots _ _ h := by cases h
  machines _ _ h := by cases h

/-- An action that loads nothing gives entries to functions only. -/
theorem machines_perform (hlasting : Module.Lasting kept) (h : session.All kept) {action : Action}
    (hloads : ∀ name slot, action ≠ .load name slot) : (session.perform action).2.machines.All (Machine.All kept) := by
  have heffects := perform_effects session action
  generalize (session.perform action).2 = after at heffects ⊢
  induction heffects with
  | refl => exact h.machines
  | tail heffects heffect ih =>
    refine heffect.forall_machines (fun _ hcreate module hmodule => ?_) (fun name machine state hevents hall => ?_) ih
    · rw [(Machine.create_eq_ok hcreate).2.1] at hmodule
      simp at hmodule
    · have hcoded (module : Module) (index : Nat) (entry : CodeRef) :
          kept (module.setCode index entry) = kept module := propext (hlasting.coded module index entry)
      have hnone : ∀ functions, ¬(Action.permit session action name).loads functions := by
        rintro functions ⟨slot, module, haction, -⟩
        exact hloads name slot haction
      exact (Machine.all_congr (hevents.map_modules hcoded hnone)).2 hall

theorem All.perform (hlasting : Module.Lasting kept) (h : session.All kept) (action : Action) :
    (session.perform action).2.All kept := by
  constructor
  · intro slot module hslot
    cases yields_perform session action slot module hslot with
    | kept hkept => exact h.slots _ _ hkept
    | named hkept name => exact hlasting.named _ _ (h.slots _ _ hkept)
    | built items => exact hlasting.built _ _ _
    | decoded hdecode => exact hlasting.decoded hdecode
    | loaded hget hmodule => exact h.machines _ _ hget _ (Array.mem_of_getElem? hmodule)
    | returned hget hgiven hload =>
      exact (Machine.all_load hlasting (h.slots _ _ hgiven) (h.machines _ _ hget)).2 _ _ _ hload
  · by_cases hload : ∃ name slot, action = .load name slot
    · obtain ⟨name, slot, rfl⟩ := hload
      simp only [Session.perform, Session.load]
      split
      · rename_i machine module hmachine hslot
        have hmodules := h.machines name machine hmachine
        have hloaded := (@Machine.all_load kept hlasting module ⟨session.env, machine⟩ (h.slots _ _ hslot) hmodules).1
        split <;> exact h.machines.put name hloaded
      · exact h.machines
    · exact machines_perform hlasting h fun name slot haction => hload ⟨name, slot, haction⟩

theorem All.performAll (hlasting : Module.Lasting kept) (h : session.All kept) (actions : List Action) :
    (session.performAll actions).All kept := by
  induction actions generalizing session with
  | nil => exact h
  | cons action actions ih => exact ih (h.perform hlasting action)

end Session

end WasmEngine

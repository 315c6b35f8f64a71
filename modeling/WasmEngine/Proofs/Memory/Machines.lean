import WasmEngine.Proofs.Machine.Work
import WasmEngine.Proofs.Memory.Growth

/-!
# What machines do to linear memory

Machines change their linear memory only by growing it and by overwriting bytes; loading a module may give it another
maximum first. So what growing and overwriting keep (`LinearMemory.Stable`), all of them keep.
-/

namespace WasmEngine

/-- Growing and overwriting keep it, whatever the heap. -/
def LinearMemory.Stable (kept : LinearMemory → Prop) : Prop :=
  ∀ state state' : MemoryState, state.Event state' → kept state.memory → kept state'.memory

variable {kept : LinearMemory → Prop}

theorem LinearMemory.Stable.closed (hstable : Stable kept) : ExecState.Closed fun _ memory => kept memory where
  memory hevent hkept := hstable _ _ hevent hkept
  compileFunction _ _ _ _ hkept := hkept
  yields _ _ _ hkept := hkept
  note _ _ _ hkept := hkept

/-! ## Operations -/

namespace MachineState

variable {permit : Permit} {state state' : MachineState}

theorem Event.keeps_memory (hevent : Event permit state state') (hstable : LinearMemory.Stable kept)
    (hbounds : permit.bounds → ∀ memory pages, kept memory → kept (memory.setMaxPages pages))
    (h : kept state.machine.memory) : kept state'.machine.memory := by
  cases hevent with
  | environment machine hevent => exact h
  | tend env hmodules hcode hmemory hid =>
    rw [hmemory]
    exact h
  | bound env machine pages hpermitted => exact hbounds hpermitted _ _ h
  | memory hevent => exact hstable _ _ hevent h
  | compile hmodule hcompile => exact h
  | failCompile hmodule hcompile => exact h
  | link hfunc hlinks hinstall => exact h
  | failLink hinstall => exact h
  | @run env machine index module purpose entry result after hmodule hexecute =>
    have hexecuted := hstable.closed.execute module purpose entry
      { area := ⟨env, machine.code⟩, stack := machine.stack, memory := machine.memory } h
    rw [hexecute] at hexecuted
    exact hexecuted
  | push env machine hloads howner => exact h

theorem Events.keeps_memory (hevents : Events permit state state') (hstable : LinearMemory.Stable kept)
    (hbounds : permit.bounds → ∀ memory pages, kept memory → kept (memory.setMaxPages pages))
    (h : kept state.machine.memory) : kept state'.machine.memory := by
  induction hevents with
  | refl => exact h
  | tail _ hevent ih => exact hevent.keeps_memory hstable hbounds ih

end MachineState

/-! ## Loading -/

/-- A permit to do nothing that needs one. -/
def Permit.none : Permit where
  links _ _ := False
  loads _ := False
  bounds := False
  makes _ := False
  replaces := False

/-- A linear memory with the maximum of a module that is loaded, unless the module is in a machine or imports its
memory. -/
def Module.bound (module : Module) (config : Config) (memory : LinearMemory) : LinearMemory :=
  if module.isLinked || module.memoryImport.isSome then memory else memory.setMaxPages (module.maxPages config)

theorem Loading.Follows.memory {state state' : Loading} (h : Follows False state state')
    (hstable : LinearMemory.Stable kept) (hkept : kept state.memory) : kept state'.memory := by
  have hevents := h.events .none { id := ⟨0⟩, memory := state.memory, stack := #[] } False.elim
  exact hevents.keeps_memory hstable False.elim hkept

namespace LoadM

theorem sizeMemory_memory (state : Loading) (hstable : LinearMemory.Stable kept)
    (himported : state.module.memoryImport.isSome = true → kept state.memory)
    (hown : state.module.memoryImport.isSome = false →
      kept (state.memory.setMaxPages (state.module.maxPages state.env.config))) :
    kept (stateAfter (sizeMemory state)).memory := by
  unfold sizeMemory
  split
  · rename_i himport
    exact himported himport
  · rename_i himport
    have hgrown := hstable _ _ (.grow (state.module.memory.getD ⟨0, none⟩).initial
      ⟨state.memory.setMaxPages (state.module.maxPages state.env.config), state.env.heap⟩)
      (hown (Bool.eq_false_iff.2 himport))
    dsimp only
    cases hgrow : LinearMemory.growTo (state.module.memory.getD ⟨0, none⟩).initial
        ⟨state.memory.setMaxPages (state.module.maxPages state.env.config), state.env.heap⟩ <;> rwa [hgrow] at hgrown

/-- Once the memory is sized, preparing a module only overwrites bytes. -/
theorem prepare_memory (state : Loading) (hstable : LinearMemory.Stable kept)
    (hsized : kept (stateAfter (sizeMemory state)).memory) : kept (stateAfter (prepare state)).memory := by
  change kept (stateAfter ((sizeMemory >>= fun _ => do setGlobals; copySegments; fillTable) state)).memory
  cases hsize : sizeMemory state with
  | error error between =>
    rw [hsize] at hsized
    rw [run_bind_of_error hsize]
    exact hsized
  | ok done between =>
    rw [hsize] at hsized
    rw [run_bind_of_ok hsize]
    exact (keeps_fill between).memory hstable hsized

end LoadM

/-- Loading a module changes a linear memory with its maximum only by growing and overwriting. -/
theorem Machine.load_memory (module : Module) (state : MachineState) (hstable : LinearMemory.Stable kept)
    (h : kept (module.bound state.env.config state.machine.memory)) :
    kept (Machine.load module state).2.machine.memory := by
  unfold Module.bound at h
  have hprepared {result : EStateM.Result Error Loading Unit} (hlinked : module.isLinked = false)
      (hprepare : LoadM.prepare (preparing module state) = result) : kept (stateAfter result).memory := by
    subst hprepare
    rw [hlinked, Bool.false_or] at h
    refine LoadM.prepare_memory _ hstable (LoadM.sizeMemory_memory _ hstable ?_ ?_)
    · intro himport
      exact (if_pos himport ▸ h :)
    · intro himport
      exact (if_neg (Bool.eq_false_iff.1 himport) ▸ h :)
  have hloaded := loaded module state
  generalize load module state = outcome at hloaded ⊢
  cases hloaded with
  | present hlinked =>
    rw [hlinked, Bool.true_or, if_pos rfl] at h
    exact h
  | refused hlinked hprepare => exact hprepared hlinked hprepare
  | linked hlinked hprepare hstart => exact hprepared hlinked hprepare
  | started hlinked hprepare hstart hrun =>
    have hevents : MachineState.Events .none _ _ := (keeps_runStart _ _).of_ok hrun
    exact hevents.keeps_memory hstable False.elim (hprepared hlinked hprepare)
  | startFailed hlinked hprepare hstart hrun =>
    have hevents : MachineState.Events .none _ _ := (keeps_runStart _ _).of_error hrun
    exact hevents.keeps_memory hstable False.elim (hprepared hlinked hprepare)

end WasmEngine

import WasmEngine.Proofs.Allocation.Sessions
import WasmEngine.Proofs.Machine.FailedLoad
import WasmEngine.Proofs.Machine.Replay

/-!
# Loading a module again

A module that was handed back is the original with some of its globals and table slots filled in. Loading it fills them
in again, so it ends as loading the original does.
-/

namespace WasmEngine

/-- The globals of a module and of its blueprint have the same initial values. -/
theorem Module.ReadsBack.blueprint {module : Module} (h : module.ReadsBack) : module.blueprint.ReadsBack := by
  intro index global hglobal read hread
  change (module.globals.map Global.unset)[index]? = some global at hglobal
  rw [Array.getElem?_map, Option.map_eq_some_iff] at hglobal
  obtain ⟨found, hfound, rfl⟩ := hglobal
  exact h index found hfound read hread

/-- How loading ended, apart from the module that may be handed back. -/
def LoadOutcome.result : LoadOutcome → Except (Error × Option Nat) Nat
  | .linked index => .ok index
  | .refused error _ => .error (error, none)
  | .startFailed error index => .error (error, some index)

namespace Machine

/-- Modules that are prepared in the same way are loaded in the same way. -/
theorem load_congr {module module' : Module} {state : MachineState} (hlinked : module.isLinked = false)
    (hlinked' : module'.isLinked = false) {run run' : EStateM.Result Error Loading Unit}
    (hrun : LoadM.prepare (preparing module state) = run) (hrun' : LoadM.prepare (preparing module' state) = run')
    (hresult : resultOf run = resultOf run') (henv : (stateAfter run).env = (stateAfter run').env)
    (hmemory : (stateAfter run).memory = (stateAfter run').memory)
    (hname : (stateAfter run).module.name = (stateAfter run').module.name)
    (hmodule : resultOf run' = .ok () → (stateAfter run).module = (stateAfter run').module) :
    (load module state).1.result = (load module' state).1.result ∧ (load module state).2 = (load module' state).2 := by
  unfold preparing at hrun hrun'
  unfold load
  rw [hlinked, hlinked', if_neg Bool.false_ne_true, if_neg Bool.false_ne_true]
  dsimp only
  rw [hrun, hrun']
  cases run with
  | error error after =>
    cases run' with
    | ok done after' => cases hresult
    | error error' after' =>
      cases hresult
      simp only [stateAfter] at henv hmemory hname
      refine ⟨rfl, ?_⟩
      dsimp only
      rw [henv, hmemory, hname]
  | ok done after =>
    cases run' with
    | error error after' => cases hresult
    | ok done' after' =>
      have hmodule := hmodule rfl
      simp only [stateAfter] at henv hmemory hmodule
      dsimp only
      rw [henv, hmemory, hmodule]
      exact ⟨rfl, rfl⟩

/-- A module that was handed back is loaded like the original. -/
theorem load_returned {fuel : Nat} {module returned : Module} {state after : MachineState} {error : Error}
    (hback : module.ReadsBack) (hserves : state.env.Serves fuel)
    (hrefused : load module state = (.refused error returned, after)) {fresh : MachineState}
    (hfresh : fresh.env.Serves fuel) :
    (load returned fresh).1.result = (load module fresh).1.result ∧ (load returned fresh).2 = (load module fresh).2 := by
  have hloaded := loaded module state
  rw [hrefused] at hloaded
  cases hloaded with
  | present hlinked => exact ⟨rfl, rfl⟩
  | @refused _ between hlinked hprepare =>
    obtain ⟨steps, htraces⟩ := @LoadM.replays_prepare fuel module.blueprint hback.blueprint
    have hfits {state : MachineState} (h : state.env.Serves fuel) :
        (preparing module state).Fits fuel module.blueprint 0 := ⟨h, rfl, Nat.zero_le _⟩
    have hagrees {state state' : MachineState} (h : state.env.Serves fuel) (h' : state'.env.Serves fuel) :
        Loading.Agrees fuel module.blueprint 0 0 (preparing module state) (preparing module state') :=
      ⟨hfits h, hfits h', rfl, fun _ _ => rfl⟩
    -- The module that is handed back is the original with the first steps taken.
    have htaken : between.module = (preparing module state).module.fill (steps (preparing module state)) := by
      have hfilled := htraces.module_eq (hagrees hserves hserves)
      rw [hprepare] at hfilled
      exact hfilled
    have hstart : (preparing { between.module with owner := none } fresh).module =
        (preparing module fresh).module.fill (steps (preparing module state)) := by
      change { between.module with owner := some fresh.machine.id } = _
      rw [htaken]
      rfl
    have hresumes : Loading.Agrees fuel module.blueprint 0 0 (preparing { between.module with owner := none } fresh)
        (preparing module fresh) := by
      refine ⟨⟨hfresh, ?_, Nat.zero_le _⟩, hfits hfresh, rfl, fun index hindex => ?_⟩
      · rw [hstart, Module.blueprint_fill]
        rfl
      · rw [hstart]
        refine Module.getElem?_fill_of_imported (fun global hglobal => ?_) _
        rcases hindex with hlt | himported
        · exact absurd hlt (Nat.not_lt_zero _)
        · change (preparing module fresh).module.globals[index]? = some global at hglobal
          have hunset := (hfits hfresh).unset_globals index
          rw [hglobal] at hunset
          exact himported global.unset hunset.symm
    obtain ⟨hresult, henv, hmemory, hsteps⟩ := htraces.same hresumes rfl rfl
    have hmodule := htraces.module_eq (hagrees hfresh hfresh)
    have hmodule' := htraces.module_eq (⟨hresumes.left, hresumes.left, rfl, fun _ _ => rfl⟩ :
      Loading.Agrees fuel module.blueprint 0 0 _ _)
    refine load_congr rfl hlinked rfl rfl hresult henv hmemory ?_ fun hok => ?_
    · rw [hmodule, hmodule', hstart]
      rfl
    · cases hrun : LoadM.prepare (preparing module fresh) with
      | error error after =>
        rw [hrun] at hok
        cases hok
      | ok done after =>
        -- The steps of the first attempt are the first steps of the one that succeeds.
        have hprefix := htraces.within (hagrees hserves hfresh) hrun
        rw [← hrun, hmodule, hmodule', hstart, hsteps, Module.fill_of_prefix _ hprefix]

end Machine

namespace Session

/-- A session on the threaded backend, after any number of actions. -/
def IsThreaded (session : Session) : Prop :=
  ∃ (backing : Option Nat) (config : Config) (limit : Option Nat) (heap : Heap) (actions : List Action),
    session = (startWithin backing config (.ofBackends .threaded .threaded limit) heap).performAll actions

/-- Every point of such a session runs threaded code. -/
theorem IsThreaded.serves_of_reaches {session : Session} (h : session.IsThreaded) {engine : Engine}
    (hreached : Engine.Reaches session.engine engine) : engine.env.Serves Backend.ampleFuel := by
  obtain ⟨backing, config, limit, heap, actions, rfl⟩ := h
  have hreaches := (performAll_reaches (startWithin backing config (.ofBackends .threaded .threaded limit) heap)
    actions).trans hreached
  have hhost := (Engine.Reaches.fixed hreaches).2
  refine ⟨?_, ?_, _, (sound_startWithin ..).reaches hreaches⟩
  · exact congrArg Host.compiler hhost
  · exact congrArg Host.executor hhost

theorem IsThreaded.serves {session : Session} (h : session.IsThreaded) : session.env.Serves Backend.ampleFuel :=
  h.serves_of_reaches .refl

/-- A module that was handed back, with whatever was filled in before the failure, is loaded like the original: with the
same result, and leaving the same machine in the same environment. Initial values may be taken from globals with
smaller indices only. -/
theorem load_retried {first second : Session} (hfirst : first.IsThreaded) (hsecond : second.IsThreaded)
    {module returned : Module} {machine fresh : Machine} {error : Error} {after : MachineState}
    (hback : module.ReadsBack)
    (hrefused : Machine.load module ⟨first.env, machine⟩ = (.refused error returned, after)) :
    (Machine.load returned ⟨second.env, fresh⟩).1.result = (Machine.load module ⟨second.env, fresh⟩).1.result ∧
      (Machine.load returned ⟨second.env, fresh⟩).2 = (Machine.load module ⟨second.env, fresh⟩).2 := by
  have hserves : (⟨first.env, machine⟩ : MachineState).env.Serves Backend.ampleFuel := hfirst.serves
  have hserves' : (⟨second.env, fresh⟩ : MachineState).env.Serves Backend.ampleFuel := hsecond.serves
  exact Machine.load_returned hback hserves hrefused hserves'

/-- The second global is a copy of the first; the offset of the second element segment is a long expression. -/
def copied : Module where
  functions := #[.declared ⟨0, ⟨none, []⟩⟩]
  globals := #[{ type := .i32, isMutable := true, initial := some [0x41, 0x2A, 0x0B] },
    { type := .i32, isMutable := true, initial := some [0x23, 0x00, 0x0B] }]
  elementCount := 2
  elementBytes := [0x00, 0x41, 0x00, 0x0B, 0x01, 0x00, 0x00, 0x41, 0x00, 0x41, 0x00, 0x41, 0x02, 0x0B, 0x01, 0x00]

theorem readsBack_copied : copied.ReadsBack := by
  intro index global hglobal read hread
  have hall : (copied.globals.toList.zipIdx.all fun entry =>
      entry.1.sources.all fun source => source.toNat < entry.2) = true := by
    decide +kernel
  have hmem : (global, index) ∈ copied.globals.toList.zipIdx := by
    rw [List.mk_mem_zipIdx_iff_getElem?, Array.getElem?_toList]
    exact hglobal
  exact of_decide_eq_true (List.all_eq_true.1 (List.all_eq_true.1 hall _ hmem) read hread)

/-- A session with some configuration in which nothing has happened. -/
def untouched (config : Config) : Session :=
  startWithin none config (.ofBackends .threaded .threaded none) (.system 0)

/-- A new machine in such a session. -/
def spare (config : Config) : MachineState :=
  ⟨(untouched config).env, { id := ⟨7⟩, memory := LinearMemory.create config ⟨7⟩ 1, stack := #[0] }⟩

theorem isThreaded_untouched (config : Config) : (untouched config).IsThreaded :=
  ⟨none, config, none, .system 0, [], rfl⟩

/-- Where a code page has five lines the second offset does not fit, when both globals and the first slot of the table
are filled in. On pages of the usual size the module that is handed back is loaded. -/
theorem load_retried_cramped :
    ∃ returned after,
      Machine.load copied (spare { codePageAlign := 16 }) = (.refused .codePageFull returned, after) ∧
        returned.globals.map Global.slot = #[42, 42] ∧ returned.table = #[some 0] ∧
        (Machine.load returned (spare {})).1.result = .ok 0 ∧
        (Machine.load returned (spare {})).2.machine.modules.map (fun module => (module.globals.map Global.slot,
          module.table)) = #[(#[42, 42], #[some 0, none, some 0])] := by
  have hrefusal : (Machine.load copied (spare { codePageAlign := 16 })).1.refusal?.map (fun refusal =>
      (refusal.1, refusal.2.globals.map Global.slot, refusal.2.table)) =
        some (.codePageFull, #[42, 42], #[some 0]) := by
    decide +kernel
  have hloaded : (Machine.load copied (spare {})).1.result = .ok 0 ∧
      (Machine.load copied (spare {})).2.machine.modules.map (fun module => (module.globals.map Global.slot,
        module.table)) = #[(#[42, 42], #[some 0, none, some 0])] := by
    decide +kernel
  obtain ⟨⟨error, returned⟩, hrefused, hfacts⟩ := Option.map_eq_some_iff.1 hrefusal
  obtain ⟨rfl, hglobals, htable⟩ : error = .codePageFull ∧ _ ∧ _ := by simpa using hfacts
  have h : Machine.load copied (spare { codePageAlign := 16 }) =
      (.refused .codePageFull returned, (Machine.load copied (spare { codePageAlign := 16 })).2) :=
    Prod.ext (LoadOutcome.eq_of_refusal? hrefused) rfl
  obtain ⟨hresult, hstate⟩ := load_retried (isThreaded_untouched _) (isThreaded_untouched {}) readsBack_copied h
  refine ⟨returned, _, h, hglobals, htable, hresult.trans hloaded.1, ?_⟩
  rw [← hloaded.2]
  exact congrArg (fun state : MachineState => state.machine.modules.map fun module =>
    (module.globals.map Global.slot, module.table)) hstate

end Session

end WasmEngine

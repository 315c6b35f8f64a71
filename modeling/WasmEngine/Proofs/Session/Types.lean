import WasmEngine.Proofs.Machine.Linking
import WasmEngine.Proofs.Machine.Quiet
import WasmEngine.Proofs.Module.Interning

/-!
# The types of a session

Whatever a host does, the registry of its environment is the one that interning gives, in their order, the types that
were obtained: by name or as such, in building and decoding modules, and in linking host functions.
-/

namespace WasmEngine

/-! ## Signatures -/

section Parsing

variable {registry registry' : TypeRegistry} {limit : Nat} {signature : String}

theorem TypeRegistry.parse_eq_ok {handle : TypeHandle} (h : registry.parse limit signature = .ok (handle, registry')) :
    registry' = registry.internAll (FuncType.denoted limit signature) ∧ registry'.Knows handle := by
  unfold parse at h
  unfold FuncType.denoted
  cases hread : FuncType.ofSignature? limit signature with
  | error error =>
    rw [hread] at h
    cases h
  | ok type =>
    rw [hread] at h
    have hintern : registry.intern type = (handle, registry') := Except.ok.inj h
    have hknows := registry.knows_intern type
    rw [hintern] at hknows
    exact ⟨(congrArg Prod.snd hintern).symm, hknows⟩

theorem TypeRegistry.parse_eq_error {error : Error} (h : registry.parse limit signature = .error error) :
    FuncType.denoted limit signature = [] := by
  unfold parse at h
  unfold FuncType.denoted
  cases hread : FuncType.ofSignature? limit signature with
  | error error => rfl
  | ok type =>
    rw [hread] at h
    cases h

/-- Interning the type of a signature again changes nothing. -/
theorem TypeRegistry.internAll_denoted_twice (registry : TypeRegistry) (limit : Nat) (signature : String) :
    (registry.internAll (FuncType.denoted limit signature)).internAll (FuncType.denoted limit signature) =
      registry.internAll (FuncType.denoted limit signature) :=
  internAll_of_forall_mem fun _ hmem => (mem_internAll _ _ _).2 (.inr hmem)

end Parsing

namespace Machine

open MachineState (Quiet)

/-! ## Linking -/

variable {index : Nat} {module field signature : String} {link : HostLink} {firstOnly : Bool}

theorem config_linkFunction (function : Nat) (state : MachineState) :
    (stateAfter (linkFunction index module field signature link function state)).env.config = state.env.config := by
  let permit : Permit := ⟨fun _ _ => True, fun _ => False, False, fun _ => False, False⟩
  have hevents : MachineState.Events permit state _ :=
    keeps_linkFunction index module field signature link function (fun _ _ => trivial) state
  exact (Engine.Reaches.fixed (MachineState.Events.reaches hevents 0)).1

/-- Linking some functions interns the type of the signature if one of them matches, and else nothing. -/
theorem linkFunctions_types (functions : List Nat) (state : MachineState) :
    (∀ function ∈ functions, ¬state.machine.Matches index module field function) ∧
        (stateAfter (linkFunctions index module field signature link firstOnly functions state)).env.registry =
          state.env.registry ∨
      (∃ function ∈ functions, state.machine.Matches index module field function) ∧
        (stateAfter (linkFunctions index module field signature link firstOnly functions state)).env.registry =
          state.env.registry.internAll (FuncType.denoted state.env.config.argumentLimit signature) := by
  induction functions generalizing state with
  | nil => exact .inl ⟨by simp, rfl⟩
  | cons function functions ih =>
    have houtcome := linkFunction_outcome index module field signature link function state
    have hconfig : (stateAfter (linkFunction index module field signature link function state)).env.config =
        state.env.config := config_linkFunction function state
    unfold linkFunctions
    generalize hrun : linkFunction index module field signature link function state = result at houtcome hconfig
    cases houtcome with
    | other hother =>
      rw [run_bind_of_ok hrun]
      simp only [Bool.false_and, Bool.false_eq_true, if_false, stateAfter_bind_pure]
      rcases ih state with ⟨hnone, hsame⟩ | ⟨⟨later, hlater, hmatches⟩, hinterned⟩
      · exact .inl ⟨List.forall_mem_cons.2 ⟨hother, hnone⟩, hsame⟩
      · exact .inr ⟨⟨later, List.mem_cons_of_mem _ hlater, hmatches⟩, hinterned⟩
    | unread hmatches hread =>
      rw [run_bind_of_error hrun, TypeRegistry.parse_eq_error hread]
      exact .inr ⟨⟨function, List.mem_cons_self .., hmatches⟩, rfl⟩
    | @mismatch func handle registry hfunc hmatch hread htype =>
      rw [run_bind_of_error hrun]
      exact .inr ⟨⟨function, List.mem_cons_self .., func, hfunc, hmatch⟩, (TypeRegistry.parse_eq_ok hread).1⟩
    | @refused func handle registry error area hfunc hmatch hread htype hinstall =>
      have hinstalled := (CodeArea.types_closed.install link).of_error hinstall
      rw [run_bind_of_error hrun]
      refine .inr ⟨⟨function, List.mem_cons_self .., func, hfunc, hmatch⟩, ?_⟩
      exact Eq.trans hinstalled (TypeRegistry.parse_eq_ok hread).1
    | @bound func handle registry entry area hfunc hmatch hread htype hinstall =>
      have hinstalled := (CodeArea.types_closed.install link).of_ok hinstall
      refine .inr ⟨⟨function, List.mem_cons_self .., func, hfunc, hmatch⟩, ?_⟩
      rw [run_bind_of_ok hrun]
      have hbound : area.env.registry =
          state.env.registry.internAll (FuncType.denoted state.env.config.argumentLimit signature) :=
        Eq.trans hinstalled (TypeRegistry.parse_eq_ok hread).1
      cases firstOnly with
      | true => exact hbound
      | false =>
        simp only [Bool.and_false, Bool.false_eq_true, if_false, stateAfter_bind_pure]
        -- The imports that follow read the same signature again.
        rcases ih ⟨area.env, { state.machine with code := area.code }.storeCode index [(function, entry)]⟩
          with ⟨-, hsame⟩ | ⟨-, hinterned⟩
        · exact hsame.trans hbound
        · rw [hinterned]
          simp only [hbound, show area.env.config = state.env.config from hconfig]
          exact TypeRegistry.internAll_denoted_twice _ _ _

theorem env_recording {α : Type} (describe : Machine → Option String × Option String × String) (step : MachineM α)
    (state : MachineState) :
    (stateAfter (MachineM.recording describe step state)).env = (stateAfter (step state)).env := by
  unfold MachineM.recording
  cases step state <;> rfl

theorem exists_matches_iff {machine : Machine} {target : Module} (hmodule : machine.modules[index]? = some target) :
    (∃ function ∈ List.range target.functions.size, machine.Matches index module field function) ↔
      target.functions.any (importMatches module field) = true := by
  simp only [Matches, func?, hmodule, Option.bind_some, Array.any_eq_true]
  constructor
  · rintro ⟨function, -, func, hfunc, hmatch⟩
    obtain ⟨hlt, rfl⟩ := Array.getElem?_eq_some_iff.1 hfunc
    exact ⟨function, hlt, hmatch⟩
  · rintro ⟨function, hlt, hmatch⟩
    exact ⟨function, List.mem_range.2 hlt, _, Array.getElem?_eq_getElem hlt, hmatch⟩

/-- What linking a host function interns: the type of the signature if the module has a matching import. -/
theorem link_types (state : MachineState) :
    (stateAfter (Machine.link index module field signature link state)).env.registry =
      state.env.registry.internAll
        (if (state.machine.modules[index]?).any (·.functions.any (importMatches module field)) then
          FuncType.denoted state.env.config.argumentLimit signature else []) := by
  unfold Machine.link
  rw [env_recording, run_get_bind]
  cases hmodule : state.machine.modules[index]? with
  | none => rfl
  | some target =>
    have hfunctions := @linkFunctions_types index module field signature link link.cookie.isSome
      (List.range target.functions.size) state
    have hafter : (stateAfter ((do
        let linked ← linkFunctions index module field signature link link.cookie.isSome
          (List.range target.functions.size)
        if !linked then throw .functionLookupFailed : MachineM Unit) state)).env.registry =
        (stateAfter (linkFunctions index module field signature link link.cookie.isSome
          (List.range target.functions.size) state)).env.registry := by
      cases hrun : linkFunctions index module field signature link link.cookie.isSome
          (List.range target.functions.size) state with
      | error error between => rw [run_bind_of_error hrun]; rfl
      | ok linked between =>
        rw [run_bind_of_ok hrun]
        cases linked <;> rfl
    refine Eq.trans hafter ?_
    rw [exists_matches_iff hmodule] at hfunctions
    rcases hfunctions with ⟨hnone, hsame⟩ | ⟨hsome, hinterned⟩
    · have hany : ¬target.functions.any (importMatches module field) = true := by
        rw [← exists_matches_iff hmodule]
        rintro ⟨function, hmem, hmatches⟩
        exact hnone function hmem hmatches
      simp only [Option.any_some, if_neg hany]
      exact hsame
    · simp only [Option.any_some, if_pos hsome]
      exact hinterned

end Machine

namespace Session

/-! ## One action -/

/-- The types that an action obtains or interns, in their order. -/
def obtained (session : Session) : Action → List FuncType
  | .signature text => FuncType.denoted session.env.config.argumentLimit text
  | .intern type => [type]
  | .build _ items => items.flatMap (·.types session.env.config.argumentLimit)
  | .decode _ bytes => Module.typesRead session.env.config bytes
  | .link name index module field signature _ =>
    let target := (session.machines.get? name).bind (·.modules[index]?)
    if target.any (·.functions.any (Machine.importMatches module field)) then
      FuncType.denoted session.env.config.argumentLimit signature
    else []
  | _ => []

/-- The handles that an action returns, those of the module that it makes included. -/
def returned (session : Session) : Action → List TypeHandle
  | .signature text =>
    match Environment.parseSignature text session.env with
    | .ok handle _ => [handle]
    | .error _ _ => []
  | .intern type => [(session.env.intern type).1]
  | .build _ items =>
    (Draft.addAll session.env.config.argumentLimit items ⟨session.env.registry, {}⟩).2.module.handles
  | .decode _ bytes =>
    match (Module.decode session.env.config session.env.registry bytes).1 with
    | .ok module => module.handles
    | .error _ => []
  | _ => []

theorem onMachine_env {α : Type} {session : Session} {name : String} {machine : Machine}
    (hget : session.machines.get? name = some machine) (operation : MachineM α) :
    (session.onMachine name operation).2.env = (stateAfter (operation ⟨session.env, machine⟩)).env := by
  simp only [onMachine, hget]
  cases operation ⟨session.env, machine⟩ <;> rfl

theorem onMachine_types {α : Type} (session : Session) (name : String) {operation : MachineM α}
    (h : ∀ state, (stateAfter (operation state)).env.registry = state.env.registry) :
    (session.onMachine name operation).2.env.registry = session.env.registry := by
  cases hget : session.machines.get? name with
  | none => simp only [onMachine, hget]
  | some machine =>
    rw [onMachine_env hget]
    exact h _

theorem recording_types {α : Type} {describe : Machine → Option String × Option String × String}
    {operation step : MachineM α} (hoperation : operation = MachineM.recording describe step)
    (h : Keeps MachineState.Quiet step) (state : MachineState) :
    (stateAfter (operation state)).env.registry = state.env.registry := by
  rw [hoperation, Machine.env_recording]
  exact (h state).types

theorem types_settle (session : Session) : session.settle.env.registry = session.env.registry := by
  have hfree (pages : List CodePage) (env : Environment) :
      (pages.foldl (fun env page => env.free page.grant) env).registry = env.registry := by
    induction pages generalizing env with
    | nil => rfl
    | cons page pages ih => exact ih _
  unfold settle
  split
  · exact hfree _ _
  · rfl

theorem types_load (session : Session) (name slot : String) :
    (session.load name slot).2.env.registry = session.env.registry := by
  unfold Session.load
  cases session.machines.get? name with
  | none => rfl
  | some machine =>
    cases session.slots.get? slot with
    | none => rfl
    | some module =>
      have hload := Machine.types_load module ⟨session.env, machine⟩
      dsimp only
      cases (Machine.load module ⟨session.env, machine⟩).1 <;> exact hload

theorem types_create (session : Session) (name : String) (stackBytes : Nat) :
    (session.create name stackBytes).2.env.registry = session.env.registry := by
  have hcreated := Machine.types_create (stackBytes / slotSize)
  unfold Session.create Machine.ofStackBytes
  cases hcreate : Machine.create (stackBytes / slotSize) session.env with
  | error error env => exact hcreated.of_error hcreate
  | ok machine env =>
    have hcreated := hcreated.of_ok hcreate
    dsimp only
    cases session.machines.get? name with
    | none => exact hcreated
    | some old => exact Eq.trans (old.types_dispose env) hcreated

/-- Every action interns the types that it obtains, and the registry knows the handles that it returns. -/
theorem perform_types (session : Session) (action : Action) :
    (session.perform action).2.env.registry = session.env.registry.internAll (session.obtained action) ∧
      ∀ handle ∈ session.returned action, (session.perform action).2.env.registry.Knows handle := by
  have hnone {registry : TypeRegistry} (h : registry = session.env.registry) :
      registry = session.env.registry.internAll [] ∧ ∀ handle ∈ ([] : List TypeHandle), registry.Knows handle :=
    ⟨h, by simp⟩
  cases action with
  | signature text =>
    simp only [perform, obtained, returned, Environment.parseSignature]
    cases hread : session.env.registry.parse session.env.config.argumentLimit text with
    | error error =>
      rw [TypeRegistry.parse_eq_error hread]
      exact hnone rfl
    | ok read =>
      obtain ⟨handle, registry⟩ := read
      obtain ⟨hregistry, hknows⟩ := TypeRegistry.parse_eq_ok hread
      simp only [issue_env, List.mem_singleton]
      exact ⟨hregistry, fun _ h => h ▸ hknows⟩
  | intern type =>
    simp only [perform, obtained, returned, issue_env, List.mem_singleton]
    exact ⟨rfl, fun _ h => h ▸ session.env.registry.knows_intern type⟩
  | build slot items =>
    have hinterns := Draft.addAll_interns session.env.config.argumentLimit items ⟨session.env.registry, {}⟩
    exact ⟨hinterns.registry, hinterns.known fun handle hmem => absurd hmem List.not_mem_nil⟩
  | decode slot bytes =>
    obtain ⟨hregistry, hknows⟩ := Module.decode_interns session.env.config session.env.registry bytes
    simp only [perform, Session.decode, obtained, returned]
    cases hdecode : (Module.decode session.env.config session.env.registry bytes).1 with
    | error error => exact ⟨hregistry, by simp⟩
    | ok module => exact ⟨hregistry, hknows module hdecode⟩
  | link name index module field signature link =>
    refine ⟨?_, by simp [returned]⟩
    cases hget : session.machines.get? name with
    | none =>
      simp only [perform, onMachine, obtained, hget]
      rfl
    | some machine =>
      simp only [perform, onMachine_env hget, obtained, hget, Option.bind_some]
      exact Machine.link_types _
  | yieldNow =>
    refine hnone ?_
    simp only [perform, Environment.yieldNow]
    cases session.env.host.onYield session.env.yields <;> rfl
  | releaseEnvironment => exact hnone (types_settle _)
  | copy slot target =>
    refine hnone ?_
    simp only [perform]
    cases session.slots.get? slot <;> rfl
  | setName slot name =>
    refine hnone ?_
    simp only [perform]
    cases session.slots.get? slot <;> rfl
  | create name stackBytes => exact hnone (types_create session name stackBytes)
  | dispose name =>
    refine hnone ?_
    simp only [perform, Session.dispose]
    cases session.machines.get? name with
    | none => rfl
    | some machine => exact (types_settle _).trans (machine.types_dispose session.env)
  | load name slot => exact hnone (types_load session name slot)
  | copyLoaded name module slot =>
    refine hnone ?_
    simp only [perform, Session.copyLoaded]
    cases session.machines.get? name with
    | none => rfl
    | some found =>
      dsimp only
      cases found.modules[module]? <;> rfl
  | find name function =>
    obtain ⟨step, hfind, hstep⟩ := Machine.quiet_closed.find function
    exact hnone (onMachine_types session name (recording_types hfind hstep))
  | call name index function arguments =>
    exact hnone (onMachine_types session name
      (recording_types rfl (Machine.quiet_closed.invoke index function arguments .ordinary)))
  | callMain name index function arguments =>
    exact hnone (onMachine_types session name
      (recording_types rfl (Machine.quiet_closed.invokeMain index function arguments)))
  | grow name pages =>
    exact hnone (onMachine_types session name (recording_types rfl (Machine.quiet_closed.growMemory pages)))
  | poke name offset data =>
    refine hnone ?_
    simp only [perform, Session.poke]
    cases session.machines.get? name with
    | none => rfl
    | some found =>
      dsimp only
      cases found.memory? 0 with
      | none => rfl
      | some memory =>
        dsimp only
        cases memory.write offset data <;> rfl
  | resetError name =>
    refine hnone ?_
    simp only [perform]
    cases session.machines.get? name <;> rfl

/-! ## Every run -/

/-- The types that actions obtain or intern, in their order. -/
def obtainedAll (session : Session) : List Action → List FuncType
  | [] => []
  | action :: actions => session.obtained action ++ (session.perform action).2.obtainedAll actions

/-- The handles that actions return. -/
def returnedAll (session : Session) : List Action → List TypeHandle
  | [] => []
  | action :: actions => session.returned action ++ (session.perform action).2.returnedAll actions

theorem performAll_types (session : Session) (actions : List Action) :
    (session.performAll actions).env.registry = session.env.registry.internAll (session.obtainedAll actions) ∧
      ∀ handle ∈ session.returnedAll actions, (session.performAll actions).env.registry.Knows handle := by
  induction actions generalizing session with
  | nil => exact ⟨rfl, by simp [returnedAll]⟩
  | cons action actions ih =>
    obtain ⟨hregistry, hknows⟩ := perform_types session action
    obtain ⟨hregistry', hknows'⟩ := ih (session.perform action).2
    have hall : (session.performAll (action :: actions)).env.registry =
        (session.perform action).2.env.registry.internAll ((session.perform action).2.obtainedAll actions) := hregistry'
    refine ⟨?_, fun handle hmem => ?_⟩
    · rw [hall, hregistry, obtainedAll, TypeRegistry.internAll_append]
    · rcases List.mem_append.1 hmem with hfirst | hlater
      · rw [hall]
        exact (hknows handle hfirst).mono (TypeRegistry.extends_internAll _ _)
      · exact hknows' handle hlater

/-- Interning is canonical. Whatever a host has done: two handles that it was given are the same exactly when their
types have the same result and the same parameters; there are as many interned types as different types were obtained or
interned; no action makes them fewer; and reading a signature that fails changes nothing. -/
theorem types_canonical (backing : Option Nat) (config : Config) (host : Host) (heap : Heap) (actions : List Action) :
    let session := startWithin backing config host heap
    let after := session.performAll actions
    (∀ handle ∈ session.returnedAll actions, ∀ handle' ∈ session.returnedAll actions,
      handle.index = handle'.index ↔
        handle.type.result = handle'.type.result ∧ handle.type.params = handle'.type.params) ∧
    after.env.registry.size = (session.obtainedAll actions).toFinset.card ∧
    (∀ action, after.env.registry.size ≤ (after.perform action).2.env.registry.size) ∧
    ∀ text error, (after.perform (.signature text)).1 = .error error → (after.perform (.signature text)).2 = after := by
  intro session after
  obtain ⟨hregistry, hknows⟩ := performAll_types session actions
  have hcanonical : after.env.registry.Canonical := by
    rw [hregistry]
    exact TypeRegistry.canonical_empty.internAll _
  refine ⟨fun handle hmem handle' hmem' => ?_, ?_, fun action => ?_, fun text error hfails => ?_⟩
  · rw [hcanonical.index_eq_iff (hknows handle hmem) (hknows handle' hmem'), FuncType.mk.injEq]
  · rw [hregistry]
    exact TypeRegistry.size_internAll _
  · rw [(perform_types after action).1]
    exact (TypeRegistry.extends_internAll _ _).size_le
  · simp only [perform, Environment.parseSignature] at hfails ⊢
    cases hread : after.env.registry.parse after.env.config.argumentLimit text with
    | error error => rfl
    | ok read =>
      rw [hread] at hfails
      cases hfails

/-- Three calls obtain one type, a module that cannot be decoded adds a second one, and an open signature none. -/
theorem types_canonical_mixed :
    let session := startWithin none {} (.ofBackends .threaded .threaded none) (.system 0)
    let actions : List Action :=
      [.signature "I(i*)", .build "m" [.function "I( ii )" 0 [0x0b], .type "v(v)"], .intern ⟨some .i64, [.i32, .i32]⟩,
        .decode "n" [0x00, 0x61, 0x73, 0x6d, 1, 0, 0, 0, 1, 4, 1, 0x60, 0, 0, 3, 2, 1, 7]]
    let handle : TypeHandle := ⟨0, some .i64, [.i32, .i32]⟩
    let after := session.performAll actions
    session.returnedAll actions = [handle, handle, handle, handle] ∧ after.env.registry.size = 2 ∧
      (after.perform (.signature "v(")).2 = after := by
  intro session actions handle after
  obtain ⟨-, hsize, -, hfails⟩ :=
    types_canonical none {} (.ofBackends .threaded .threaded none) (.system 0) actions
  refine ⟨by decide +kernel, ?_, hfails "v(" .malformedSignature (by decide +kernel)⟩
  rw [hsize]
  decide +kernel

end Session

end WasmEngine

import WasmEngine.Proofs.Machine.Quiet
import WasmEngine.Proofs.Machine.Scratch
import WasmEngine.Proofs.Session.Retry

/-!
# Constant expressions leave no trace

Evaluating a constant expression changes nothing that a machine could notice: code pages stay where they are, and the
pool has all the pages that it had, reset, and perhaps some more.
-/

namespace WasmEngine

open Engine (Reaches)
open LoadM

namespace Session

/-- Evaluating a constant expression, whether or not it succeeds, leaves the module, the linear memory and all machines
as they are. The pool keeps its pages, all of them reset. With the threaded compiler, and an executor that takes no page
of the heap when it runs the code of a constant expression, all constant expressions of a module together add at most
one page to the pool. The threaded executor is such an executor. -/
theorem constants_leave_no_trace (backing : Option Nat) (config : Config) (host : Host) (heap : Heap)
    (actions : List Action) {engine : Engine}
    (hreached : Reaches ((startWithin backing config host heap).performAll actions).engine engine) (state : Loading)
    (henv : state.env = engine.env) :
    (∀ (expr : List UInt8) (type : ValType), ∃ env',
      stateAfter (constValue expr type state) = { state with env := env' } ∧
      env'.config = config ∧ env'.host = host ∧ env'.memoryBacking = backing ∧
      env'.registry = state.env.registry ∧ Engine.Sound ⟨env', engine.places⟩ ∧
      state.env.pool.pages.Subperm env'.pool.pages ∧ ∀ page ∈ env'.pool.pages, page.Blank) ∧
    (host.compiler = Threaded.compiler → host.executor.Frugal →
      (stateAfter (prepare state)).env.pool.pages.length ≤ state.env.pool.pages.length + 1) ∧
    ∀ fuel, (Threaded.executor fuel).Frugal := by
  have hall := (performAll_reaches (startWithin backing config host heap) actions).trans hreached
  have hsound : Engine.Sound ⟨state.env, engine.places⟩ := by
    rw [henv]
    exact (sound_startWithin backing config host heap).reaches hall
  have hlasts : (startWithin backing config host heap).env.Lasts state.env := by
    rw [henv]
    exact Engine.Reaches.lasts hall
  refine ⟨fun expr type => ?_, fun hcompiler hexecutor => ?_, Threaded.frugal_executor⟩
  · have hreaches := Environment.constValue_reaches state.module expr type state.env engine.places
    have hsound' := hsound.reaches hreaches
    have hlasts' := hlasts.trans (Engine.Reaches.lasts hreaches)
    have hkept := Environment.pool_constValue state.module expr type hsound
    refine ⟨_, stateAfter_constValue expr type state, hlasts'.config, hlasts'.host, hlasts'.backing,
      Environment.types_constValue state.module expr type state.env, hsound', ?_, fun page hpage => ?_⟩
    · exact (PagePool.perm_pages _).subperm.trans (hkept.trans (PagePool.perm_pages _).symm.subperm)
    · exact hsound'.tidy.blank_of_mem ((PagePool.perm_pages _).subset hpage)
  · have hfrugal : state.env.Frugal := ⟨hlasts.host ▸ hcompiler, hlasts.host ▸ hexecutor, engine.places, hsound⟩
    have hmost := (replenishes_prepare state hfrugal).2.2.most
    rwa [← (PagePool.perm_pages _).length_eq, ← (PagePool.perm_pages _).length_eq] at hmost

/-- Four constant expressions, the last of which is not compiled because its code page is full. -/
theorem constants_leave_no_trace_cramped :
    let state := Machine.preparing copied (spare { codePageAlign := 16 })
    (resultOf (prepare state)).isOk = false ∧ state.env.pool.pages.length = 0 ∧
      (stateAfter (prepare state)).env.pool.pages.length = 1 := by
  have hfailed : (resultOf (prepare (Machine.preparing copied (spare { codePageAlign := 16 })))).isOk = false := by
    decide +kernel
  have hsome : 0 <
      (stateAfter (prepare (Machine.preparing copied (spare { codePageAlign := 16 })))).env.pool.pages.length := by
    decide +kernel
  obtain ⟨-, hmost, hfrugal⟩ := constants_leave_no_trace none { codePageAlign := 16 }
    (.ofBackends .threaded .threaded none) (.system 0) [] .refl
    (Machine.preparing copied (spare { codePageAlign := 16 })) rfl
  have hle := hmost rfl (hfrugal _)
  exact ⟨hfailed, rfl, Nat.le_antisymm hle hsome⟩

/-- A function that does nothing and a global that is set to 0. -/
def initialized : Module where
  functions := #[{ Func.declared ⟨0, ⟨none, []⟩⟩ with body := some [0x0B] }]
  globals := #[{ type := .i32, isMutable := false, initial := some [0x41, 0x00, 0x0B] }]

/-- A new machine in a session with the threaded compiler and the scripted executor. -/
def scripted : MachineState :=
  ⟨(startWithin none {} (.ofBackends .threaded .scripted none) (.system 0)).env,
    { id := ⟨0⟩, memory := LinearMemory.create {} ⟨0⟩ 1, stack := #[0] }⟩

/-- The scripted executor takes the code of the constant for a request to compile the function. So one constant
expression adds two pages to the pool. -/
theorem scripted_constant_takes_page :
    scripted.env.host.compiler = Threaded.compiler ∧ scripted.env.pool.pages.length = 0 ∧
      (stateAfter (prepare (Machine.preparing initialized scripted))).env.pool.pages.length = 2 := by
  refine ⟨rfl, rfl, ?_⟩
  decide +kernel

end Session

end WasmEngine

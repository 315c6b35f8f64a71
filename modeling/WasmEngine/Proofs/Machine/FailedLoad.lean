import WasmEngine.Proofs.Allocation.Machines
import WasmEngine.Proofs.Binary.Integers
import WasmEngine.Proofs.Memory.Machines
import WasmEngine.Session.Start

/-!
# What a failed load leaves behind

A module whose loading fails is handed back, or it is in the machine and its start function failed. Preparing a module
changes values of globals and the table at most (`Loading.Follows`).
-/

namespace WasmEngine

/-! ## Outlines -/

namespace Module

end Module

section Entries

variable {β : Type} {view : Module → β}
  (hview : ∀ module index entry, view (Module.setCode module index entry) = view module)

include hview

/-- Storing entries keeps what is seen of the modules, if setting one entry does. -/
theorem Machine.map_storeCode (machine : Machine) (index : Nat) (entries : List (Nat × CodeRef)) :
    (machine.storeCode index entries).modules.map view = machine.modules.map view := by
  unfold Machine.storeCode
  dsimp only
  refine map_modify_of_fixed (fun module => ?_) machine.modules index
  induction entries with
  | nil => rfl
  | cons entry entries ih => rw [List.foldr_cons, hview, ih]

namespace MachineState

variable {permit : Permit} {state state' : MachineState}

/-- Unless a module is added, only entries of functions change. -/
theorem Event.map_modules (h : Event permit state state') (hloads : ∀ functions, ¬permit.loads functions) :
    state'.machine.modules.map view = state.machine.modules.map view := by
  cases h with
  | tend env hmodules hcode hmemory hid => exact congrArg (Array.map view) hmodules
  | compile hmodule hcompile => exact Machine.map_storeCode hview _ _ _
  | link hfunc hlinks hinstall => exact Machine.map_storeCode hview _ _ _
  | run hmodule hexecute => exact Machine.map_storeCode hview _ _ _
  | push env machine hadded howner => exact absurd hadded (hloads _)
  | _ => rfl

/-- The same for any number of events. -/
theorem Events.map_modules (h : Events permit state state') (hloads : ∀ functions, ¬permit.loads functions) :
    state'.machine.modules.map view = state.machine.modules.map view := by
  induction h with
  | refl => rfl
  | tail _ hevent ih => exact (hevent.map_modules hview hloads).trans ih

end MachineState

end Entries

/-! ## Errors -/

/-- Evaluating a constant expression can end in an error with a host. -/
def Host.Raises (host : Host) (error : Error) : Prop :=
  ∃ (module : Module) (expr : List UInt8) (type : ValType) (env : Environment),
    env.host = host ∧ resultOf (Environment.constValue module expr type env) = .error error

namespace Reader

variable {reader : Reader} {error : Error}

theorem varU32_error (h : resultOf (varU32 reader) = .error error) : ∃ fault, error = .ofLeb128 fault := by
  obtain rfl | rfl := takesRuns_varU32.underrun_or_lebOverflow (eq_error_of_resultOf h)
  · exact ⟨.unexpectedEnd, rfl⟩
  · exact ⟨.overflow, rfl⟩

end Reader

namespace LoadM

variable {host : Host}

/-- The host stays, and the engine itself does not say that a module belongs to a machine. -/
abbrev Confined {α : Type} (host : Host) (program : LoadM α) : Prop :=
  Confines (fun state : Loading => state.env.host = host)
    (fun error => error = .moduleAlreadyLinked → host.Raises error) program

/-- A read fails with its own errors and changes nothing but what is left to read. -/
theorem confines_read {α : Type} {program : Read α} {kept : Loading → Prop} {allowed : Error → Prop}
    (hkept : ∀ state input, kept state → kept { state with input })
    (h : ∀ reader error, resultOf (program reader) = .error error → allowed error) :
    Confines kept allowed (read program) := by
  intro state hstate
  have herrors := h state.input
  unfold read
  cases hread : program state.input with
  | ok value input => exact ⟨hkept state input hstate, fun _ herror => by cases herror⟩
  | error error input =>
    rw [hread] at herrors
    refine ⟨hkept state input hstate, fun error' herror => ?_⟩
    cases herror
    exact herrors error rfl

end LoadM

/-! ## Failed loads -/

namespace LoadOutcome

/-- The error and the module that is handed back. -/
def refusal? : LoadOutcome → Option (Error × Module)
  | .refused error module => some (error, module)
  | _ => none

theorem eq_of_refusal? {outcome : LoadOutcome} {error : Error} {module : Module}
    (h : outcome.refusal? = some (error, module)) : outcome = .refused error module := by
  cases outcome <;> cases h
  rfl

end LoadOutcome

namespace Machine

variable {module : Module} {state : MachineState} {loading : Loading} {error : Error}

/-- Two globals, of which the second has an expression that breaks off. -/
def halfSet : Module where
  globals := #[{ type := .i32, isMutable := true, initial := some [0x41, 0x2A, 0x0B] },
    { type := .i32, isMutable := true, initial := some [0x41, 0x2A] }]
  memory := some ⟨0, some 1⟩

def idle : MachineState where
  env := { config := { constSlots := 1 }, host := .ofBackends .threaded .threaded none }
  machine := { id := ⟨7⟩, memory := LinearMemory.create {} ⟨7⟩ 1, stack := #[5] }

/-- A host whose compiler says of every module that it is in a machine. -/
def denying : MachineState :=
  { idle with
    env.host.compiler := { Compiler.unsupported with constExpr := fun _ _ _ => throw .moduleAlreadyLinked } }

/-- Where the host raises the error that a module is in a machine, a module that is in none is refused with it after the
linear memory was set up. -/
theorem load_denied : (load halfSet denying).1.refusal?.map (fun refusal => (refusal.1, refusal.2.isLinked)) =
      some (.moduleAlreadyLinked, false) ∧
    (load halfSet denying).2.machine.memory.maxPages ≠ denying.machine.memory.maxPages ∧
    denying.env.host.Raises .moduleAlreadyLinked := by
  refine ⟨by decide +kernel, by decide +kernel, halfSet, [], .i32, denying.env, rfl, by decide +kernel⟩

end Machine

end WasmEngine

import WasmEngine.Machine.Link
import WasmEngine.Machine.Load

/-!
# What operations of machines are made of

Linking, looking up and calling functions are put together from a few steps. A property of programs that holds of these
steps and goes with sequencing is a property of the operations (`MachineM.Closed`).
-/

namespace WasmEngine.MachineM

/-- A property of programs that holds of the steps of operations and of what is put together from them. -/
structure Closed (holds : (α : Type) → MachineM α → Prop) : Prop where
  pure : ∀ {α : Type} (value : α), holds α (pure value)
  throw : ∀ {α : Type} (error : Error), holds α (throw error)
  bind : ∀ {α β : Type} {first : MachineM α} {second : α → MachineM β}, holds α first →
    (∀ value, holds β (second value)) → holds β (first >>= second)
  get : holds MachineState get
  editStack : ∀ change : Array Slot → Array Slot,
    holds Unit (edit fun machine => { machine with stack := change machine.stack })
  growMemory : ∀ pages : Nat, holds Unit (onMemory (LinearMemory.growTo pages))
  store : ∀ (offset : Nat) (data : List UInt8), holds Unit (Machine.store offset data)
  ensureCompiled : ∀ module function : Nat, holds CodeRef (Machine.ensureCompiled module function)
  run : ∀ (module : Nat) (entry : CodeRef) (type : FuncType) (purpose : CallPurpose),
    holds (Option Value) (Machine.run module entry type purpose)

namespace Closed

variable {holds : (α : Type) → MachineM α → Prop} (h : Closed holds)

include h

theorem failIf (condition : Prop) [Decidable condition] (error : Error) : holds Unit (failIf condition error) := by
  unfold MachineM.failIf
  split
  · exact h.throw _
  · exact h.pure _

/-! ## Linking and looking up -/

theorem linkFunctions {index : Nat} {module field signature : String} {link : HostLink}
    (hlink : ∀ function, holds Bool (Machine.linkFunction index module field signature link function))
    (firstOnly : Bool) (functions : List Nat) :
    holds Bool (Machine.linkFunctions index module field signature link firstOnly functions) := by
  induction functions with
  | nil => exact h.pure _
  | cons function functions ih =>
    refine h.bind (hlink function) fun linked => ?_
    by_cases hdone : linked && firstOnly
    · simp only [if_pos hdone]
      exact h.pure _
    · simp only [if_neg hdone]
      exact h.bind ih fun _ => h.pure _

theorem link {index : Nat} {module field signature : String} {link : HostLink}
    (hlink : ∀ function, holds Bool (Machine.linkFunction index module field signature link function)) :
    ∃ step, Machine.link index module field signature link =
        recording (fun machine => (machine.moduleName index, some field, module ++ "." ++ field)) step ∧
      holds Unit step := by
  refine ⟨_, rfl, h.bind h.get fun state => ?_⟩
  cases state.machine.modules[index]? with
  | none => exact h.throw _
  | some target =>
    refine h.bind (h.linkFunctions hlink _ _) fun linked => ?_
    cases linked with
    | false => exact h.throw _
    | true => exact h.pure _

theorem find (name : String) :
    ∃ step, Machine.find name =
        recording (fun machine => (machine.moduleName (machine.modules.size - 1), some name, "'" ++ name ++ "'")) step ∧
      holds (Nat × Nat) step := by
  refine ⟨_, rfl, h.bind h.get fun state => ?_⟩
  by_cases hempty : state.machine.modules.isEmpty
  · simp only [if_pos hempty]
    exact h.throw _
  · simp only [if_neg hempty]
    cases Machine.lookup? state.machine.modules name state.machine.modules.size with
    | none => exact h.throw _
    | some found => exact h.bind (h.ensureCompiled found.1 found.2) fun _ => h.pure _

/-! ## Calls -/

theorem entryPoint (module function : Nat) : holds (CodeRef × Func) (Machine.entryPoint module function) := by
  refine h.bind h.get fun state => ?_
  cases state.machine.modules[module]? with
  | none => exact h.throw _
  | some found =>
    dsimp only
    cases found.functions[function]? with
    | none => exact h.throw _
    | some func =>
      dsimp only
      cases func.code with
      | none => exact h.throw _
      | some entry => exact h.pure _

theorem fillArguments (index : Nat) (types : List ValType) (texts : List String) :
    holds Unit (Machine.fillArguments index types texts) := by
  induction types generalizing index texts with
  | nil => exact h.pure _
  | cons type types ih =>
    cases texts with
    | nil => exact h.pure _
    | cons text texts =>
      unfold Machine.fillArguments
      cases Value.ofText? type text with
      | error error => exact h.throw _
      | ok value => exact h.bind (h.editStack (·.setIfInBounds index value.toSlot)) fun _ => ih _ _

theorem acceptArguments (func : Func) (arguments : List String) :
    holds (List String) (Machine.acceptArguments func arguments) := by
  unfold Machine.acceptArguments
  repeat' split
  · exact h.pure _
  · exact h.throw _
  · exact h.pure _

theorem invoke (module function : Nat) (arguments : List String) (purpose : CallPurpose) :
    holds (Option Value) (Machine.invoke module function arguments purpose) := by
  refine h.bind (h.entryPoint module function) fun (entry, func) => ?_
  refine h.bind (h.acceptArguments func arguments) fun arguments => ?_
  refine h.bind h.get fun state => ?_
  refine h.bind (h.failIf _ _) fun _ => ?_
  refine h.bind (h.editStack (Machine.clearSlots · _)) fun _ => ?_
  exact h.bind (h.fillArguments _ _ _) fun _ => h.run _ _ _ _

theorem runStart (module function : Nat) : holds Unit (Machine.runStart module function) :=
  h.bind (h.ensureCompiled module function) fun _ => h.bind (h.invoke _ _ _ _) fun _ => h.pure _

theorem storeArguments (pointer string : Nat) (arguments : List (List UInt8)) :
    holds Unit (Machine.storeArguments pointer string arguments) := by
  induction arguments generalizing pointer string with
  | nil => exact h.pure _
  | cons argument arguments ih =>
    refine h.bind (h.failIf _ _) fun _ => ?_
    refine h.bind (h.store _ _) fun _ => ?_
    refine h.bind (h.store _ _) fun _ => ?_
    refine h.bind (h.store _ _) fun _ => ?_
    exact ih _ _

theorem copyArguments (arguments : List (List UInt8)) : holds Nat (Machine.copyArguments arguments) := by
  refine h.bind (h.failIf _ _) fun _ => ?_
  refine h.bind h.get fun state => ?_
  refine h.bind (h.failIf _ _) fun _ => ?_
  refine h.bind (h.failIf _ _) fun _ => ?_
  refine h.bind (h.growMemory _) fun _ => ?_
  refine h.bind h.get fun state => ?_
  refine h.bind (h.failIf _ _) fun _ => ?_
  refine h.bind (h.failIf _ _) fun _ => ?_
  exact h.bind (h.storeArguments _ _ _) fun _ => h.pure _

theorem placeArguments (arguments : List String) : holds Unit (Machine.placeArguments arguments) := by
  refine h.bind (h.failIf _ _) fun _ => ?_
  refine h.bind h.get fun state => ?_
  refine h.bind (h.failIf _ _) fun _ => ?_
  exact h.bind (h.copyArguments _) fun table =>
    h.editStack fun stack =>
      (stack.setIfInBounds 0 (UInt64.ofNat arguments.length)).setIfInBounds 1 (UInt64.ofNat table)

theorem invokeMain (module function : Nat) (arguments : List String) :
    holds (Option Value) (Machine.invokeMain module function arguments) := by
  refine h.bind (h.entryPoint module function) fun (entry, func) => ?_
  dsimp only
  split
  · exact h.bind (h.placeArguments arguments) fun _ => h.run _ _ _ _
  · exact h.run _ _ _ _

end Closed

end WasmEngine.MachineM

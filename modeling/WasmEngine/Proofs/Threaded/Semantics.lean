import WasmEngine.Machine.Link
import WasmEngine.Proofs.Threaded.Tree
import WasmEngine.Threaded.Executor

/-!
# Evaluating bodies

An interpreter that goes over the tree of a body (`Block`) and knows no lines of code. It works on its operands and on
the slots of the stack; callees get code before they run, which may fail. `depth` bounds how deep calls are nested.
-/

namespace WasmEngine

/-- A function without its code. -/
def Func.source (func : Func) : Func :=
  { func with code := none }

@[simp]
theorem Func.isImport_source (func : Func) : func.source.isImport = func.isImport :=
  rfl

@[simp]
theorem Func.type_source (func : Func) : func.source.type = func.type :=
  rfl

/-- A module without the code of its functions. -/
def Module.source (module : Module) : Module :=
  { module with functions := module.functions.map Func.source }

theorem Module.getElem?_source (module : Module) (function : Nat) :
    module.source.functions[function]? = module.functions[function]?.map Func.source := by
  simp [Module.source]

/-- Where the code of a function is does not belong to the source. -/
theorem Module.source_setCode (module : Module) (function : Nat) (entry : CodeRef) :
    (module.setCode function entry).source = module.source := by
  unfold Module.source Module.setCode Module.updateFunction
  congr 1
  refine Array.ext_getElem? fun index => ?_
  rw [Array.getElem?_map, Array.getElem?_map, Array.getElem?_modify]
  split
  · rw [Option.map_map]
    rfl
  · rfl

namespace Threaded

/-- Ends a call: the operand on top is the result. -/
def leave (sp : Nat) : List Slot → Exec Unit
  | [] => pure ()
  | value :: _ => Exec.setSlot sp value

/-- Opens the frame of a function and gives its size. Counts are words of 64 bits. -/
def openFrame (func : Func) (sp : Nat) : Exec Nat := do
  let params := (UInt64.ofNat func.type.type.params.length).toNat
  let locals := (UInt64.ofNat func.numLocals).toNat
  if sp + params + locals > (← Exec.slotCount) then throw (.trap .stackOverflow)
  clear (sp + params) locals
  return params + locals

/-- Evaluates an instruction inside a block. Gives the operands, unless the function returns. -/
def Instruction.eval (source : Module) (call : Nat → List Slot → Exec (List Slot)) (sp : Nat) :
    Instruction → List Slot → Exec (Option (List Slot))
  | .const word, operands => return some (word :: operands)
  | .globalGet index, operands => do
    let value ← Exec.check (globalSlot source index)
    return some (value :: operands)
  | .localGet index, operands => do
    let value ← Exec.slot (sp + index.toNat)
    return some (value :: operands)
  | .arithmetic operation, operands => do
    let (b, operands) ← pop operands
    let (a, operands) ← pop operands
    return some (operation.apply a b :: operands)
  | .unreachable, _ => throw (.trap .unreachable)
  | .ret, operands => do
    leave sp operands
    return none
  | .call function, operands => do
    let operands ← call function.toNat operands
    return some operands
  | .callIndirect type, operands => do
    let (slot, operands) ← pop operands
    let function ← Exec.check (tableEntry source slot type.toNat)
    let operands ← call function operands
    return some operands
  | .drop, operands => do
    let (_, operands) ← pop operands
    return some operands
  | .ifThen, operands => return some operands
  | .orElse, operands => return some operands
  | .finish, operands => return some operands

/-- Goes on with the operands, unless the function returned. -/
def andThen (next : List Slot → Exec (Option (List Slot))) : Option (List Slot) → Exec (Option (List Slot))
  | none => return none
  | some operands => next operands

/-- Evaluates a block. Gives the operands at its end, unless the function returns. -/
def Block.eval (source : Module) (call : Nat → List Slot → Exec (List Slot)) (sp : Nat) :
    Block → List Slot → Exec (Option (List Slot))
  | .done, operands => return some operands
  | .plain instruction _ rest, operands => do
    let operands ← instruction.eval source call sp operands
    andThen (rest.eval source call sp) operands
  | .when body rest, operands => do
    let (condition, operands) ← pop operands
    if condition = 0 then rest.eval source call sp operands
    else
      let operands ← body.eval source call sp operands
      andThen (rest.eval source call sp) operands
  | .cond yes no rest, operands => do
    let (condition, operands) ← pop operands
    let operands ←
      if condition = 0 then no.eval source call sp operands else yes.eval source call sp operands
    andThen (rest.eval source call sp) operands

/-- Runs a callee with its frame from a slot on: a host function for an import, and else an evaluation. -/
def evalCallee (imports : Nat → Option HostLink) (eval : Func → Nat → Exec Unit) (function : Nat) (func : Func)
    (top : Nat) : Exec Unit :=
  if func.isImport then
    match imports function with
    | none => throw .missingCode
    | some link => Exec.callNative link.function top link.cookie
  else eval func top

/-- Pushes the result that a callee left, if it has one. -/
def takeResult (func : Func) (top : Nat) (operands : List Slot) : Exec (List Slot) :=
  if func.type.type.result.isSome then do
    let value ← Exec.slot top
    return value :: operands
  else return operands

/-- Calls a function with its frame from a slot on. Gives the operands after the call. -/
def evalCall (source : Module) (imports : Nat → Option HostLink) (eval : Func → Nat → Exec Unit) (top function : Nat)
    (operands : List Slot) : Exec (List Slot) := do
  let _ ← Exec.ensureCompiled function
  match source.functions[function]? with
  | none => throw .functionIndexOutOfRange
  | some func =>
    let operands ← passArguments top func.type.type.params.length operands
    Exec.yieldNow
    evalCallee imports eval function func top
    takeResult func top operands

/-- The end of a body returns, too. -/
def endBody (sp : Nat) : Option (List Slot) → Exec Unit
  | none => return
  | some operands => leave sp operands

/-- Evaluates a function with its frame from a slot on. -/
def evalFunction (source : Module) (imports : Nat → Option HostLink) : (depth : Nat) → Func → (sp : Nat) → Exec Unit
  | 0, _, _ => throw .stepLimit
  | depth + 1, func, sp =>
    match func.body.bind Block.ofBody with
    | none => throw .missingCode
    | some block => do
      let size ← openFrame func sp
      let operands ← block.eval source (evalCall source imports (evalFunction source imports depth) (sp + size)) sp []
      endBody sp operands

theorem evalFunction_source (source : Module) (imports : Nat → Option HostLink) (depth : Nat) (func : Func) (sp : Nat) :
    evalFunction source imports depth func.source sp = evalFunction source imports depth func sp := by
  cases depth with
  | zero => rfl
  | succ depth => rfl

end Threaded

end WasmEngine

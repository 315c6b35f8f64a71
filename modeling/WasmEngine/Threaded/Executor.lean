import WasmEngine.Host.Executor
import WasmEngine.Threaded.Opcode

/-!
# The threaded executor

Runs threaded code. A call has its frame on the slot stack from `sp` on, arguments first, and its own operands; the
frame of a callee starts behind that of its caller. What is to be done after a call is passed along, and `fuel` bounds
the operations along a chain of calls.
-/

namespace WasmEngine.Threaded

/-- The immediate operand at an address, which has to have 32 bits. -/
def immediate32 (address : CodeRef) : Exec UInt32 := do
  let value ← Exec.immediate address
  if value.toNat < 0x100000000 then return value.toUInt32 else throw .invalidCodeRef

/-- The operand on top and the ones below. -/
def pop : List Slot → Exec (Slot × List Slot)
  | [] => throw (.trap .unreachable)
  | value :: operands => return (value, operands)

/-- Puts zeros into so many slots. -/
def clear (first : Nat) : Nat → Exec Unit
  | 0 => pure ()
  | count + 1 => do
    Exec.setSlot first 0
    clear (first + 1) count

/-- Moves operands into the first slots of a frame, the one on top into the last of them. -/
def passArguments (sp : Nat) : Nat → List Slot → Exec (List Slot)
  | 0, operands => pure operands
  | count + 1, operands => do
    let (value, operands) ← pop operands
    Exec.setSlot (sp + count) value
    passArguments sp count operands

/-- The function in a table slot, which has to have the type at an index of the module. -/
def tableEntry (module : Module) (slot : Slot) (type : Nat) : Except Error Nat :=
  match module.table[slot.toNat]? with
  | none => .error (.trap .tableOutOfBounds)
  | some none => .error (.trap .indirectCallToNull)
  | some (some function) =>
    match module.functions[function]? with
    | none => .error .functionIndexOutOfRange
    | some func =>
      if module.types[type]?.map (·.type) = some func.type.type then .ok function
      else .error (.trap .badSignature)

/-- What a call works on besides the slots of its frame. -/
structure Activation where
  pc : CodeRef
  /-- The first slot of the frame. -/
  sp : Nat
  /-- The number of slots of the frame. -/
  frame : Nat := 0
  /-- The operands, the one on top first. -/
  operands : List Slot := []

namespace Activation

/-- Goes on some lines further. -/
def advance (call : Activation) (lines : Nat) : Activation :=
  { call with pc := call.pc.offset lines }

/-- Goes on at a line of the same page. -/
def jump (call : Activation) (line : Nat) : Activation :=
  { call with pc := { call.pc with line } }

/-- Pushes an operand. -/
def push (call : Activation) (value : Slot) : Activation :=
  { call with operands := value :: call.operands }

/-- Where the frame of a callee starts. -/
def top (call : Activation) : Nat :=
  call.sp + call.frame

end Activation

/-- Opens the frame that an `enter` describes. -/
def enter (call : Activation) : Exec Activation := do
  let params := (← Exec.immediate (call.pc.offset 1)).toNat
  let locals := (← Exec.immediate (call.pc.offset 2)).toNat
  if call.sp + params + locals > (← Exec.slotCount) then throw (.trap .stackOverflow)
  clear (call.sp + params) locals
  return { call with frame := params + locals }

/-- The content of a global. -/
def globalSlot (module : Module) (index : UInt32) : Except Error Slot :=
  match module.globals[index.toNat]? with
  | none => .error .invalidCodeRef
  | some global => .ok global.value.toSlot

/-- What comes after an operation. -/
inductive Next where
  /-- The call goes on. -/
  | proceed (call : Activation)
  /-- A callee has to run first. If it has a result, that is pushed before the caller goes on. -/
  | enter (callee caller : Activation) (hasResult : Bool)
  /-- The call is over. -/
  | finish

/-- Calls a function: moves its arguments off the operands into its frame, behind the frame of the caller. -/
def prepareCall (module : Module) (function : Nat) (caller : Activation) : Exec Next := do
  let entry ← Exec.ensureCompiled function
  match module.functions[function]? with
  | none => throw .functionIndexOutOfRange
  | some func =>
    let type := func.type.type
    let operands ← passArguments caller.top type.params.length caller.operands
    Exec.yieldNow
    return .enter { pc := entry, sp := caller.top } { caller with operands } type.result.isSome

/-- Runs one operation of a call. -/
def runOp (module : Module) (call : Activation) : Op → Exec Next
  | .enter => do
    let call ← enter call
    return .proceed (call.advance 3)
  | .push => do
    let value ← Exec.immediate (call.pc.offset 1)
    return .proceed ((call.advance 2).push value)
  | .localGet => do
    let index ← Exec.immediate (call.pc.offset 1)
    let value ← Exec.slot (call.sp + index.toNat)
    return .proceed ((call.advance 2).push value)
  | .globalGet => do
    let index ← immediate32 (call.pc.offset 1)
    let value ← Exec.check (globalSlot module index)
    return .proceed ((call.advance 2).push value)
  | .arithmetic arithmetic => do
    let (b, operands) ← pop call.operands
    let (a, operands) ← pop operands
    return .proceed { call.advance 1 with operands := arithmetic.apply a b :: operands }
  | .branch => do
    let line ← immediate32 (call.pc.offset 1)
    return .proceed (call.jump line.toNat)
  | .branchUnless => do
    let (condition, operands) ← pop call.operands
    if condition = 0 then
      let line ← immediate32 (call.pc.offset 1)
      return .proceed { call.jump line.toNat with operands }
    else return .proceed { call.advance 2 with operands }
  | .call => do
    let function ← immediate32 (call.pc.offset 1)
    prepareCall module function.toNat (call.advance 2)
  | .callIndirect => do
    let type ← Exec.immediate (call.pc.offset 1)
    let (slot, operands) ← pop call.operands
    let function ← Exec.check (tableEntry module slot type.toNat)
    prepareCall module function { call.advance 2 with operands }
  | .ret =>
    match call.operands with
    | [] => return .finish
    | value :: _ => do
      Exec.setSlot call.sp value
      return .finish
  | .drop => do
    let (_, operands) ← pop call.operands
    return .proceed { call.advance 1 with operands }
  | .unreachable => throw (.trap .unreachable)

/-- Runs the operation that a call is at. The call of a host function is a call's only operation. -/
def step (module : Module) (call : Activation) : Exec Next := do
  match ← Exec.fetch call.pc with
  | .op code =>
    if code = Line.callNative || code = Line.callNativeWithCookie then
      Exec.callNativeAt call.pc call.sp
      return .finish
    else
      match Op.ofCode? code with
      | none => throw (.unknownOpcode code)
      | some op => runOp module call op
  | _ => throw .invalidCodeRef

/-- Runs a call to its end and goes on with `after`. A callee leaves its result in the first slot of its frame. -/
def run (module : Module) : (fuel : Nat) → Activation → (after : Exec Unit) → Exec Unit
  | 0, _, _ => throw .stepLimit
  | fuel + 1, call, after => do
    match ← step module call with
    | .proceed call => run module fuel call after
    | .enter callee caller true =>
      run module fuel callee do
        let value ← Exec.slot callee.sp
        run module fuel (caller.push value) after
    | .enter callee caller false => run module fuel callee (run module fuel caller after)
    | .finish => after

/-- The threaded executor with a bound on the operations along a chain of calls. -/
def executor (fuel : Nat) : Executor where
  run module _ entry := run module fuel { pc := entry, sp := 0 } (pure ())

end WasmEngine.Threaded

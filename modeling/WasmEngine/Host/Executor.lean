import WasmEngine.Host.Compiler

/-!
# Executors

An executor runs code lines. It is a dialogue with the engine: it may fetch lines, have functions compiled, give the
host a chance to do other work, call host functions, and work on the slot stack and the linear memory.
-/

namespace WasmEngine

/-- What an executor may ask for. -/
inductive ExecOp where
  /-- The line at an address. -/
  | fetch (address : CodeRef)
  /-- The entry of a function of the running module, which is compiled on first use. -/
  | ensureCompiled (function : Nat)
  /-- Lets the host do other work. -/
  | yieldNow
  /-- Calls a host function with its frame at a slot. -/
  | callNative (function : HostFunction) (sp : Nat) (cookie : Option UInt64)
  /-- The number of slots of the stack. -/
  | slotCount
  /-- Works on the stack from slot 0 on and on the linear memory. -/
  | frame (op : FrameOp)
  /-- Leaves a note. -/
  | note (text : String)

/-- The answers to an executor. -/
abbrev ExecOp.Reply : ExecOp → Type
  | .fetch _ => Except Error Line
  | .ensureCompiled _ => Except Error CodeRef
  | .yieldNow => Except Error Unit
  | .callNative _ _ _ => Except Error Unit
  | .slotCount => Nat
  | .frame op => op.Reply
  | .note _ => Unit

/-- A running program that may fail. -/
abbrev Exec := ExceptT Error (Dialogue ExecOp ExecOp.Reply)

namespace Exec

/-- The line at an address. -/
def fetch (address : CodeRef) : Exec Line :=
  ExceptT.mk (.perform (ExecOp.fetch address))

/-- The immediate operand at an address. -/
def immediate (address : CodeRef) : Exec UInt64 := do
  match ← fetch address with
  | .imm value => return value
  | _ => throw .invalidCodeRef

/-- The entry of a function of the running module. -/
def ensureCompiled (function : Nat) : Exec CodeRef :=
  ExceptT.mk (.perform (ExecOp.ensureCompiled function))

/-- Lets the host do other work. -/
def yieldNow : Exec Unit :=
  ExceptT.mk (.perform ExecOp.yieldNow)

/-- Calls a host function with its frame at a slot. -/
def callNative (function : HostFunction) (sp : Nat) (cookie : Option UInt64) : Exec Unit :=
  ExceptT.mk (.perform (ExecOp.callNative function sp cookie))

/-- The number of slots of the stack. -/
def slotCount : Exec Nat :=
  ExceptT.lift (.perform ExecOp.slotCount)

/-- The content of a slot. -/
def slot (index : Nat) : Exec Slot :=
  ExceptT.mk (.perform (ExecOp.frame (.slot index)))

/-- Puts a value into a slot. -/
def setSlot (index : Nat) (value : Slot) : Exec Unit :=
  ExceptT.mk (.perform (ExecOp.frame (.setSlot index value)))

/-- The linear memory as it is. -/
def memory : Exec LinearMemory :=
  ExceptT.lift (.perform (ExecOp.frame .memory))

/-- Grows the linear memory. -/
def growMemory (pages : Nat) : Exec Unit :=
  ExceptT.mk (.perform (ExecOp.frame (.growMemory pages)))

/-- Leaves a note. -/
def note (text : String) : Exec Unit :=
  ExceptT.lift (.perform (ExecOp.note text))

/-- Takes over the result of a check. -/
def check {α : Type} (result : Except Error α) : Exec α :=
  ExceptT.mk (.done result)

/-- Goes on whether or not a program failed. -/
def attempt {α : Type} (program : Exec α) : Exec (Except Error α) :=
  ExceptT.lift program.run

/-- Runs the call of a host function at an address, with the frame at a slot. -/
def callNativeAt (address : CodeRef) (sp : Nat) : Exec Unit := do
  let cookie ←
    match ← fetch address with
    | .op code =>
      if code = Line.callNative then pure none
      else if code = Line.callNativeWithCookie then some <$> immediate (address.offset 2)
      else throw (.unknownOpcode code)
    | _ => throw .invalidCodeRef
  match ← fetch (address.offset 1) with
  | .native function => callNative function sp cookie
  | _ => throw .invalidCodeRef

end Exec

/-- What a call is for. -/
inductive CallPurpose where
  | ordinary
  /-- The call runs a module's start function. -/
  | start
  /-- The call evaluates a constant expression. -/
  | constExpr
  deriving DecidableEq

/-- The number that stands for a purpose. -/
def CallPurpose.bits : CallPurpose → Nat
  | .ordinary => 0
  | .start => 1
  | .constExpr => 2

/-- An executor: runs the code at an entry, for a module and a purpose. Arguments are in the first slots of the stack
and the result goes to slot 0. -/
structure Executor where
  run : Module → CallPurpose → CodeRef → Exec Unit

/-- The executor of a host that supplies none: it runs calls of host functions and nothing else. -/
def Executor.nativeOnly : Executor where
  run _ _ entry := Exec.callNativeAt entry 0

end WasmEngine

import WasmEngine.Host.Dialogue
import WasmEngine.Memory
import WasmEngine.Value

/-!
# Frames and host functions

A host function sees a frame of the slot stack, the linear memory and the cookie it was linked with. Its arguments are
in the frame's first slots and its result goes to slot 0.
-/

namespace WasmEngine

/-- What running code may ask about its slots and the linear memory. -/
inductive FrameOp where
  /-- The content of a slot. -/
  | slot (index : Nat)
  /-- Puts a value into a slot. -/
  | setSlot (index : Nat) (value : Slot)
  /-- The linear memory as it is. -/
  | memory
  /-- Overwrites bytes of the linear memory. -/
  | writeMemory (offset : Nat) (data : List UInt8)
  /-- Grows the linear memory. -/
  | growMemory (pages : Nat)

/-- The answers to questions about slots and linear memory. -/
abbrev FrameOp.Reply : FrameOp → Type
  | .slot _ => Except Error Slot
  | .setSlot _ _ => Except Error Unit
  | .memory => LinearMemory
  | .writeMemory _ _ => Except Error Unit
  | .growMemory _ => Except Error Unit

/-- A program on a frame that may fail. -/
abbrev Native := ExceptT Error (Dialogue FrameOp FrameOp.Reply)

namespace Native

/-- The content of a slot of the frame. -/
def slot (index : Nat) : Native Slot :=
  ExceptT.mk (.perform (FrameOp.slot index))

/-- Puts a value into a slot of the frame. -/
def setSlot (index : Nat) (value : Slot) : Native Unit :=
  ExceptT.mk (.perform (FrameOp.setSlot index value))

/-- An argument as a value of a type. -/
def argument (index : Nat) (type : ValType) : Native Value :=
  return Value.ofSlot type (← slot index)

/-- Leaves the result. -/
def setResult (value : Value) : Native Unit :=
  setSlot 0 value.toSlot

/-- The linear memory as it is. -/
def memory : Native LinearMemory :=
  ExceptT.lift (.perform FrameOp.memory)

/-- The bytes of a committed range of the linear memory. -/
def readMemory (offset len : Nat) : Native (List UInt8) := do
  ExceptT.mk (.done ((← memory).read offset len))

/-- Overwrites a committed range of the linear memory. -/
def writeMemory (offset : Nat) (data : List UInt8) : Native Unit :=
  ExceptT.mk (.perform (FrameOp.writeMemory offset data))

/-- Grows the linear memory. -/
def growMemory (pages : Nat) : Native Unit :=
  ExceptT.mk (.perform (FrameOp.growMemory pages))

end Native

/-- A function of the host, given the cookie it was linked with. -/
structure HostFunction where
  body : Option UInt64 → Native Unit

end WasmEngine

import WasmEngine.Host.Frame

/-!
# A library of host functions

Host functions to link imports with. Each of them exercises one part of what a frame offers: arguments and results of
the four value types, single slots, the cookie, the linear memory, and failing.
-/

namespace WasmEngine.HostLibrary

/-- A host function that does not look at its cookie. -/
def plain (body : Native Unit) : HostFunction :=
  ⟨fun _ => body⟩

/-- The low half of an argument as a signed number. -/
def argumentI32 (index : Nat) : Native Int32 :=
  return (← Native.slot index).toUInt32.toInt32

/-- Leaves a 32-bit result. -/
def setResultI32 (value : Int32) : Native Unit :=
  Native.setResult (.i32 value)

/-- An address given as a signed number, which must not be negative. -/
def addressOf (value : Int32) : Native Nat :=
  if value < 0 then throw (.trap .memoryOutOfBounds) else return value.toInt.toNat

/-- The bytes of a 32-bit number, the low one first. -/
def littleEndian32 (value : UInt32) : List UInt8 :=
  [value.toUInt8, (value >>> 8).toUInt8, (value >>> 16).toUInt8, (value >>> 24).toUInt8]

/-- The 32-bit number of some bytes, the low one first. -/
def ofLittleEndian32 (bytes : List UInt8) : UInt32 :=
  bytes.foldr (fun byte value => value <<< 8 ||| byte.toUInt32) 0

/-- Does nothing. -/
def nop : HostFunction :=
  plain (pure ())

/-- Adds one to a 64-bit number. -/
def addOne : HostFunction :=
  plain do Native.setSlot 0 ((← Native.slot 0) + 1)

/-- Gives the cookie, and -1 if there is none. -/
def cookie : HostFunction :=
  ⟨fun cookie => Native.setSlot 0 (cookie.getD (-1))⟩

/-- Fails. -/
def fail : HostFunction :=
  plain (throw (.trap (.host "no")))

/-- Stores a 32-bit number at an address. -/
def store : HostFunction :=
  plain do
    let address ← argumentI32 0
    let value ← argumentI32 1
    Native.writeMemory (← addressOf address) (littleEndian32 value.toUInt32)

/-- Loads a 32-bit number from an address. -/
def load : HostFunction :=
  plain do
    let address ← addressOf (← argumentI32 0)
    setResultI32 (ofLittleEndian32 (← Native.readMemory address 4)).toInt32

/-- The length of the string that starts at an address and ends before the first zero byte, if that is among the next
`limit` bytes. -/
def stringLength (memory : LinearMemory) (address : Nat) : (limit : Nat) → Except Error Nat
  | 0 => .error (.trap .memoryOutOfBounds)
  | limit + 1 =>
    match memory.read address 1 with
    | .error error => .error error
    | .ok bytes =>
      if bytes = [0] then .ok 0
      else
        match stringLength memory (address + 1) limit with
        | .error error => .error error
        | .ok length => .ok (length + 1)

/-- The total length of the strings behind so many pointers. -/
def stringLengths (memory : LinearMemory) (pointers : Nat) : Nat → Except Error Nat
  | 0 => .ok 0
  | count + 1 => do
    let pointer ← memory.read pointers 4
    let length ← stringLength memory (ofLittleEndian32 pointer).toNat (memory.size + 1)
    let others ← stringLengths memory (pointers + 4) count
    return length + others

/-- How many command arguments are looked at. -/
def commandArguments : Nat :=
  100

/-- The total length of the command arguments. -/
def totalLength : HostFunction :=
  plain do
    let count ← Native.slot 0
    let pointers ← Native.slot 1
    let memory ← Native.memory
    let total ← ExceptT.mk (.done (stringLengths memory pointers.toNat (min count.toNat commandArguments)))
    Native.setSlot 0 (UInt64.ofNat total)

/-- Adds two 32-bit numbers. -/
def add : HostFunction :=
  plain do
    let a ← argumentI32 0
    let b ← argumentI32 1
    setResultI32 (a + b)

/-- Grows the linear memory and gives its number of pages. -/
def grow : HostFunction :=
  plain do
    let pages ← Native.slot 0
    Native.growMemory pages.toUInt32.toNat
    setResultI32 (Int32.ofNat (← Native.memory).numPages)

/-- Replaces the number of a slot by its content. -/
def peek : HostFunction :=
  plain do
    let index ← Native.slot 0
    Native.setSlot 0 (← Native.slot index.toNat)

/-- Puts the second argument into the slot with the number in the first one. -/
def poke : HostFunction :=
  plain do
    let index ← Native.slot 0
    let value ← Native.slot 1
    Native.setSlot index.toNat value

/-- Gives its second argument. -/
def second : HostFunction :=
  plain do Native.setResult (← Native.argument 1 .f64)

/-- Changes the sign of a 32-bit float. -/
def negF32 : HostFunction :=
  plain do Native.setSlot 0 ((← Native.slot 0).toUInt32 ^^^ 0x80000000).toUInt64

/-- The trap with a number. -/
def trapOf (number : UInt64) : Trap :=
  match number.toNat with
  | 0 => .unreachable
  | 1 => .memoryOutOfBounds
  | 2 => .stackOverflow
  | 3 => .integerOverflow
  | 4 => .integerDivisionByZero
  | 5 => .tableOutOfBounds
  | 6 => .indirectCallToNull
  | 7 => .badSignature
  | other => .host ("host " ++ toString other)

/-- Traps. -/
def trap : HostFunction :=
  plain do throw (.trap (trapOf (← Native.slot 0)))

/-- The error with a number. -/
def errorOf (number : UInt64) : Error :=
  match number.toNat with
  | 0 => .unknownArgumentType
  | 1 => .unknownReturnType
  | 2 => .outOfMemory
  | 3 => .badVersion 7
  | _ => .unknownOpcode number.toUInt16

/-- Fails with an error other than a trap. -/
def err : HostFunction :=
  plain do throw (errorOf (← Native.slot 0))

/-- The host functions by name. -/
def functions : List (String × HostFunction) :=
  [("nop", nop), ("add_one", addOne), ("cookie", cookie), ("fail", fail), ("store", store), ("load", load),
    ("total_length", totalLength), ("add", add), ("grow", grow), ("peek", peek), ("poke", poke), ("second", second),
    ("neg_f32", negF32), ("trap", trap), ("err", err)]

/-- The host function with a name. -/
def byName? (name : String) : Option HostFunction :=
  functions.lookup name

/-- The host function with a number, counted from 0. -/
def byNumber? (number : Nat) : Option HostFunction :=
  functions[number]?.map (·.2)

end WasmEngine.HostLibrary

import WasmEngine.Host.Frame

/-!
# Code lines

Compiled code is a sequence of lines: operation codes, immediate operands and host functions. A code reference names
a line by the page it is on and its place there.
-/

namespace WasmEngine

/-- The address of a line: a page of the owning machine and an index into it. -/
structure CodeRef where
  page : Nat
  line : Nat
  deriving DecidableEq

/-- The address some lines further on. Numbers of lines have 32 bits; behind the last of them there is no such address,
and here it has a number that no page gives out (`CodePage.pc`). -/
def CodeRef.offset (address : CodeRef) (lines : Nat) : CodeRef :=
  { address with line := address.line + lines }

/-- How an address is written. -/
def CodeRef.label (address : CodeRef) : String :=
  toString address.page ++ ":" ++ toString address.line

/-- One line of code. -/
inductive Line where
  | op (code : UInt16)
  | native (function : HostFunction)
  | imm (value : UInt64)

namespace Line

/-- Calls the host function in the next line. -/
def callNative : UInt16 :=
  0xFF00

/-- Calls the host function in the next line with the cookie in the line after it. -/
def callNativeWithCookie : UInt16 :=
  0xFF01

/-- The number of bytes a line takes up. -/
def byteSize : Nat :=
  16

/-- How a line is written. -/
def label : Line → String
  | .op code => "Op(0x" ++ Text.hex 4 code.toNat ++ ")"
  | .native _ => "Native"
  | .imm value => "Imm(0x" ++ Text.hex 1 value.toNat ++ ")"

end Line

end WasmEngine

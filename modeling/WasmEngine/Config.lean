import WasmEngine.Types.FuncType

/-!
# Configuration

The tunables shared by an environment and every machine in it.
-/

namespace WasmEngine

/-- The number of bytes of a page of linear memory. -/
def pageSize : Nat :=
  0x10000

/-- The largest number of pages that 32-bit addresses reach. -/
def pageCeiling : Nat :=
  0x10000

/-- The tunables of an environment. -/
structure Config where
  /-- Code pages are sized in multiples of this many bytes. -/
  codePageAlign : Nat := 32 * 1024
  /-- A released code page with fewer free lines counts as full. Also the least number of free lines that compiling
  starts with. -/
  freeLineThreshold : Nat := 5
  /-- The longest argument list of a signature. -/
  argumentLimit : Nat := FuncType.defaultArgumentLimit
  /-- The longest text in a module, in bytes. -/
  textLimit : Nat := 2000
  /-- The maximum of linear memory for modules that declare none. -/
  defaultMaxPages : Nat := pageCeiling
  /-- A hard cap on the bytes of linear memory of one machine. -/
  memoryLimit : Option Nat := none
  /-- The slots of the stack that constant expressions run on. -/
  constSlots : Nat := 4000

end WasmEngine

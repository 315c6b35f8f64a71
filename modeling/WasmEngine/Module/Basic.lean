import WasmEngine.Code.Line
import WasmEngine.Types.Registry

/-!
# Modules

A module as it is decoded or built. Loading it into a machine fills in what only a machine knows: the owner, the values
of the globals, the table and the code of the functions.
-/

namespace WasmEngine

/-- The module and field that an import is resolved by. -/
structure ImportName where
  module : String
  field : String
  deriving DecidableEq

/-- Where a function's display name comes from. -/
inductive FuncName where
  | anonymous
  | given (name : String)
  | importField
  deriving DecidableEq

/-- A function of a module. -/
structure Func where
  type : TypeHandle
  /-- What the function is imported as, unless it is defined here. -/
  imported : Option ImportName := none
  label : FuncName
  /-- Where its code starts, once it is compiled or linked. -/
  code : Option CodeRef := none
  numLocals : Nat := 0
  /-- The instructions of a defined function, after the local declarations. -/
  body : Option (List UInt8) := none
  /-- Constants that a compiler keeps out of line. -/
  constants : List UInt64 := []
  deriving DecidableEq

namespace Func

/-- An imported function, known by the name of its import field. -/
def ofImport (type : TypeHandle) (name : ImportName) : Func :=
  { type, imported := some name, label := .importField }

/-- A defined function that waits for its body. -/
def declared (type : TypeHandle) : Func :=
  { type, label := .anonymous }

/-- Whether the function is imported. -/
def isImport (func : Func) : Bool :=
  func.imported.isSome

/-- The display name. -/
def name (func : Func) : Option String :=
  match func.label with
  | .anonymous => none
  | .given name => some name
  | .importField => func.imported.map ImportName.field

/-- Gives the function a display name unless it has one. -/
def nameIfAnonymous (func : Func) (name : String) : Func :=
  if func.label = .anonymous then { func with label := .given name } else func

end Func

/-- A global variable of a module. -/
structure Global where
  type : ValType
  isMutable : Bool
  /-- The constant expression it starts with, unless it is imported. -/
  initial : Option (List UInt8) := none
  imported : Option ImportName := none
  /-- Its content. -/
  slot : Slot := 0
  deriving DecidableEq

/-- The current value of a global. -/
def Global.value (global : Global) : Value :=
  Value.ofSlot global.type global.slot

/-- Bytes to be copied into linear memory. -/
structure DataSegment where
  memoryIndex : Nat
  /-- The constant expression for the place they go to. -/
  offset : List UInt8
  bytes : List UInt8
  deriving DecidableEq

/-- How large a memory starts and may become, in pages. -/
structure MemoryLimits where
  initial : Nat
  maximum : Option Nat
  deriving DecidableEq

/-- A module. -/
structure Module where
  name : Option String := none
  /-- The machine that the module is loaded into. -/
  owner : Option MachineId := none
  types : Array TypeHandle := #[]
  functions : Array Func := #[]
  globals : Array Global := #[]
  data : Array DataSegment := #[]
  /-- How many element segments there are. -/
  elementCount : Nat := 0
  /-- The element segments in encoded form; they are decoded when the module is loaded. -/
  elementBytes : List UInt8 := []
  /-- Table 0, filled by the element segments. -/
  table : Array (Option Nat) := #[]
  memory : Option MemoryLimits := none
  memoryImport : Option ImportName := none
  start : Option Nat := none
  deriving DecidableEq

namespace Module

/-- Whether the module belongs to a machine. -/
def isLinked (module : Module) : Bool :=
  module.owner.isSome

/-- The first function with a display name. -/
def findFunction (module : Module) (name : String) : Option Nat :=
  module.functions.findIdx? fun func => func.name = some name

/-- The entry of a function's code. -/
def codeOf (module : Module) (index : Nat) : Option CodeRef :=
  match module.functions[index]? with
  | none => none
  | some func => func.code

/-- Changes the function at an index, if there is one. -/
def updateFunction (module : Module) (index : Nat) (change : Func → Func) : Module :=
  { module with functions := module.functions.modify index change }

/-- Sets the entry of a function's code. -/
def setCode (module : Module) (index : Nat) (entry : CodeRef) : Module :=
  module.updateFunction index fun func => { func with code := some entry }

/-- The name of a function for people. -/
def describe (module : Module) (index : Nat) : String :=
  match module.functions[index]? with
  | some func => func.name.getD ("<function " ++ toString index ++ ">")
  | none => "<function " ++ toString index ++ ">"

end Module

end WasmEngine

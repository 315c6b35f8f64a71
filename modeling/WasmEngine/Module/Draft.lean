import WasmEngine.Binary.ConstExpr
import WasmEngine.Module.Basic

/-!
# Building modules

A draft is a module under construction together with the registry its types are interned in. A host builds a module
from items; each item either changes the draft or fails and leaves the module as it was.
-/

namespace WasmEngine

/-- A module under construction. -/
structure Draft where
  registry : TypeRegistry
  module : Module := {}

/-- A step of construction. -/
abbrev Drafting := EStateM Error Draft

namespace Draft

/-- Changes the module. -/
def edit (change : Module → Module) : Drafting Unit :=
  modify fun draft => { draft with module := change draft.module }

/-- Adds a function type, be it a new one or not. -/
def pushType (type : FuncType) : Drafting Unit :=
  modify fun draft =>
    let (handle, registry) := draft.registry.intern type
    { registry, module := { draft.module with types := draft.module.types.push handle } }

/-- Reads a signature and interns its type. -/
def parseSignature (limit : Nat) (text : String) : Drafting TypeHandle := fun draft =>
  match draft.registry.parse limit text with
  | .error error => .error error draft
  | .ok (handle, registry) => .ok handle { draft with registry }

/-- The index of a type in the module's type list, which it is added to if it is not there yet. -/
def typeIndex (handle : TypeHandle) : Drafting Nat := do
  let types := (← get).module.types
  match types.findIdx? fun other => other.index = handle.index with
  | some index => return index
  | none =>
    edit fun module => { module with types := module.types.push handle }
    return types.size

/-- The type at an index of the module's type list. -/
def typeAt (index : Nat) : Drafting TypeHandle := do
  match (← get).module.types[index]? with
  | some handle => return handle
  | none => throw .invalidTypeId

/-- Adds a function and gives its index. -/
def pushFunction (func : Func) : Drafting Nat := do
  let index := (← get).module.functions.size
  edit fun module => { module with functions := module.functions.push func }
  return index

/-- Changes a function that has to exist. -/
def updateFunction (index : Nat) (change : Func → Func) : Drafting Unit := do
  if index < (← get).module.functions.size then
    edit fun module => module.updateFunction index change
  else throw .functionIndexOutOfRange

/-- Adds a global and gives its index. -/
def pushGlobal (global : Global) : Drafting Nat := do
  let index := (← get).module.globals.size
  edit fun module => { module with globals := module.globals.push global }
  return index

end Draft

/-- One piece of a module. -/
inductive BuildItem where
  | name (name : String)
  /-- Declares a function type; a module lists each type once. -/
  | type (signature : String)
  | importFunction (name : ImportName) (signature : String)
  | function (signature : String) (numLocals : Nat) (body : List UInt8)
  /-- Names a function; it keeps the first name it gets. -/
  | exportFunction (function : Nat) (name : String)
  | global (type : ValType) (isMutable : Bool) (initial : List UInt8)
  | importGlobal (name : ImportName) (type : ValType) (isMutable : Bool)
  | memory (limits : MemoryLimits)
  | importMemory (name : ImportName)
  | data (offset bytes : List UInt8)
  /-- An element segment that puts functions into a table from an offset on. -/
  | elements (table : Nat) (offset : List UInt8) (functions : List Nat)
  | start (function : Nat)

namespace Draft

/-- The encoded form of an element segment. -/
def encodeElements (table : Nat) (offset : List UInt8) (functions : List Nat) : List UInt8 :=
  Leb128.encodeUnsigned table ++ offset ++ Leb128.encodeUnsigned functions.length ++
    functions.flatMap Leb128.encodeUnsigned

/-- Adds an item. The result is the index of the type, function or global that was added. -/
def add (limit : Nat) : BuildItem → Drafting (Option Nat)
  | .name name => do
    edit fun module => { module with name := some name }
    return none
  | .type signature => do
    let handle ← parseSignature limit signature
    return some (← typeIndex handle)
  | .importFunction name signature => do
    let handle ← parseSignature limit signature
    let _ ← typeIndex handle
    return some (← pushFunction (.ofImport handle name))
  | .function signature numLocals body => do
    let handle ← parseSignature limit signature
    let _ ← typeIndex handle
    return some (← pushFunction { Func.declared handle with numLocals, body := some body })
  | .exportFunction function name => do
    edit fun module => module.updateFunction function (·.nameIfAnonymous name)
    return none
  | .global type isMutable initial => return some (← pushGlobal { type, isMutable, initial := some initial })
  | .importGlobal name type isMutable => return some (← pushGlobal { type, isMutable, imported := some name })
  | .memory limits => do
    edit fun module => { module with memory := some limits }
    return none
  | .importMemory name => do
    edit fun module => { module with memoryImport := some name }
    return none
  | .data offset bytes => do
    edit fun module => { module with data := module.data.push { memoryIndex := 0, offset, bytes } }
    return none
  | .elements table offset functions => do
    if 0x100000000 ≤ functions.length then throw .tableOverflow
    edit fun module =>
      { module with
        elementCount := module.elementCount + 1
        elementBytes := module.elementBytes ++ encodeElements table offset functions }
    return none
  | .start function => do
    edit fun module => { module with start := some function }
    return none

/-- Adds items one after another, going on after failures. -/
def addAll (limit : Nat) : List BuildItem → Draft → List (Except Error (Option Nat)) × Draft
  | [], draft => ([], draft)
  | item :: items, draft =>
    let (result, draft) :=
      match add limit item draft with
      | .ok index draft => (.ok index, draft)
      | .error error draft => (.error error, draft)
    let (results, draft) := addAll limit items draft
    (result :: results, draft)

end Draft

end WasmEngine

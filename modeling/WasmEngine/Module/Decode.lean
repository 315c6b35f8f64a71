import WasmEngine.Binary.Frame
import WasmEngine.Module.Draft

/-!
# Decoding modules

Decoding goes through the sections in their order and adds what they describe to a draft. It checks structure, not
validity: function bodies and element segments are kept as bytes. Types are interned as they are met, also when a later
byte is at fault.
-/

namespace WasmEngine

/-- What decoding works on: the section at hand and the draft. -/
structure Decoding where
  input : Reader := .ofBytes []
  draft : Draft
  /-- The defined functions that wait for a body. -/
  pending : List Nat := []

/-- A step of decoding. -/
abbrev Decode := EStateM Error Decoding

namespace Decode

/-- Reads from the section at hand. -/
def read {α : Type} (read : Read α) : Decode α := fun state =>
  match read state.input with
  | .ok value input => .ok value { state with input }
  | .error error input => .error error { state with input }

/-- Works on the draft. -/
def draft {α : Type} (step : Drafting α) : Decode α := fun state =>
  match step state.draft with
  | .ok value draft => .ok value { state with draft }
  | .error error draft => .error error { state with draft }

/-- Takes a step a number of times. -/
def times (step : Decode Unit) : Nat → Decode Unit
  | 0 => pure ()
  | count + 1 => do
    step
    times step count

/-- Takes a step as often as the section says. -/
def vector (step : Decode Unit) : Decode Unit := do
  let count ← read Reader.varU32
  times step count.toNat

end Decode

namespace Binary

/-- Reads a number of things. -/
def many {α : Type} (item : Read α) : Nat → Read (List α)
  | 0 => return []
  | count + 1 => do
    let first ← item
    let others ← many item count
    return first :: others

/-- Reads a value type. -/
def valType : Read ValType := do
  match ValType.ofByte? (← Reader.byte) with
  | .ok type => return type
  | .error error => throw error

/-- The form byte of a function type, as a signed number of seven bits. -/
def functionForm : Int8 :=
  -0x20

/-- Reads a function type. -/
def funcType : Read FuncType := do
  let form ← Reader.varI7
  if form ≠ functionForm then throw .malformedSignature
  let paramCount ← Reader.varU32
  let params ← many valType paramCount.toNat
  let resultCount ← Reader.varU32
  if resultCount = 0 then return ⟨none, params⟩
  else if resultCount = 1 then return ⟨some (← valType), params⟩
  else throw .tooManyResults

/-- Reads the limits of a table or memory. -/
def limits : Read MemoryLimits := do
  let flags ← Reader.varU32
  let initial ← Reader.varU32
  if flags.toNat % 2 = 1 then
    let maximum ← Reader.varU32
    return ⟨initial.toNat, some maximum.toNat⟩
  else return ⟨initial.toNat, none⟩

/-- Reads the type of a global. -/
def globalType : Read (ValType × Bool) := do
  let type ← valType
  let flag ← Reader.varU7
  return (type, flag ≠ 0)

/-- Adds up the declared locals of a function, up to the largest 32-bit number. -/
def localGroups (total : Nat) : Nat → Read Nat
  | 0 => return total
  | count + 1 => do
    let group ← Reader.varU32
    let _ ← valType
    localGroups (min (total + group.toNat) 0xFFFFFFFF) count

/-- Reads a function body: the number of its locals and its instructions. -/
def funcBody : Read (Nat × List UInt8) := do
  let groupCount ← Reader.varU32
  let numLocals ← localGroups 0 groupCount.toNat
  let instructions ← Reader.remaining
  return (numLocals, instructions)

/-- Reads the header: the magic number and version 1. -/
def header : Read Unit := do
  let magic ← Reader.u32
  if magic ≠ 0x6D736100 then throw .badMagic
  let version ← Reader.u32
  if version ≠ 1 then throw (.badVersion version)

end Binary

namespace Decode

/-- The kinds of imports and exports. -/
inductive ExternalKind where
  | function
  | table
  | memory
  | global

/-- The kind that a byte names. -/
def ExternalKind.ofByte? (byte : UInt8) : Except Error ExternalKind :=
  if byte = 0 then .ok .function
  else if byte = 1 then .ok .table
  else if byte = 2 then .ok .memory
  else if byte = 3 then .ok .global
  else .error (.invalidExternalKind byte)

/-- Takes over the result of a check. -/
def check {α : Type} : Except Error α → Decode α
  | .ok value => return value
  | .error error => throw error

/-- An entry of the type section. -/
def typeEntry : Decode Unit := do
  draft (Draft.pushType (← read Binary.funcType))

/-- An entry of the import section. -/
def importEntry (textLimit : Nat) : Decode Unit := do
  let module ← read (Reader.text textLimit)
  let field ← read (Reader.text textLimit)
  let name : ImportName := ⟨module, field⟩
  match ← check (ExternalKind.ofByte? (← read Reader.byte)) with
  | .function =>
    let index ← read Reader.varU32
    let handle ← draft (Draft.typeAt index.toNat)
    let _ ← draft (Draft.pushFunction (.ofImport handle name))
  | .table =>
    let _ ← read Reader.byte
    let _ ← read Binary.limits
  | .memory =>
    let limits ← read Binary.limits
    draft (Draft.edit fun module => { module with memory := some limits, memoryImport := some name })
  | .global =>
    let (type, isMutable) ← read Binary.globalType
    let _ ← draft (Draft.pushGlobal { type, isMutable, imported := some name })

/-- An entry of the function section. -/
def functionEntry : Decode Unit := do
  let index ← read Reader.varU32
  let handle ← draft (Draft.typeAt index.toNat)
  let function ← draft (Draft.pushFunction (.declared handle))
  modify fun state => { state with pending := state.pending ++ [function] }

/-- The memory section. Only the first memory counts. -/
def memorySection : Decode Unit := do
  let count ← read Reader.varU32
  if count ≠ 0 then
    let limits ← read Binary.limits
    draft (Draft.edit fun module => { module with memory := some limits })
    times (do let _ ← read Binary.limits) (count.toNat - 1)

/-- An entry of the global section. -/
def globalEntry : Decode Unit := do
  let (type, isMutable) ← read Binary.globalType
  let initial ← read ConstExpr.take
  let _ ← draft (Draft.pushGlobal { type, isMutable, initial := some initial })

/-- An entry of the export section. The first name of a function is its display name. -/
def exportEntry (textLimit : Nat) : Decode Unit := do
  let name ← read (Reader.text textLimit)
  let kind ← read Reader.byte
  let index ← read Reader.varU32
  match ← check (ExternalKind.ofByte? kind) with
  | .function => draft (Draft.updateFunction index.toNat (·.nameIfAnonymous name))
  | _ => pure ()

/-- The start section. -/
def startSection : Decode Unit := do
  let index ← read Reader.varU32
  draft (Draft.updateFunction index.toNat id)
  draft (Draft.edit fun module => { module with start := some index.toNat })

/-- The element section, which is kept as it is. -/
def elementSection : Decode Unit := do
  let count ← read Reader.varU32
  let bytes ← read Reader.remaining
  draft (Draft.edit fun module => { module with elementCount := count.toNat, elementBytes := bytes })

/-- The bodies of the given functions. -/
def bodies : List Nat → Decode Unit
  | [] => pure ()
  | function :: functions => do
    let payload ← read Frame.payloadRead
    match Binary.funcBody (Reader.ofBytes payload) with
    | .error error _ => throw error
    | .ok (numLocals, body) _ =>
      draft (Draft.updateFunction function fun func => { func with numLocals, body := some body })
      bodies functions

/-- The code section: one body for each function that waits for one. -/
def codeSection : Decode Unit := do
  let count ← read Reader.varU32
  let pending := (← get).pending
  if count.toNat ≠ pending.length then throw .functionCountMismatch
  modify fun state => { state with pending := [] }
  bodies pending

/-- An entry of the data section. -/
def dataEntry : Decode Unit := do
  let memoryIndex ← read Reader.varU32
  let offset ← read ConstExpr.take
  let bytes ← read Frame.payloadRead
  draft (Draft.edit fun module =>
    { module with data := module.data.push { memoryIndex := memoryIndex.toNat, offset, bytes } })

/-- An entry of the function names: unknown functions are passed over. -/
def functionNameEntry (textLimit : Nat) : Decode Unit := do
  let index ← read Reader.varU32
  let name ← read (Reader.text textLimit)
  draft (Draft.edit fun module => module.updateFunction index.toNat (·.nameIfAnonymous name))

/-- Works through frames up to the fault that ended them. -/
def frames (step : Frame → Decode Unit) (fault : Option Error) : List Frame → Decode Unit
  | [] =>
    match fault with
    | none => pure ()
    | some error => throw error
  | frame :: rest => do
    step frame
    frames step fault rest

/-- A part of the name section; only the function names count. -/
def namePart (textLimit : Nat) (part : Frame) : Decode Unit := do
  if part.id = 1 then
    modify fun state => { state with input := .ofBytes part.payload }
    vector (functionNameEntry textLimit)

/-- A custom section. Its bytes are used up whatever it holds. -/
def customSection (textLimit : Nat) : Decode Unit := do
  let name ← read (Reader.text textLimit)
  let bytes ← read Reader.remaining
  if name = "name" then
    let (parts, fault) := Frame.split bytes
    frames (namePart textLimit) fault parts
    modify fun state => { state with input := .ofBytes [] }

/-- The section with a given number. -/
def sectionBody (config : Config) (id : UInt8) : Decode Unit :=
  if id = 0 then customSection config.textLimit
  else if id = 1 then vector typeEntry
  else if id = 2 then vector (importEntry config.textLimit)
  else if id = 3 then vector functionEntry
  else if id = 4 then do
    let _ ← read Reader.remaining
  else if id = 5 then memorySection
  else if id = 6 then vector globalEntry
  else if id = 7 then vector (exportEntry config.textLimit)
  else if id = 8 then startSection
  else if id = 9 then elementSection
  else if id = 10 then codeSection
  else if id = 11 then vector dataEntry
  else if id = 12 then do
    let _ ← read Reader.varU32
  else throw (.unknownSection id)

/-- One section, whose bytes have to be used up. -/
def framedSection (config : Config) (frame : Frame) : Decode Unit := do
  modify fun state => { state with input := .ofBytes frame.payload }
  sectionBody config frame.id
  if !(← get).input.isEmpty then throw .sectionOverrun

end Decode

/-- Decodes a module. The registry is the one after interning the types that were met. -/
def Module.decode (config : Config) (registry : TypeRegistry) (bytes : List UInt8) :
    Except Error Module × TypeRegistry :=
  match Binary.header (Reader.ofBytes bytes) with
  | .error error _ => (.error error, registry)
  | .ok () next =>
    let (sections, fault) := Frame.split next.rest
    match Decode.frames (Decode.framedSection config) fault sections { draft := { registry } } with
    | .ok () state => (.ok state.draft.module, state.draft.registry)
    | .error error state => (.error error, state.draft.registry)

end WasmEngine

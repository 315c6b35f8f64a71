import WasmEngine.Machine.Compile

/-!
# Linking and looking up functions

Linking gives imported functions the code that calls a host function. Looking a function up goes by its display name,
in the module loaded last first, and compiles the function if need be.
-/

namespace WasmEngine

/-- A host function to be linked, with the cookie that it gets on every call. -/
structure HostLink where
  function : HostFunction
  cookie : Option UInt64 := none

namespace HostLink

/-- The code that calls the host function. -/
def lines (link : HostLink) : List Line :=
  match link.cookie with
  | none => [.op Line.callNative, .native link.function]
  | some cookie => [.op Line.callNativeWithCookie, .native link.function, .imm cookie]

end HostLink

namespace CodeStore

/-- Appends lines to a page. -/
def emitAll (store : CodeStore) (page : Nat) : List Line → Except Error Unit × CodeStore
  | [] => (.ok (), store)
  | line :: lines =>
    match store.emit page line with
    | .error error => (.error error, store)
    | .ok (_, store) => store.emitAll page lines

end CodeStore

namespace CodeArea

/-- Puts the call of a host function onto a page with enough room and gives its address. -/
def install (link : HostLink) : EStateM Error CodeArea CodeRef := do
  let page ← acquire link.lines.length
  let area ← get
  let entry := area.code.pc page
  let (result, code) := area.code.emitAll page link.lines
  set (CodeArea.release { area with code } page)
  match result with
  | .ok () => return entry
  | .error error => throw error

end CodeArea

namespace Machine

/-- The name that stands for any import module. -/
def anyModule : String :=
  "*"

/-- Whether an import goes by a field of a module. -/
def importMatches (module field : String) (func : Func) : Bool :=
  match func.imported with
  | none => false
  | some name => name.field = field && (module = anyModule || name.module = module)

/-- Links a function if it is a matching import whose declared type is the one that a signature denotes. Gives whether
it was linked. -/
def linkFunction (index : Nat) (module field signature : String) (link : HostLink) (function : Nat) :
    MachineM Bool := do
  match (← get).machine.modules[index]?.bind (·.functions[function]?) with
  | none => return false
  | some func =>
    if importMatches module field func then
      let handle ← MachineM.onEnvironment (Environment.parseSignature signature)
      if handle.type ≠ func.type.type then throw .signatureMismatch
      let entry ← MachineM.onCode (CodeArea.install link)
      MachineM.edit (·.storeCode index [(function, entry)])
      return true
    else return false

/-- Links the matching ones of some functions: all of them, or only the first one. Gives whether there was one. -/
def linkFunctions (index : Nat) (module field signature : String) (link : HostLink) (firstOnly : Bool) :
    List Nat → MachineM Bool
  | [] => return false
  | function :: functions => do
    let linked ← linkFunction index module field signature link function
    if linked && firstOnly then return true
    let others ← linkFunctions index module field signature link firstOnly functions
    return linked || others

/-- Links a host function to the imports of a loaded module that go by a field of a module: without a cookie to all of
them, with a cookie to the first one. -/
def link (index : Nat) (module field signature : String) (link : HostLink) : MachineM Unit :=
  MachineM.recording (fun machine => (machine.moduleName index, some field, module ++ "." ++ field)) do
    match (← get).machine.modules[index]? with
    | none => throw .functionLookupFailed
    | some target =>
      let functions := List.range target.functions.size
      let linked ← linkFunctions index module field signature link link.cookie.isSome functions
      if !linked then throw .functionLookupFailed

/-- The function with a display name in the module loaded last that has one, among the first `count` modules. -/
def lookup? (modules : Array Module) (name : String) : (count : Nat) → Option (Nat × Nat)
  | 0 => none
  | count + 1 =>
    match modules[count]?.bind (·.findFunction name) with
    | some function => some (count, function)
    | none => lookup? modules name count

/-- Looks up a function by its display name and makes sure that it has code. -/
def find (name : String) : MachineM (Nat × Nat) :=
  MachineM.recording
    (fun machine => (machine.moduleName (machine.modules.size - 1), some name, "'" ++ name ++ "'")) do
    let modules := (← get).machine.modules
    if modules.isEmpty then throw .noModulesLoaded
    match lookup? modules name modules.size with
    | none => throw .functionLookupFailed
    | some (module, function) =>
      let _ ← ensureCompiled module function
      return (module, function)

end Machine

end WasmEngine

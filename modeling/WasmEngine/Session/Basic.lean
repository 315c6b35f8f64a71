import WasmEngine.Machine.Link
import WasmEngine.Machine.Load
import WasmEngine.Module.Decode
import WasmEngine.Session.Table

/-!
# Sessions

A session is a host at work: one environment, machines by name, and slots for modules that are not in a machine. What
a host may do is an `Action`; `Session.perform` does it and gives the outcome.
-/

namespace WasmEngine

/-- A host at work. -/
structure Session where
  env : Environment
  /-- Whether the host itself still uses the environment. -/
  holdsEnvironment : Bool := true
  machines : Table Machine := {}
  slots : Table Module := {}
  /-- The types that were handed out, newest first. -/
  issued : List TypeHandle := []

/-- A failed load. -/
structure LoadFailure where
  error : Error
  /-- Where the module is linked, if its start function failed. -/
  linked : Option Nat
  /-- Whether the module was handed back. -/
  returned : Bool

/-- What a host may do. Machines and module slots go by name, loaded modules and functions by index. -/
inductive Action where
  /-- Reads a signature. -/
  | signature (text : String)
  /-- Interns a type. -/
  | intern (type : FuncType)
  /-- Lets the host do other work. -/
  | yieldNow
  /-- Stops using the environment. -/
  | releaseEnvironment
  /-- Builds a module into a slot. -/
  | build (slot : String) (items : List BuildItem)
  /-- Decodes a module into a slot. -/
  | decode (slot : String) (bytes : List UInt8)
  /-- Copies a module to another slot. -/
  | copy (slot target : String)
  /-- Names a module. -/
  | setName (slot name : String)
  /-- Makes a machine with a stack of so many bytes; it replaces one of the same name. -/
  | create (machine : String) (stackBytes : Nat)
  /-- Disposes of a machine. -/
  | dispose (machine : String)
  /-- Loads a module, which leaves its slot. -/
  | load (machine slot : String)
  /-- Copies a loaded module to a slot. -/
  | copyLoaded (machine : String) (module : Nat) (slot : String)
  /-- Links a host function. -/
  | link (machine : String) (module : Nat) (importModule field signature : String) (link : HostLink)
  /-- Looks up a function. -/
  | find (machine name : String)
  /-- Calls a function. -/
  | call (machine : String) (module function : Nat) (arguments : List String)
  /-- Calls a function as a command. -/
  | callMain (machine : String) (module function : Nat) (arguments : List String)
  /-- Grows the linear memory. -/
  | grow (machine : String) (pages : Nat)
  /-- Overwrites bytes of the linear memory. -/
  | poke (machine : String) (offset : Nat) (data : List UInt8)
  /-- Forgets the failure recorded last. -/
  | resetError (machine : String)

/-- The outcomes of actions. Those on a machine that does not exist have none. -/
abbrev Action.Outcome : Action → Type
  | .signature _ => Except Error (Nat × FuncType)
  | .intern _ => Nat × FuncType
  | .yieldNow => Except Error Unit
  | .releaseEnvironment => Unit
  | .build _ _ => List (Except Error (Option Nat))
  | .decode _ _ => Except Error Unit
  | .copy _ _ => Unit
  | .setName _ _ => Unit
  | .create _ _ => Except Error (MachineId × Nat)
  | .dispose _ => Bool
  | .load _ _ => Option (Except LoadFailure Nat)
  | .copyLoaded _ _ _ => Option Bool
  | .link _ _ _ _ _ _ => Option (Except Error Unit)
  | .find _ _ => Option (Except Error (Nat × Nat))
  | .call _ _ _ _ => Option (Except Error (Option Value))
  | .callMain _ _ _ _ => Option (Except Error (Option Value))
  | .grow _ _ => Option (Except Error Unit)
  | .poke _ _ _ => Option Nat
  | .resetError _ => Option ErrorRecord

namespace Session

/-- Tears the environment down once nobody uses it. -/
def settle (session : Session) : Session :=
  if !session.holdsEnvironment && session.machines.isEmpty then { session with env := session.env.teardown }
  else session

/-- The number of a type among those that were handed out; a new one gets the next number. -/
def issue (session : Session) (handle : TypeHandle) : (Nat × FuncType) × Session :=
  match session.issued.reverse.findIdx? (·.index = handle.index) with
  | some number => ((number, handle.type), session)
  | none => ((session.issued.length, handle.type), { session with issued := handle :: session.issued })

/-- Lets a machine work. -/
def onMachine {α : Type} (session : Session) (name : String) (step : MachineM α) :
    Option (Except Error α) × Session :=
  match session.machines.get? name with
  | none => (none, session)
  | some machine =>
    let update (state : MachineState) : Session :=
      { session with env := state.env, machines := session.machines.put name state.machine }
    match step ⟨session.env, machine⟩ with
    | .ok value state => (some (.ok value), update state)
    | .error error state => (some (.error error), update state)

/-- Builds a module into a slot. -/
def build (session : Session) (slot : String) (items : List BuildItem) :
    List (Except Error (Option Nat)) × Session :=
  let (results, draft) := Draft.addAll session.env.config.argumentLimit items ⟨session.env.registry, {}⟩
  (results,
    { session with
      env := { session.env with registry := draft.registry }
      slots := session.slots.put slot draft.module })

/-- Decodes a module into a slot. -/
def decode (session : Session) (slot : String) (bytes : List UInt8) : Except Error Unit × Session :=
  let (result, registry) := Module.decode session.env.config session.env.registry bytes
  let session := { session with env := { session.env with registry } }
  match result with
  | .error error => (.error error, session)
  | .ok module => (.ok (), { session with slots := session.slots.put slot module })

/-- Makes a machine. One of the same name is disposed of once the new one exists. -/
def create (session : Session) (name : String) (stackBytes : Nat) : Except Error (MachineId × Nat) × Session :=
  match Machine.ofStackBytes stackBytes session.env with
  | .error error env => (.error error, { session with env })
  | .ok machine env =>
    let env :=
      match session.machines.get? name with
      | none => env
      | some old => old.dispose env
    (.ok (machine.id, machine.stack.size), { session with env, machines := session.machines.put name machine })

/-- Disposes of a machine. -/
def dispose (session : Session) (name : String) : Bool × Session :=
  match session.machines.get? name with
  | none => (false, session)
  | some machine =>
    (true, settle { session with env := machine.dispose session.env, machines := session.machines.erase name })

/-- Loads a module into a machine. -/
def load (session : Session) (name slot : String) : Option (Except LoadFailure Nat) × Session :=
  match session.machines.get? name, session.slots.get? slot with
  | some machine, some module =>
    let (outcome, state) := Machine.load module ⟨session.env, machine⟩
    let session :=
      { session with
        env := state.env
        machines := session.machines.put name state.machine
        slots := session.slots.erase slot }
    match outcome with
    | .linked index => (some (.ok index), session)
    | .refused error module =>
      (some (.error ⟨error, none, true⟩), { session with slots := session.slots.put slot module })
    | .startFailed error index => (some (.error ⟨error, some index, false⟩), session)
  | _, _ => (none, session)

/-- Copies a loaded module to a slot. -/
def copyLoaded (session : Session) (name : String) (index : Nat) (slot : String) : Option Bool × Session :=
  match session.machines.get? name with
  | none => (none, session)
  | some machine =>
    match machine.modules[index]? with
    | none => (some false, session)
    | some module => (some true, { session with slots := session.slots.put slot module })

/-- Overwrites bytes of a linear memory that has some. Gives the number of bytes. -/
def poke (session : Session) (name : String) (offset : Nat) (data : List UInt8) : Option Nat × Session :=
  match session.machines.get? name with
  | none => (none, session)
  | some machine =>
    match machine.memory? 0 with
    | none => (none, session)
    | some memory =>
      match memory.write offset data with
      | .error _ => (none, session)
      | .ok memory =>
        (some data.length, { session with machines := session.machines.put name { machine with memory } })

/-- Does what the host asks for. -/
def perform (session : Session) : (action : Action) → action.Outcome × Session
  | .signature text =>
    match Environment.parseSignature text session.env with
    | .error error env => (.error error, { session with env })
    | .ok handle env =>
      let (issued, session) := issue { session with env } handle
      (.ok issued, session)
  | .intern type =>
    let (handle, env) := session.env.intern type
    issue { session with env } handle
  | .yieldNow =>
    match Environment.yieldNow session.env with
    | .ok () env => (.ok (), { session with env })
    | .error error env => (.error error, { session with env })
  | .releaseEnvironment => ((), settle { session with holdsEnvironment := false })
  | .build slot items => session.build slot items
  | .decode slot bytes => session.decode slot bytes
  | .copy slot target =>
    match session.slots.get? slot with
    | none => ((), session)
    | some module => ((), { session with slots := session.slots.put target module })
  | .setName slot name =>
    match session.slots.get? slot with
    | none => ((), session)
    | some module => ((), { session with slots := session.slots.put slot { module with name := some name } })
  | .create machine stackBytes => session.create machine stackBytes
  | .dispose machine => session.dispose machine
  | .load machine slot => session.load machine slot
  | .copyLoaded machine module slot => session.copyLoaded machine module slot
  | .link machine module importModule field signature link =>
    session.onMachine machine (Machine.link module importModule field signature link)
  | .find machine name => session.onMachine machine (Machine.find name)
  | .call machine module function arguments => session.onMachine machine (Machine.call module function arguments)
  | .callMain machine module function arguments =>
    session.onMachine machine (Machine.callMain module function arguments)
  | .grow machine pages => session.onMachine machine (Machine.grow pages)
  | .poke machine offset data => session.poke machine offset data
  | .resetError machine =>
    match session.machines.get? machine with
    | none => (none, session)
    | some found =>
      (some found.error, { session with machines := session.machines.put machine { found with error := {} } })

/-- The notes that were left since they were taken last, oldest first. -/
def takeNotes (session : Session) : List String × Session :=
  (session.env.notes.reverse, { session with env := { session.env with notes := [] } })

end Session

end WasmEngine

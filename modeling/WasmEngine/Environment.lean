import WasmEngine.Code.Pool
import WasmEngine.Code.Store
import WasmEngine.Host.Executor

/-!
# Environments

An environment is what all machines made in it share: the interned types, the pool of released code pages, the heap,
and the host with its compiler, its executor and its hook for other work.
-/

namespace WasmEngine

/-- What the host plugs in. -/
structure Host where
  compiler : Compiler := .unsupported
  executor : Executor := .nativeOnly
  /-- What happens when the host is given the chance to do other work for the `n`-th time, counted from 0. -/
  onYield : Nat → Except Error Unit := fun _ => .ok ()

/-- The state that machines share. -/
structure Environment where
  config : Config := {}
  host : Host := {}
  registry : TypeRegistry := {}
  pool : PagePool := {}
  heap : Heap := .system 0
  /-- The most bytes that the system can back a linear memory or a table with, if there is a bound. -/
  memoryBacking : Option Nat := none
  /-- How many machines were made. -/
  machinesMade : Nat := 0
  /-- How many code pages were asked of the heap, served or not. -/
  pagesAsked : Nat := 0
  /-- The numbers of the code pages that the heap served and did not get back, newest first. -/
  pagesServed : List UInt32 := []
  /-- How often the host was given the chance to do other work. -/
  yields : Nat := 0
  /-- The notes that the host left, newest first. -/
  notes : List String := []

namespace Environment

/-- Gives the host a chance to do other work. -/
def yieldNow : EStateM Error Environment Unit := fun env =>
  let result := env.host.onYield env.yields
  let env := { env with yields := env.yields + 1 }
  match result with
  | .ok () => .ok () env
  | .error error => .error error env

/-- Whether the system can back so many bytes. -/
def backs (env : Environment) (bytes : Nat) : Bool :=
  match env.memoryBacking with
  | none => true
  | some most => bytes ≤ most

/-- Leaves a note. -/
def note (env : Environment) (text : String) : Environment :=
  { env with notes := text :: env.notes }

/-- Reads a signature and interns its type. -/
def parseSignature (text : String) : EStateM Error Environment TypeHandle := fun env =>
  match env.registry.parse env.config.argumentLimit text with
  | .error error => .error error env
  | .ok (handle, registry) => .ok handle { env with registry }

/-- Interns a type. -/
def intern (env : Environment) (type : FuncType) : TypeHandle × Environment :=
  let (handle, registry) := env.registry.intern type
  (handle, { env with registry })

/-- A page with at least `minLines` free lines: from the pool if it has one, and else a new one. Every new page has a
number of its own, also if the heap does not serve it. -/
def obtainPage (minLines : Nat) : EStateM Error Environment CodePage := fun env =>
  match env.pool.take minLines with
  | some (page, pool) => .ok page { env with pool }
  | none =>
    let sequence := UInt32.ofNat env.pagesAsked
    let (served, heap) := CodePage.allocate env.config minLines sequence env.heap
    let env := { env with heap, pagesAsked := env.pagesAsked + 1 }
    match served with
    | some page => .ok page { env with pagesServed := page.sequence :: env.pagesServed }
    | none => .error .outOfCodePages env

/-- Takes the pages of a machine into the pool. -/
def recycle (env : Environment) (pages : List CodePage) : Environment :=
  { env with pool := env.pool.add pages }

/-- Gives a block back to the heap. -/
def free (env : Environment) (block : Block) : Environment :=
  { env with heap := env.heap.free block }

/-- Gives back everything the environment itself holds, when nobody uses it any more. -/
def teardown (env : Environment) : Environment :=
  let env := env.pool.pages.foldl (fun env page => env.free page.grant) env
  { env with pool := {}, pagesServed := [] }

end Environment

/-- The code pages of a machine together with the environment that they come from. -/
structure CodeArea where
  env : Environment
  code : CodeStore

namespace CodeArea

/-- Takes hold of a page with at least `minLines` free lines: the first one on the open chain, else one that the
environment has. -/
def acquire (minLines : Nat) : EStateM Error CodeArea Nat := fun area =>
  match area.code.takeOpen minLines with
  | some (id, code) => .ok id { area with code := code.hold id }
  | none =>
    match Environment.obtainPage minLines area.env with
    | .error error env => .error error { area with env }
    | .ok page env =>
      let (id, code) := area.code.insert page
      .ok id { env, code := code.hold id }

/-- Lets go of a page. -/
def release (area : CodeArea) (id : Nat) : CodeArea :=
  { area with code := area.code.release area.env.config.freeLineThreshold id }

end CodeArea

end WasmEngine

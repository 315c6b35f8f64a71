import WasmEngine.Script.Compiler
import WasmEngine.Script.Executor
import WasmEngine.Session.Basic
import WasmEngine.Threaded.Compiler
import WasmEngine.Threaded.Executor

/-!
# Starting sessions

A session starts with a configuration, a heap and a host, on a system that may bound what it backs a linear memory
with. The host is made of one of the compilers, one of the executors, and a limit on how often it can do other work.
-/

namespace WasmEngine

/-- The compilers and executors there are. -/
inductive Backend where
  | threaded
  | scripted
  /-- The host supplies none. -/
  | absent
  deriving DecidableEq

namespace Backend

/-- A bound on the operations along a chain of calls that no run reaches. -/
def ampleFuel : Nat :=
  0x1000000000000000

/-- The compiler of a backend. -/
def compiler : Backend → Compiler
  | .threaded => Threaded.compiler
  | .scripted => Script.compiler
  | .absent => .unsupported

/-- The executor of a backend. -/
def executor : Backend → Executor
  | .threaded => Threaded.executor ampleFuel
  | .scripted => Script.executor
  | .absent => .nativeOnly

end Backend

/-- A host that can do other work so many times, and then fails. -/
def Host.ofBackends (compiler executor : Backend) (yieldLimit : Option Nat) : Host where
  compiler := compiler.compiler
  executor := executor.executor
  onYield count :=
    match yieldLimit with
    | none => .ok ()
    | some limit => if limit ≤ count then .error (.trap (.host ("yield " ++ toString count))) else .ok ()

/-- A session with nothing in it, on a system that can back a linear memory or a table with so many bytes. -/
def Session.startWithin (backing : Option Nat) (config : Config) (host : Host) (heap : Heap) : Session where
  env := { config, host, heap, memoryBacking := backing }

/-- A session with nothing in it, on a system that can back any number of bytes. -/
def Session.start (config : Config) (host : Host) (heap : Heap) : Session where
  env := { config, host, heap }

end WasmEngine

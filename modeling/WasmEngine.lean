import WasmEngine.Proofs.Allocation.Acquisition
import WasmEngine.Proofs.Binary.Texts
import WasmEngine.Proofs.Heap.Sessions
import WasmEngine.Proofs.Leb128.Registers
import WasmEngine.Proofs.Machine.Binding
import WasmEngine.Proofs.Machine.RefusedCommands
import WasmEngine.Proofs.Memory.Bounds
import WasmEngine.Proofs.Module.Proportion
import WasmEngine.Proofs.Ownership.Sessions
import WasmEngine.Proofs.Session.Building
import WasmEngine.Proofs.Session.Elements
import WasmEngine.Proofs.Session.Fibonacci
import WasmEngine.Proofs.Session.Initializers
import WasmEngine.Proofs.Session.Lookup
import WasmEngine.Proofs.Session.Records
import WasmEngine.Proofs.Session.Scratch
import WasmEngine.Proofs.Session.Tables
import WasmEngine.Proofs.Text.Integers
import WasmEngine.Proofs.Threaded.Correctness
import WasmEngine.Proofs.Threaded.Isolation
import WasmEngine.Proofs.Types.Signatures

import WasmEngine.Host.Compiler
import WasmEngine.Threaded.Instruction

/-!
# The threaded compiler

Compiles function bodies in one pass onto the page it was given. The target of a branch is not known when the branch
is emitted: a hole is left for it and filled when the `else` or the `end` is met.
-/

namespace WasmEngine.Threaded

/-- A branch whose target is still open. -/
inductive Hole where
  /-- Left by an `if`. -/
  | ifThen (address : CodeRef)
  /-- Left by an `else`. -/
  | orElse (address : CodeRef)

/-- Where the target goes. -/
def Hole.address : Hole → CodeRef
  | .ifThen address => address
  | .orElse address => address

/-- Emits an operation without operands. -/
def emitOp (op : Op) : Compile Unit := do
  let _ ← Compile.emit op.line

/-- Emits an operation with one operand and gives the operand's address. -/
def emitWith (op : Op) (operand : UInt64) : Compile CodeRef := do
  let _ ← Compile.emit op.line
  Compile.emit (.imm operand)

/-- Lets a branch go to the line that is emitted next. -/
def fillHole (address : CodeRef) : Compile Unit := do
  let view ← Compile.look
  Compile.patch address (.imm (UInt64.ofNat view.pc.line))

/-- Emits an instruction that no block begins or ends with. -/
def emitPlain : Instruction → Compile Unit
  | .const word => do let _ ← emitWith .push word
  | .globalGet index => do let _ ← emitWith .globalGet index.toUInt64
  | .localGet index => do let _ ← emitWith .localGet index.toUInt64
  | .arithmetic arithmetic => emitOp (.arithmetic arithmetic)
  | .unreachable => emitOp .unreachable
  | .ret => emitOp .ret
  | .call function => do let _ ← emitWith .call function.toUInt64
  | .callIndirect type => do let _ ← emitWith .callIndirect type.toUInt64
  | .drop => emitOp .drop
  | .ifThen | .orElse | .finish => pure ()

/-- Emits instructions up to the `end` that closes the body, inside blocks whose branches are open. `ending` says why
the instructions do not go on; they have to be closed before that. -/
def emitBody (ending : Except Error Reader) : List Hole → List Instruction → Compile Unit
  | _, [] =>
    match ending with
    | .error error => throw error
    | .ok _ => throw .underrun
  | holes, .ifThen :: rest => do
    let address ← emitWith .branchUnless 0
    emitBody ending (.ifThen address :: holes) rest
  | .ifThen address :: holes, .orElse :: rest => do
    let skip ← emitWith .branch 0
    fillHole address
    emitBody ending (.orElse skip :: holes) rest
  | _, .orElse :: _ => throw (.unknownOpcode 0x05)
  | hole :: holes, .finish :: rest => do
    fillHole hole.address
    emitBody ending holes rest
  | [], .finish :: _ => emitOp .ret
  | holes, instruction :: rest => do
    emitPlain instruction
    emitBody ending holes rest

/-- Emits the code of a function: it opens a frame and goes on with the body. -/
def compileFunction (module : Module) (index : Nat) : Compile Unit := do
  match module.functions[index]? with
  | none => throw .functionIndexOutOfRange
  | some func =>
    match func.body with
    | none => throw .missingCode
    | some body =>
      let _ ← emitWith .enter (UInt64.ofNat func.type.type.params.length)
      let _ ← Compile.emit (.imm (UInt64.ofNat func.numLocals))
      let (instructions, ending) := Instruction.ofBody body
      emitBody ending [] instructions

/-- Emits the code of a constant expression. -/
def compileConstExpr (expr : List UInt8) : Compile Nat := do
  let (instructions, ending) := Instruction.ofConstExpr expr
  instructions.forM emitPlain
  let reader ← Compile.check ending
  emitOp .ret
  return reader.position

/-- The threaded compiler. -/
def compiler : Compiler where
  function := compileFunction
  constExpr _ expr _ := compileConstExpr expr

end WasmEngine.Threaded

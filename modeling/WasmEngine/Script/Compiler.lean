import WasmEngine.Host.Compiler
import WasmEngine.Host.Library
import WasmEngine.Script.Command

/-!
# The scripted compiler

Does what the commands of a function body say and leaves a note for each of them, so that every move of a compiler can
be played and watched.
-/

namespace WasmEngine.Script

/-- Emits a line and notes it. -/
def emitNoted (line : Line) : Compile Unit := do
  let address ← Compile.emit line
  Compile.note ("emit " ++ address.label ++ " " ++ line.label)

/-- Emits so many immediate operands, counting from `next`. -/
def emitCounting (next : Nat) : Nat → Compile Unit
  | 0 => pure ()
  | count + 1 => do
    let _ ← Compile.emit (.imm (UInt64.ofNat next))
    emitCounting (next + 1) count

/-- Goes on whether or not a replacement succeeds, and notes which. -/
def patchNoted (address : CodeRef) (line : Line) : Compile Unit := do
  let outcome ← ExceptT.lift (Compile.patch address line).run
  match outcome with
  | .ok () => Compile.note "patch ok"
  | .error error => Compile.note ("patch " ++ error.kind)

/-- Obeys a command. -/
def obey : Command → Compile Unit
  | .fail => throw (.trap (.host "compile"))
  | .emitOp code => emitNoted (.op code)
  | .emitImm value => emitNoted (.imm value)
  | .switchPage minLines => do
    let address ← Compile.switchPage minLines.toNat
    Compile.note ("switch " ++ address.label)
  | .patch page line value => patchNoted ⟨page.toUInt32.toNat, line.toUInt32.toNat⟩ (.imm value)
  | .look => do
    let view ← Compile.look
    Compile.note
      ("at " ++ view.pc.label ++ " entry " ++ view.entry.label ++ " free " ++ toString view.freeLines)
  | .fill => do
    let view ← Compile.look
    emitCounting 0 view.freeLines
    Compile.note ("filled " ++ toString view.freeLines)
  | .emitNative number =>
    match HostLibrary.byNumber? number.toNat with
    | some function => emitNoted (.native function)
    | none => throw .functionLookupFailed

/-- Obeys the commands at the front of some bytes and gives how many bytes they take up. -/
def obeyAll (bytes : List UInt8) : Compile Nat := do
  let (commands, ending) := Command.ofBytes bytes
  commands.forM obey
  let reader ← Compile.check ending
  return reader.position

/-- Plays the body of a function. -/
def compileFunction (module : Module) (index : Nat) : Compile Unit := do
  let view ← Compile.look
  Compile.note ("compile " ++ toString index ++ " at " ++ view.entry.label)
  match module.functions[index]?.bind (·.body) with
  | none => throw .missingCode
  | some body =>
    let _ ← obeyAll body

/-- Plays a constant expression. -/
def compileConstExpr (expr : List UInt8) (type : ValType) : Compile Nat := do
  let view ← Compile.look
  Compile.note ("const " ++ type.name ++ " at " ++ view.entry.label)
  obeyAll expr

/-- The scripted compiler. -/
def compiler : Compiler where
  function := compileFunction
  constExpr _ expr type := compileConstExpr expr type

end WasmEngine.Script

import WasmEngine.Module.Basic

/-!
# Compilers

A compiler turns function bodies and constant expressions into code lines, in a dialogue with the engine: it may append
and replace lines, move on to another page, look where it is, and leave notes.
-/

namespace WasmEngine

/-- What a compiler may ask for. -/
inductive CompileOp where
  /-- Appends a line to the current page. -/
  | emit (line : Line)
  /-- Replaces a line that was emitted. -/
  | patch (address : CodeRef) (line : Line)
  /-- Goes on with a page that has at least so many free lines. -/
  | switchPage (minLines : Nat)
  /-- Looks where the code goes. -/
  | look
  /-- Leaves a note. -/
  | note (text : String)

/-- Where the emitted code starts and goes on, and how many lines the current page has left. -/
structure CompileView where
  entry : CodeRef
  pc : CodeRef
  freeLines : Nat

/-- The answers to a compiler. -/
abbrev CompileOp.Reply : CompileOp → Type
  | .emit _ => Except Error CodeRef
  | .patch _ _ => Except Error Unit
  | .switchPage _ => Except Error CodeRef
  | .look => CompileView
  | .note _ => Unit

/-- A compiling program that may fail. -/
abbrev Compile := ExceptT Error (Dialogue CompileOp CompileOp.Reply)

namespace Compile

/-- Appends a line and gives its address. -/
def emit (line : Line) : Compile CodeRef :=
  ExceptT.mk (.perform (CompileOp.emit line))

/-- Replaces a line. -/
def patch (address : CodeRef) (line : Line) : Compile Unit :=
  ExceptT.mk (.perform (CompileOp.patch address line))

/-- Goes on with another page and gives the address where code continues. -/
def switchPage (minLines : Nat) : Compile CodeRef :=
  ExceptT.mk (.perform (CompileOp.switchPage minLines))

/-- Looks where the code goes. -/
def look : Compile CompileView :=
  ExceptT.lift (.perform CompileOp.look)

/-- Leaves a note. -/
def note (text : String) : Compile Unit :=
  ExceptT.lift (.perform (CompileOp.note text))

/-- Takes over the result of a check. -/
def check {α : Type} (result : Except Error α) : Compile α :=
  ExceptT.mk (.done result)

end Compile

/-- A compiler. -/
structure Compiler where
  /-- Emits the code of a function of a module. -/
  function : Module → Nat → Compile Unit
  /-- Emits code that leaves the value of the constant expression at the front of some bytes in slot 0, and gives the
  number of bytes of the expression. -/
  constExpr : Module → List UInt8 → ValType → Compile Nat

/-- The compiler of a host that supplies none: nothing can be compiled. -/
def Compiler.unsupported : Compiler where
  function _ _ := throw .missingCode
  constExpr _ _ _ := throw .missingCode

end WasmEngine

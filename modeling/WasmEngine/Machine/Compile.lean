import WasmEngine.Machine.Basic

/-!
# Compiling functions

The engine's side of the dialogue with a compiler. A function is compiled onto a page that is held until the compiler
is done or moves to another page, and then released, whatever the outcome.
-/

namespace WasmEngine

/-- Where a compiler is at work. -/
structure CompileState where
  area : CodeArea
  /-- The page that lines are appended to. -/
  page : Nat
  /-- Where the emitted code starts. -/
  entry : CodeRef

namespace CompileState

/-- Begins on a page that is held. -/
def start (area : CodeArea) (page : Nat) : CompileState :=
  ⟨area, page, area.code.pc page⟩

/-- Acquires the next page, then lets go of the current one. -/
def switchPage (state : CompileState) (minLines : Nat) : Except Error CodeRef × CompileState :=
  match CodeArea.acquire minLines state.area with
  | .error error area => (.error error, { state with area })
  | .ok page area =>
    let area := area.release state.page
    (.ok (area.code.pc page), { state with area, page })

/-- Answers a compiler. -/
def answer : (op : CompileOp) → CompileState → op.Reply × CompileState
  | .emit line, state =>
    match state.area.code.emit state.page line with
    | .error error => (.error error, state)
    | .ok (address, code) => (.ok address, { state with area := { state.area with code } })
  | .patch address line, state =>
    match state.area.code.patch address line with
    | .error error => (.error error, state)
    | .ok code => (.ok (), { state with area := { state.area with code } })
  | .switchPage minLines, state => state.switchPage minLines
  | .look, state =>
    (⟨state.entry, state.area.code.pc state.page, state.area.code.freeLines state.page⟩, state)
  | .note text, state => ((), { state with area := { state.area with env := state.area.env.note text } })

end CompileState

namespace CodeArea

/-- Lets a compiling program work from a held page on. -/
def compile {α : Type} (area : CodeArea) (page : Nat) (program : Compile α) : Except Error α × CompileState :=
  program.run.run CompileState.answer (.start area page)

/-- The entry of a function, which is compiled if it has no code yet. -/
def compileFunction (module : Module) (function : Nat) : EStateM Error CodeArea CodeRef := do
  match module.functions[function]? with
  | none => throw .functionIndexOutOfRange
  | some func =>
    match func.code with
    | some entry => return entry
    | none =>
      if func.isImport then throw .missingCode
      let page ← acquire (← get).env.config.freeLineThreshold
      let area ← get
      let (result, state) := area.compile page (area.env.host.compiler.function module function)
      set (state.area.release state.page)
      match result with
      | .ok () => return state.entry
      | .error error => throw error

end CodeArea

/-- The entry of a function of a loaded module, which is compiled if it has no code yet. -/
def Machine.ensureCompiled (module function : Nat) : MachineM CodeRef := do
  match (← get).machine.modules[module]? with
  | none => throw .functionLookupFailed
  | some found =>
    let entry ← MachineM.onCode (CodeArea.compileFunction found function)
    MachineM.edit (·.storeCode module [(function, entry)])
    return entry

end WasmEngine

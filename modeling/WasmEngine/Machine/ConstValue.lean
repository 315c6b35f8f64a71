import WasmEngine.Machine.Execute

/-!
# The values of constant expressions

A constant expression is compiled and run like any function, on a scratch machine of its own that is disposed of
afterwards. The value is what the code leaves in slot 0.
-/

namespace WasmEngine

namespace Machine

/-- Compiles and runs the constant expression at the front of some bytes. Gives its value and its length. -/
def evaluate (module : Module) (expr : List UInt8) (type : ValType) : MachineM (Slot × Nat) := fun state =>
  let area : CodeArea := ⟨state.env, state.machine.code⟩
  match CodeArea.acquire state.env.config.freeLineThreshold area with
  | .error _ area => .error .outOfCodePages ⟨area.env, { state.machine with code := area.code }⟩
  | .ok page area =>
    let (compiled, after) := area.compile page (area.env.host.compiler.constExpr module expr type)
    let exec : ExecState := { area := after.area, stack := state.machine.stack, memory := state.machine.memory }
    let (result, exec) : Except Error Nat × ExecState :=
      match compiled with
      | .error error => (.error error, exec)
      | .ok length =>
        match exec.execute module .constExpr after.entry with
        | (.error error, exec) => (.error error, exec)
        | (.ok (), exec) => (.ok length, exec)
    let area := exec.area.release after.page
    let state : MachineState :=
      ⟨area.env, { state.machine with code := area.code, stack := exec.stack, memory := exec.memory }⟩
    match result with
    | .error error => .error error state
    | .ok length =>
      match state.machine.stack[0]? with
      | none => .error .outOfMemory state
      | some slot => .ok (if type.isWide then slot else slot.toUInt32.toUInt64, length) state

end Machine

/-- The value of the constant expression at the front of some bytes, and its length. -/
def Environment.constValue (module : Module) (expr : List UInt8) (type : ValType) :
    EStateM Error Environment (Slot × Nat) := do
  let scratch ← Machine.create (← get).config.constSlots
  match Machine.evaluate module expr type ⟨← get, scratch⟩ with
  | .ok value state =>
    set (state.machine.dispose state.env)
    return value
  | .error error state =>
    set (state.machine.dispose state.env)
    throw error

end WasmEngine

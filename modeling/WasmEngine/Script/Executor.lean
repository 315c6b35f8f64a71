import WasmEngine.Host.Executor

/-!
# The scripted executor

Runs code whose operations are the moves an executor can make, and notes each of them. A run has a bounded number of
steps, and runs can be nested to a bounded depth.
-/

namespace WasmEngine.Script

/-- How many steps one run may take. -/
def stepLimit : Nat :=
  200

/-- How deep runs may be nested. -/
def depthLimit : Nat :=
  20

/-- An operand of 32 bits; higher ones are dropped. -/
def operand32 (address : CodeRef) : Exec Nat :=
  return (← Exec.immediate address).toUInt32.toNat

/-- Has a function compiled and notes where its code is, or why it has none. -/
def ensureNoted (function : Nat) : Exec Unit := do
  match ← Exec.attempt (Exec.ensureCompiled function) with
  | .ok entry => Exec.note entry.label
  | .error error => Exec.note error.kind

/-- Grows the linear memory and notes the outcome. -/
def growNoted (pages : Nat) : Exec Unit := do
  let outcome ← Exec.attempt (Exec.growMemory pages)
  let now := toString (← Exec.memory).numPages
  match outcome with
  | .ok () => Exec.note ("grow ok " ++ now)
  | .error error => Exec.note ("grow " ++ error.kind ++ " " ++ now)

/-- Notes what the call is for and whose code runs. -/
def noteCall (module : Module) (purpose : CallPurpose) : Exec Unit :=
  Exec.note ("flags " ++ toString purpose.bits ++ " module " ++ module.name.getD "-")

/-- Runs operations until one returns. `nested` says whether this run was started by another one, and `callee` starts
a run from this one. -/
def runSteps (module : Module) (purpose : CallPurpose) (nested : Bool) (callee : CodeRef → Nat → Exec Unit) :
    (steps : Nat) → (pc : CodeRef) → (sp : Nat) → Exec Unit
  | 0, _, _ => throw (.trap (.host "steps"))
  | steps + 1, pc, sp => do
    let line ← Exec.fetch pc
    match line with
    | .op code =>
      Exec.note ("run " ++ pc.label ++ " " ++ line.label)
      match code with
      | 0 => pure ()
      | 1 =>
        let index ← Exec.immediate (pc.offset 1)
        let value ← Exec.immediate (pc.offset 2)
        Exec.setSlot index.toNat value
        runSteps module purpose nested callee steps (pc.offset 3) sp
      | 2 =>
        ensureNoted (← operand32 (pc.offset 1))
        runSteps module purpose nested callee steps (pc.offset 2) sp
      | 3 =>
        Exec.yieldNow
        runSteps module purpose nested callee steps (pc.offset 1) sp
      | 4 =>
        let page ← operand32 (pc.offset 1)
        let line ← operand32 (pc.offset 2)
        runSteps module purpose nested callee steps ⟨page, line⟩ sp
      | 5 =>
        growNoted (← operand32 (pc.offset 1))
        runSteps module purpose nested callee steps (pc.offset 2) sp
      | 6 =>
        noteCall module purpose
        runSteps module purpose nested callee steps (pc.offset 1) sp
      | 7 =>
        let sp ← Exec.immediate (pc.offset 1)
        runSteps module purpose nested callee steps (pc.offset 2) sp.toNat
      | 8 =>
        let entry ← Exec.ensureCompiled (← operand32 (pc.offset 1))
        callee entry sp
        runSteps module purpose nested callee steps (pc.offset 2) sp
      | code =>
        Exec.callNativeAt pc sp
        if nested then pure ()
        else
          let length := if code = Line.callNativeWithCookie then 3 else 2
          runSteps module purpose nested callee steps (pc.offset length) sp
    | _ => throw .invalidCodeRef

/-- Starts a run at an entry. `levels` says how many runs may be nested in each other, this one included. -/
def runAt (module : Module) (purpose : CallPurpose) : (levels : Nat) → (nested : Bool) → CodeRef → Nat → Exec Unit
  | 0, _, _, _ => throw (.trap .stackOverflow)
  | levels + 1, nested, entry, sp =>
    runSteps module purpose nested (runAt module purpose levels true) stepLimit entry sp

/-- The scripted executor. -/
def executor : Executor where
  run module purpose entry := runAt module purpose (depthLimit + 1) false entry 0

end WasmEngine.Script

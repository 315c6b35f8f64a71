import WasmEngine.Types.ValType

/-!
# Function types and signatures

A function type has at most one result. Its signature is a compact text such as `I(iI)`: the result's character, or `v`
for none, and the parameters' characters in parentheses. Reading a signature ignores spaces and takes `*` for `i32`.
-/

namespace WasmEngine

/-- An optional result and the parameters. -/
structure FuncType where
  result : Option ValType
  params : List ValType
  deriving DecidableEq

namespace FuncType

/-- The type's signature. -/
def signature (type : FuncType) : String :=
  String.ofList (type.result.elim 'v' ValType.signatureChar :: '(' :: type.params.map ValType.signatureChar ++ [')'])

/-- The longest argument list that a signature may have room for, unless configured otherwise. -/
def defaultArgumentLimit : Nat :=
  1000

end FuncType

namespace Signature

/-- What a signature character names: `none` is no value. -/
def typeOfChar (c : Char) : Except Error (Option ValType) :=
  if c = 'v' then .ok none
  else if c = 'i' || c = '*' then .ok (some .i32)
  else if c = 'I' then .ok (some .i64)
  else if c = 'f' then .ok (some .f32)
  else if c = 'F' then .ok (some .f64)
  else .error (.unknownTypeChar c)

/-- What has been read of a signature so far. -/
structure Progress where
  /-- The result, once its character was met. -/
  result : Option (Option ValType) := none
  /-- Whether the argument list has been opened. -/
  inArguments : Bool := false
  /-- The parameters in reverse order. -/
  params : List ValType := []

/-- Takes in a character that has to name a type. A signature has room for `room` parameters. -/
def Progress.addType (room : Nat) (progress : Progress) (c : Char) : Except Error Progress := do
  let type ← typeOfChar c
  if progress.inArguments then
    if progress.params.length ≥ room then throw .malformedSignature
    match type with
    | none => throw .malformedSignature
    | some type => return { progress with params := type :: progress.params }
  else if progress.result.isSome then throw .tooManyReturnTypes
  else return { progress with result := some type }

/-- Reads characters until the closing parenthesis, or an opening one before any result. -/
def scan (room : Nat) (progress : Progress) : List Char → Except Error Progress
  | [] => .ok progress
  | c :: rest =>
    if c = '(' then
      if progress.result.isNone then .ok progress
      else scan room { progress with inArguments := true } rest
    else if c = ' ' then scan room progress rest
    else if c = ')' then .ok progress
    else
      match progress.addType room c with
      | .ok progress => scan room progress rest
      | .error error => .error error

end Signature

/-- Reads a signature that has room for at most `limit` arguments. A text of `n` bytes has room for `n - 3`. -/
def FuncType.ofSignature? (limit : Nat) (text : String) : Except Error FuncType :=
  let size := text.utf8ByteSize
  if size < 3 then .error .malformedSignature
  else if size - 3 > limit then .error .insaneArgumentCount
  else
    match Signature.scan (size - 3) {} text.toList with
    | .error error => .error error
    | .ok progress =>
      match progress.result with
      | none => .error .missingReturnType
      | some result => .ok ⟨result, progress.params.reverse⟩

end WasmEngine

import WasmEngine.Types.FuncType

/-!
# Interned function types

A registry keeps every function type once, in order of first appearance. Interning gives a handle; two handles of one
registry are the same exactly when their types are.
-/

namespace WasmEngine

/-- A handle to an interned type: its place in the registry and the type found there. -/
structure TypeHandle where
  index : Nat
  type : FuncType
  deriving DecidableEq

/-- The types interned so far. -/
structure TypeRegistry where
  types : Array FuncType := #[]

namespace TypeRegistry

/-- How many types have been interned. -/
def size (registry : TypeRegistry) : Nat :=
  registry.types.size

/-- The handle of a type, which is added if it is new. -/
def intern (registry : TypeRegistry) (type : FuncType) : TypeHandle × TypeRegistry :=
  match registry.types.findIdx? (· = type) with
  | some index => (⟨index, type⟩, registry)
  | none => (⟨registry.size, type⟩, { registry with types := registry.types.push type })

/-- Reads a signature with at most `limit` arguments and interns its type. -/
def parse (registry : TypeRegistry) (limit : Nat) (text : String) : Except Error (TypeHandle × TypeRegistry) :=
  match FuncType.ofSignature? limit text with
  | .error error => .error error
  | .ok type => .ok (registry.intern type)

end TypeRegistry

end WasmEngine

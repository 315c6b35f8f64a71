import WasmEngine.Proofs.Binary.Forms

/-!
# What a binary module says

A description lists the things that a binary module is made of; indices are bounded by the lists they point into. It
has many encodings (`Description.encodings`) and means one module (`Description.module`), up to the handles of its
types.
-/

namespace WasmEngine

namespace Description

/-- What an import brings in. There are `types` function types to choose from. -/
inductive Import.Item (types : Nat) where
  | function (type : Fin types)
  | table (elementType : UInt8) (limits : MemoryLimits)
  | memory (limits : MemoryLimits)
  | global (type : ValType) (isMutable : Bool)

structure Import (types : Nat) where
  name : ImportName
  item : Import.Item types

/-- A defined function: its type, its locals and its instructions. -/
structure Function (types : Nat) where
  type : Fin types
  groups : List Form.LocalGroup
  code : List UInt8

/-- A defined global, which starts with the value of a constant expression. -/
structure Global where
  type : ValType
  isMutable : Bool
  initial : List UInt8
  initial_mem : initial ∈ Form.constExpr

/-- What an export gives away. There are `functions` functions to choose from. -/
inductive Export.Item (functions : Nat) where
  | function (index : Fin functions)
  | table (index : Nat)
  | memory (index : Nat)
  | global (index : Nat)

structure Export (functions : Nat) where
  name : String
  item : Export.Item functions

/-- Bytes that go to the place that a constant expression gives. -/
structure Segment extends DataSegment where
  offset_mem : offset ∈ Form.constExpr

namespace Import

variable {types : Nat}

def function? (entry : Import types) : Option (Fin types) :=
  match entry.item with
  | .function type => some type
  | _ => none

def memory? (entry : Import types) : Option MemoryLimits :=
  match entry.item with
  | .memory limits => some limits
  | _ => none

/-- The imported function, whose type has a handle. -/
def func? (handles : Fin types → TypeHandle) (entry : Import types) : Option Func :=
  entry.function?.map fun type => .ofImport (handles type) entry.name

/-- The imported global. -/
def global? (entry : Import types) : Option WasmEngine.Global :=
  match entry.item with
  | .global type isMutable => some { type, isMutable, imported := some entry.name }
  | _ => none

def form (entry : Import types) : Language UInt8 :=
  Form.text entry.name.module * Form.text entry.name.field *
    match entry.item with
    | .function type => {[0]} * Form.u32 type
    | .table elementType limits => {[1]} * {[elementType]} * Form.limits limits
    | .memory limits => {[2]} * Form.limits limits
    | .global type isMutable => {[3]} * Form.globalType type isMutable

end Import

namespace Function

variable {types : Nat}

/-- The number of locals, up to the largest 32-bit number. -/
def numLocals (function : Function types) : Nat :=
  min (function.groups.map Form.LocalGroup.count).sum 0xFFFFFFFF

def bodyForm (function : Function types) : Language UInt8 :=
  Form.sized (Form.funcBody function.groups function.code)

end Function

namespace Global

/-- The global before it has a value. -/
def defined (global : Global) : WasmEngine.Global :=
  { type := global.type, isMutable := global.isMutable, initial := some global.initial }

def form (global : Global) : Language UInt8 :=
  Form.globalType global.type global.isMutable * {global.initial}

end Global

namespace Export

variable {functions : Nat}

/-- The name that the export gives to a function. -/
def nameOf? (index : Nat) (entry : Export functions) : Option String :=
  match entry.item with
  | .function function => if function.val = index then some entry.name else none
  | _ => none

def form (entry : Export functions) : Language UInt8 :=
  Form.text entry.name *
    match entry.item with
    | .function index => {[0]} * Form.u32 index
    | .table index => {[1]} * Form.u32 index
    | .memory index => {[2]} * Form.u32 index
    | .global index => {[3]} * Form.u32 index

/-- A function is known by the first name that it is exported by. -/
def label (exports : List (Export functions)) (index : Nat) : FuncName :=
  (exports.findSome? (nameOf? index)).elim .anonymous .given

end Export

def Segment.form (segment : Segment) : Language UInt8 :=
  Form.u32 segment.memoryIndex * {segment.offset} * Form.block segment.bytes

end Description

/-- What a binary module says. -/
structure Description where
  types : List FuncType
  imports : List (Description.Import types.length)
  functions : List (Description.Function types.length)
  memory : Option MemoryLimits
  globals : List Description.Global
  exports : List (Description.Export ((imports.filterMap Description.Import.function?).length + functions.length))
  start : Option (Fin ((imports.filterMap Description.Import.function?).length + functions.length))
  /-- How many element segments there are. -/
  elementCount : Nat
  elementBytes : List UInt8
  segments : List Description.Segment
  /-- There is at most one memory, be it imported or not. -/
  memory_unique : (imports.filterMap Description.Import.memory? ++ memory.toList).length ≤ 1

namespace Description

/-- The texts that stand in the module. -/
def names (description : Description) : List String :=
  description.imports.flatMap (fun entry => [entry.name.module, entry.name.field]) ++
    description.exports.map Export.name

/-- The binary modules that say what the description says. Tables and the number of data segments may be declared and
say nothing. -/
def encodings (description : Description) : Language UInt8 :=
  {Form.header} *
    Form.vectorSection 1 (description.types.map Form.funcType) *
    Form.vectorSection 2 (description.imports.map Import.form) *
    Form.vectorSection 3 (description.functions.map fun function => Form.u32 function.type) *
    Form.optional True (Form.framed 4 ⊤) *
    Form.vectorSection 5 (description.memory.toList.map Form.limits) *
    Form.vectorSection 6 (description.globals.map Global.form) *
    Form.vectorSection 7 (description.exports.map Export.form) *
    description.start.elim 1 (fun start => Form.framed 8 (Form.u32 start)) *
    Form.optional (description.elementCount = 0 ∧ description.elementBytes = [])
      (Form.framed 9 (Form.u32 description.elementCount * {description.elementBytes})) *
    Form.vectorSection 10 (description.functions.map Function.bodyForm) *
    Form.vectorSection 11 (description.segments.map Segment.form) *
    Form.optional True (Form.framed 12 Form.index)

/-- The functions: imported ones first, each group in its order. -/
def funcs (description : Description) (handles : Fin description.types.length → TypeHandle) : List Func :=
  description.imports.filterMap (Import.func? handles) ++
    description.functions.mapIdx fun index function =>
      { type := handles function.type
        label := Export.label description.exports
          ((description.imports.filterMap Import.function?).length + index)
        numLocals := function.numLocals
        body := some function.code }

/-- The module that the description means, with handles of its types. -/
def module (description : Description) (handles : Fin description.types.length → TypeHandle) : Module where
  types := Array.ofFn handles
  functions := (description.funcs handles).toArray
  globals := (description.imports.filterMap Import.global? ++ description.globals.map Global.defined).toArray
  data := (description.segments.map Segment.toDataSegment).toArray
  elementCount := description.elementCount
  elementBytes := description.elementBytes
  memory := (description.imports.filterMap Import.memory? ++ description.memory.toList).head?
  memoryImport := (description.imports.filter fun entry => entry.memory?.isSome).head?.map Import.name
  start := description.start.map Fin.val

end Description

end WasmEngine

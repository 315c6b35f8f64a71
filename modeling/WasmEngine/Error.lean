import WasmEngine.Leb128.Decode
import WasmEngine.Text.Numeral
import WasmEngine.Text.Quoted
import WasmEngine.Text.Utf8

/-!
# Errors

Everything that can go wrong, as causes: `Trap` for faults of running code, `Error` for the engine. `Error.kind`
names the cause and `Error.message` is the sentence shown to people.
-/

namespace WasmEngine

/-- A fault raised by running code, compiled or supplied by the host. -/
inductive Trap where
  /-- An `unreachable` instruction ran. -/
  | unreachable
  /-- A load or store touched bytes past the committed linear memory. -/
  | memoryOutOfBounds
  /-- A frame did not fit the slot stack. -/
  | stackOverflow
  /-- An integer result is not representable. -/
  | integerOverflow
  /-- An integer was divided by zero. -/
  | integerDivisionByZero
  /-- An indirect call past the end of the table. -/
  | tableOutOfBounds
  /-- An indirect call through an empty table slot. -/
  | indirectCallToNull
  /-- An indirect call whose callee has another type. -/
  | badSignature
  /-- Raised by the host with a message of its own. -/
  | host (message : String)
  deriving DecidableEq

/-- The sentence shown for a trap. -/
def Trap.message : Trap → String
  | .unreachable => "[trap] unreachable executed"
  | .memoryOutOfBounds => "[trap] out of bounds memory access"
  | .stackOverflow => "[trap] stack overflow"
  | .integerOverflow => "[trap] integer overflow"
  | .integerDivisionByZero => "[trap] integer divide by zero"
  | .tableOutOfBounds => "[trap] undefined element"
  | .indirectCallToNull => "[trap] uninitialized element"
  | .badSignature => "[trap] indirect call type mismatch"
  | .host message => "[trap] " ++ message

/-- A cause of failure. -/
inductive Error where
  /-- The bytes ended too early. -/
  | underrun
  /-- A variable length integer is too long or too large. -/
  | lebOverflow
  /-- A text is longer than the configured ceiling. -/
  | oversizedText
  /-- A text is not UTF-8. -/
  | invalidUtf8 (fault : Text.Utf8.Fault)
  /-- A signature is too short, lists too many arguments or uses void as an argument. -/
  | malformedSignature
  /-- A signature names no return type. -/
  | missingReturnType
  /-- A signature names more than one return type. -/
  | tooManyReturnTypes
  /-- A signature is longer than the configured ceiling. -/
  | insaneArgumentCount
  /-- A signature uses a character that names no type. -/
  | unknownTypeChar (c : Char)
  /-- A type index past the module's type list. -/
  | invalidTypeId
  /-- A buffer could not be allocated. -/
  | outOfMemory
  /-- A code page could not be allocated. -/
  | outOfCodePages
  /-- The current code page has no free line. -/
  | codePageFull
  /-- Linear memory would pass its maximum. -/
  | memoryOverflow
  /-- Linear memory was never sized. -/
  | memoryUnallocated
  /-- The module already belongs to a machine. -/
  | moduleAlreadyLinked
  /-- A data segment does not fit linear memory. -/
  | dataSegmentOverflow
  /-- An element segment names a table other than table 0. -/
  | elementTableIndex
  /-- An element segment is empty or passes the end of the table space. -/
  | tableOverflow
  /-- A function index past the module's functions. -/
  | functionIndexOutOfRange
  /-- No function fits the request. -/
  | functionLookupFailed
  /-- The declared and the offered function type differ. -/
  | signatureMismatch
  /-- The machine holds no module. -/
  | noModulesLoaded
  /-- A call has too few or too many arguments. -/
  | argumentCountMismatch
  /-- A command argument is too long. -/
  | insaneArgumentLength
  /-- Reserved for hosts: an argument type is not known. -/
  | unknownArgumentType
  /-- Reserved for hosts: a return type is not known. -/
  | unknownReturnType
  /-- An argument text does not read as its declared type. -/
  | invalidArgument (text : String)
  /-- A function has no code. -/
  | missingCode
  /-- A code reference names no emitted line, or a line of the wrong sort. -/
  | invalidCodeRef
  /-- An operation code with no meaning. -/
  | unknownOpcode (code : UInt16)
  /-- Running code trapped. -/
  | trap (fault : Trap)
  /-- The bytes are not a module. -/
  | badMagic
  /-- The module has a version that is not supported. -/
  | badVersion (version : UInt32)
  /-- A section number with no meaning. -/
  | unknownSection (id : UInt8)
  /-- A section has bytes left over. -/
  | sectionOverrun
  /-- A byte that names no value type. -/
  | invalidValueType (byte : UInt8)
  /-- A byte that names no kind of import or export. -/
  | invalidExternalKind (kind : UInt8)
  /-- An opcode that is not allowed in a constant expression. -/
  | invalidConstExpr (opcode : UInt8)
  /-- A function type with more than one result. -/
  | tooManyResults
  /-- The code section has another number of bodies than functions are waiting for one. -/
  | functionCountMismatch
  /-- An executor used up the steps it was given. -/
  | stepLimit
  deriving DecidableEq

namespace Error

/-- The failure of a variable length integer, as a failure of the engine. -/
def ofLeb128 : Leb128.Fault → Error
  | .unexpectedEnd => .underrun
  | .overflow => .lebOverflow
  | .noSpace => .outOfMemory

/-- The name of the cause. -/
def kind : Error → String
  | .underrun => "WasmUnderrun"
  | .lebOverflow => "LebOverflow"
  | .oversizedText => "MissingUtf8"
  | .invalidUtf8 _ => "InvalidUtf8"
  | .malformedSignature => "MalformedFunctionSignature"
  | .missingReturnType => "MissingReturnType"
  | .tooManyReturnTypes => "TooManyReturnTypes"
  | .insaneArgumentCount => "InsaneArgumentCount"
  | .unknownTypeChar _ => "UnknownArgumentTypeChar"
  | .invalidTypeId => "InvalidTypeId"
  | .outOfMemory => "MallocFailed"
  | .outOfCodePages => "MallocFailedCodePage"
  | .codePageFull => "CodePageOverflow"
  | .memoryOverflow => "WasmMemoryOverflow"
  | .memoryUnallocated => "UnallocatedMemory"
  | .moduleAlreadyLinked => "ModuleAlreadyLinked"
  | .dataSegmentOverflow => "DataSegmentOverflow"
  | .elementTableIndex => "ElementTableIndex"
  | .tableOverflow => "TableOverflow"
  | .functionIndexOutOfRange => "FunctionIndexOutOfRange"
  | .functionLookupFailed => "FunctionLookupFailed"
  | .signatureMismatch => "SignatureMismatch"
  | .noModulesLoaded => "NoModulesLoaded"
  | .argumentCountMismatch => "ArgumentCountMismatch"
  | .insaneArgumentLength => "InsaneArgumentLength"
  | .unknownArgumentType => "UnknownArgumentType"
  | .unknownReturnType => "UnknownReturnType"
  | .invalidArgument _ => "InvalidArgument"
  | .missingCode => "MissingCompiledCode"
  | .invalidCodeRef => "InvalidCodeRef"
  | .unknownOpcode _ => "UnknownOpcode"
  | .trap _ => "Trap"
  | .badMagic => "BadMagic"
  | .badVersion _ => "BadVersion"
  | .unknownSection _ => "UnknownSection"
  | .sectionOverrun => "SectionOverrun"
  | .invalidValueType _ => "InvalidValueType"
  | .invalidExternalKind _ => "InvalidExternalKind"
  | .invalidConstExpr _ => "InvalidConstExpr"
  | .tooManyResults => "TooManyResults"
  | .functionCountMismatch => "FunctionCountMismatch"
  | .stepLimit => "StepLimit"

/-- The sentence shown for the cause. -/
def message : Error → String
  | .underrun => "unexpected end of wasm bytes"
  | .lebOverflow => "LEB encoded value overflow"
  | .oversizedText => "missing or oversized UTF-8 string"
  | .invalidUtf8 _ => "invalid UTF-8 string"
  | .malformedSignature => "malformed function signature"
  | .missingReturnType => "function signature is missing a return type"
  | .tooManyReturnTypes => "malformed function signature; too many return types"
  | .insaneArgumentCount => "insane argument count"
  | .unknownTypeChar c => "unknown argument type char " ++ Text.quotedChar c
  | .invalidTypeId => "invalid type id"
  | .outOfMemory => "memory allocation failed"
  | .outOfCodePages => "memory allocation failed when acquiring a new code page"
  | .codePageFull => "code page has no free lines left"
  | .memoryOverflow => "runtime ran out of memory"
  | .memoryUnallocated => "unallocated linear memory"
  | .moduleAlreadyLinked => "attempting to use module that is already linked to a runtime"
  | .dataSegmentOverflow => "data segment overflowing linear memory"
  | .elementTableIndex => "element table index must be zero for MVP"
  | .tableOverflow => "table overflow"
  | .functionIndexOutOfRange => "function index out of range"
  | .functionLookupFailed => "function lookup failed"
  | .signatureMismatch => "function signature mismatch"
  | .noModulesLoaded => "no modules loaded"
  | .argumentCountMismatch => "argument count mismatch"
  | .insaneArgumentLength => "insane argument string length"
  | .unknownArgumentType => "unknown argument type"
  | .unknownReturnType => "unknown return type"
  | .invalidArgument text => "argument " ++ Text.quoted text ++ " does not parse as its declared type"
  | .missingCode => "function hasn't been compiled"
  | .invalidCodeRef => "code reference outside of any allocated code page"
  | .unknownOpcode code => "unknown opcode 0x" ++ Text.hexUpper 4 code.toNat
  | .trap fault => fault.message
  | .badMagic => "invalid magic number"
  | .badVersion version => "incompatible version " ++ toString version.toNat
  | .unknownSection id => "unknown section " ++ toString id.toNat
  | .sectionOverrun => "section size mismatch"
  | .invalidValueType byte => "invalid value type 0x" ++ Text.hexUpper 1 byte.toNat
  | .invalidExternalKind byte => "invalid external kind 0x" ++ Text.hexUpper 1 byte.toNat
  | .invalidConstExpr opcode => "invalid constant expression opcode 0x" ++ Text.hexUpper 2 opcode.toNat
  | .tooManyResults => "multiple return values are not supported"
  | .functionCountMismatch => "function and code section counts differ"
  | .stepLimit => "executor ran out of steps"

end Error

end WasmEngine

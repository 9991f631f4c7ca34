import WasmToC.Binary.Varint
import WasmToC.Text.Utf8
import WasmToC.Wasm.Module

/-!
# Errors

Everything that can be wrong with a module, as causes. The six families say what kind of fault it
is; `Error.message` holds all the wording.

## Main definitions

* `Error` — an error, by family, with its cause.
* `Error.message` — its wording.
* `Failure` — an error, or a run that stops without one.
-/

namespace WasmToC

/-- What is wrong with the header. -/
inductive HeaderFault where
  /-- The input ends inside it. -/
  | truncated
  /-- It does not start with the magic number. -/
  | wrongMagic
  /-- The version is not supported. -/
  | wrongVersion
  /-- A fault described by the caller. -/
  | stated (text : String)
  deriving DecidableEq, Repr

/-- What is wrong with an encoding. -/
inductive EncodingFault where
  /-- A varint is malformed. -/
  | varint (why : Varint.Malformed)
  /-- A section id has its high bit set. -/
  | sectionId (b : UInt8)
  /-- A name is not UTF-8. -/
  | name (f : Utf8.Fault)
  /-- A fault described by the caller. -/
  | stated (text : String)
  deriving DecidableEq, Repr

/-- What is wrong with the extent of a section. -/
inductive SectionFault where
  /-- The payload ends before its contents do. -/
  | truncated
  /-- Bytes of the payload are left over. -/
  | unread (left length : Nat)
  /-- Bytes of a function body are left over. -/
  | bodyUnread (function left : Nat)
  /-- A fault described by the caller. -/
  | stated (text : String)
  deriving DecidableEq, Repr

/-- What a module uses that is not supported. -/
inductive Unsupported where
  /-- An unknown type tag. -/
  | typeTag (tag : Nat)
  /-- A function type with several results. -/
  | results (n : Nat)
  /-- Another form where a value type belongs. -/
  | notValueType (form : TypeForm)
  /-- Another form where the type of a construct belongs. -/
  | notBlockType (form : TypeForm)
  /-- A table whose elements are not function references. -/
  | tableOf (form : TypeForm)
  /-- Another form in the type section. -/
  | notFuncType (form : TypeForm)
  /-- An unknown opcode. -/
  | unknownOpcode
  /-- An unknown kind of import. -/
  | importKind (kind : Nat)
  /-- An unknown kind of export. -/
  | exportKind (kind : Nat)
  /-- More than one memory. -/
  | manyMemories
  /-- A branch table with targets besides the default. -/
  | branchTable (targets : Nat)
  /-- A construct described by the caller. -/
  | stated (text : String)
  deriving DecidableEq, Repr

/-- What is wrong with one instruction of a function body. -/
inductive BodyFault where
  /-- Too few operands. -/
  | operands (needed : Nat)
  /-- An operand of the wrong type. -/
  | operandType (expected found : ValueType)
  /-- The immediate is not an index. -/
  | noIndex
  /-- The immediate is not a branch depth. -/
  | noDepth
  /-- The immediate is not the type of a construct. -/
  | noBlockType
  /-- The immediate is not a branch table. -/
  | noTable
  /-- The immediate is not that of an indirect call. -/
  | noCallIndirect
  /-- The immediate is not a constant. -/
  | noConstant
  /-- The immediate is not that of a memory access. -/
  | noMemory
  /-- A local that does not exist. -/
  | noLocal (i : Nat)
  /-- A global that does not exist. -/
  | noGlobal (i : Nat)
  /-- An assignment to an immutable global. -/
  | immutable (i : Nat)
  /-- An `else` that belongs to no `if`. -/
  | strayElse
  /-- An `end` that closes nothing. -/
  | strayEnd
  /-- A construct that leaves the wrong number of values. -/
  | leftover (found expected : Nat)
  /-- An `if` without `else` that should produce a value. -/
  | missingElse
  /-- A construct whose end no value reaches. -/
  | noResult (t : ValueType)
  /-- A branch to a construct that does not exist. -/
  | branchDepth (d : Nat)
  /-- A call to a function that does not exist. -/
  | noFunction (i : Nat)
  /-- An indirect call with a type that does not exist. -/
  | noType (i : Nat)
  /-- Constructs still open at the end of the body. -/
  | stillOpen (n : Nat)
  /-- A body that leaves the wrong number of values. -/
  | bodyLeftover (found expected : Nat)
  deriving DecidableEq, Repr

/-- Which rule a module breaks. -/
inductive Invalid where
  /-- Functions are declared that have no body. -/
  | missingBodies (n : Nat)
  /-- An import's type does not exist. -/
  | importType (moduleName field : String) (t : Nat)
  /-- A declared function's type does not exist. -/
  | signatureType (t : Nat)
  /-- A memory's maximum is below its initial size. -/
  | memoryLimits (maximum initial : Nat)
  /-- An initializer is not one instruction. -/
  | initializerLength (n : Nat)
  /-- An initializer reads a global that is not yet defined. -/
  | initializerGlobal (i : Instruction)
  /-- An initializer is not a constant. -/
  | initializerKind (i : Instruction)
  /-- An export names something that does not exist. -/
  | exportTarget (field : String) (kind : ExternKind) (index : Nat)
  /-- An element segment names a function that does not exist. -/
  | segmentFunction (index : Nat)
  /-- The numbers of bodies and of declared functions differ. -/
  | bodyCount (bodies signatures : Nat)
  /-- A body has too many locals. -/
  | tooManyLocals (limit : Nat)
  /-- An imported function's type does not exist. -/
  | importWithoutType (field : String)
  /-- A function's type does not exist. -/
  | functionWithoutType (index : Nat)
  /-- An initializer reads a global without saying which. -/
  | globalWithoutIndex
  /-- An initializer is not a constant that C can spell. -/
  | notConstant (i : Instruction)
  /-- An instruction of a function body is at fault. -/
  | body (function : Nat) (fault : BodyFault) (op : Opcode)
  /-- A fault described by the caller. -/
  | stated (text : String)
  deriving DecidableEq

/-- An error, by family. -/
inductive Error where
  /-- The header is not that of a supported module. -/
  | badHeader (why : HeaderFault)
  /-- Bytes do not follow the encoding. -/
  | malformed (why : EncodingFault)
  /-- A section's contents do not fill its payload. -/
  | corruptSection (id : Nat) (why : SectionFault)
  /-- A construct is not supported; the function and the opcode are given where they are known. -/
  | unsupported (function : Option Nat) (opcode : Option UInt8) (what : Unsupported)
  /-- The module breaks a rule. -/
  | invalid (why : Invalid)
  /-- A read fails. -/
  | io (f : IoFault)
  deriving DecidableEq

/-! ## Wording -/

/-- The wording of a header fault. -/
def HeaderFault.text : HeaderFault → String
  | truncated => "input ends inside the header"
  | wrongMagic => "wrong magic number"
  | wrongVersion => "unsupported module version"
  | stated text => text

/-- The wording of an encoding fault. -/
def EncodingFault.text : EncodingFault → String
  | varint why => why.text
  | sectionId b => "section id " ++ Text.hexByte b
  | name f => "name is not UTF-8: " ++ f.message
  | stated text => text

/-- The wording of a section fault. -/
def SectionFault.text : SectionFault → String
  | truncated => "payload ends before its contents do"
  | unread left length => s!"{left} of {length} bytes left unread"
  | bodyUnread function left => s!"body of function {function} has {left} unread bytes"
  | stated text => text

/-- The wording of an unsupported construct. -/
def Unsupported.text : Unsupported → String
  | typeTag tag => "type tag 0x" ++ Text.hexFixed 2 tag
  | results n => s!"function type with {n} results"
  | notValueType form => form.describe ++ " where a value type belongs"
  | notBlockType form => form.describe ++ " as a block type"
  | tableOf form => "table of " ++ form.describe
  | notFuncType form => form.describe ++ " in the type section"
  | unknownOpcode => "unknown opcode"
  | importKind kind => s!"import kind {kind}"
  | exportKind kind => s!"export kind {kind}"
  | manyMemories => "more than one memory"
  | branchTable targets => s!"br_table with {targets} targets"
  | stated text => text

/-- The wording of a fault in a function body. -/
def BodyFault.text : BodyFault → String
  | operands needed => s!"needs {needed} operands"
  | operandType expected found =>
    "expected " ++ expected.name ++ " operand, found " ++ found.name
  | noIndex => "missing index immediate"
  | noDepth => "missing depth immediate"
  | noBlockType => "missing block type"
  | noTable => "missing branch table"
  | noCallIndirect => "missing call_indirect immediate"
  | noConstant => "missing constant"
  | noMemory => "missing memory immediate"
  | noLocal i => s!"no local {i}"
  | noGlobal i => s!"no global {i}"
  | immutable i => s!"global {i} is immutable"
  | strayElse => "else outside of an if"
  | strayEnd => "end without an open construct"
  | leftover found expected => s!"construct leaves {found} values instead of {expected}"
  | missingElse => "if without else cannot produce a value"
  | noResult t => "no " ++ t.name ++ " result reaches the end"
  | branchDepth d => s!"branch depth {d} is out of range"
  | noFunction i => s!"call to missing function {i}"
  | noType i => s!"call_indirect to missing type {i}"
  | stillOpen n => s!"{n} constructs left open"
  | bodyLeftover found expected => s!"body leaves {found} values instead of {expected}"

/-- The wording of a broken rule. -/
def Invalid.text : Invalid → String
  | missingBodies n => s!"{n} function signatures without bodies"
  | importType moduleName field t => s!"import {moduleName}.{field} uses missing type {t}"
  | signatureType t => s!"function signature uses missing type {t}"
  | memoryLimits maximum initial =>
    s!"memory maximum {maximum} is below its initial size {initial}"
  | initializerLength n => s!"initializer has {n} instructions instead of one"
  | initializerGlobal i =>
    "initializer `" ++ i.text ++ "` reads a global that is not yet defined"
  | initializerKind i => "initializer `" ++ i.text ++ "` is not constant"
  | exportTarget field kind index =>
    "export " ++ field ++ " names missing " ++ kind.label ++ " " ++ toString index
  | segmentFunction index => s!"element segment names missing function {index}"
  | bodyCount bodies signatures => s!"{bodies} function bodies for {signatures} signatures"
  | tooManyLocals limit => s!"more than {limit} locals"
  | importWithoutType field => "import " ++ field ++ " has no type"
  | functionWithoutType index => s!"function {index} has no type"
  | globalWithoutIndex => "get_global without an index"
  | notConstant i => "`" ++ i.text ++ "` is not a constant"
  | body function fault op => s!"function {function}: " ++ fault.text ++ " at " ++ op.name
  | stated text => text

namespace Error

/-- The wording of an error. -/
def message : Error → String
  | badHeader why => "bad module header: " ++ why.text
  | malformed why => "malformed encoding: " ++ why.text
  | corruptSection id why => s!"corrupt section {id}: " ++ why.text
  | unsupported function opcode what =>
    let place := match opcode with
      | some b => " (opcode " ++ Text.hexByte b ++ ")"
      | none => ""
    let holder := match function with
      | some n => s!" in function {n}"
      | none => ""
    "unsupported construct: " ++ what.text ++ place ++ holder
  | invalid why => "invalid module: " ++ why.text
  | io f => "i/o error: " ++ f.text

/-- Says in which function an unsupported construct stands, unless that is already known. -/
def inFunction (index : Nat) : Error → Error
  | unsupported none opcode what => unsupported (some index) opcode what
  | e => e

/-- Whether the error says that the input ended. -/
def isEnd : Error → Bool
  | io f => f.atEnd
  | _ => false

/-- The failed read behind an error. -/
def cause? : Error → Option IoFault
  | io f => some f
  | _ => none

/-- A varint that cannot be read, as an error of the module. -/
def ofVarint : Varint.Error → Error
  | .unexpectedEnd => io ⟨true, Varint.Error.unexpectedEnd.message⟩
  | .malformed (.stated text) => malformed (.stated text)
  | .malformed why => malformed (.varint why)
  | .io f => io f

end Error

/-- Why there is no answer. -/
inductive Failure where
  /-- The module is at fault. -/
  | error (e : Error)
  /-- The run stops without a diagnosis. -/
  | abort
  deriving DecidableEq

/-- Changes the error of a failure that has one. -/
def Failure.map (f : Error → Error) : Failure → Failure
  | error e => error (f e)
  | abort => abort

end WasmToC

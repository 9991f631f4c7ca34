import WasmToC.Wasm.Instruction

/-!
# Modules

A module as data. Functions, globals and tables are numbered imports first; the numbers of
imports are kept with the module and say where its own definitions start.

## Main definitions

* `Import`, `Global`, `Export`, `Segment`, `Function`,
  `Module`.
* `Resolved` — what an index of a combined index space stands for.
* `Module.function?`, `Module.global?` — the combined index spaces.
-/

namespace WasmToC

/-- What is imported. -/
inductive ImportDesc where
  /-- A function of the type with the given index. -/
  | function (typeIndex : Nat)
  /-- A table of function references. -/
  | table (limits : Limits)
  /-- A memory. -/
  | memory (limits : Limits)
  /-- A global. -/
  | global (type : GlobalType)
  deriving DecidableEq, Repr

namespace ImportDesc

/-- The kind of an import. -/
def kind : ImportDesc → ExternKind
  | function _ => .function
  | table _ => .table
  | memory _ => .memory
  | global _ => .global

/-- The form log records use. -/
def describe : ImportDesc → String
  | function t => "Function(" ++ toString t ++ ")"
  | table l => "Table(TableType \x7b elem_type: Funcref, limits: " ++ l.describe ++ " \x7d)"
  | memory l => "Memory(" ++ l.describe ++ ")"
  | global g => "Global(" ++ g.describe ++ ")"

/-- The size limits of a table or memory. -/
def limits? : ImportDesc → Option Limits
  | table l => some l
  | memory l => some l
  | _ => none

end ImportDesc

/-- An import. -/
structure Import where
  /-- The name of the providing module. -/
  moduleName : String
  /-- The name within it. -/
  field : String
  /-- What is imported. -/
  desc : ImportDesc
  deriving DecidableEq, Repr

/-- A global defined by the module. -/
structure Global where
  /-- Its type. -/
  type : GlobalType
  /-- The instruction that gives its first value. -/
  init : Instruction
  deriving DecidableEq

/-- An export. -/
structure Export where
  /-- The exported name. -/
  field : String
  /-- The kind of thing exported. -/
  kind : ExternKind
  /-- Its index. -/
  index : Nat
  deriving DecidableEq, Repr

/-- An element segment: functions copied into a table at the start. -/
structure Segment where
  /-- The table. -/
  table : Nat
  /-- The instruction that gives the first slot. -/
  offset : Instruction
  /-- The functions, by index. -/
  functions : List Nat
  deriving DecidableEq

/-- A function defined by the module. -/
structure Function where
  /-- The index of its type. -/
  typeIndex : Nat
  /-- The types of its declared locals, parameters apart. -/
  locals : List ValueType
  /-- Its code, without the closing `end`. -/
  code : List Instruction
  deriving DecidableEq

/-- A module. -/
structure Module where
  /-- The format version. -/
  version : Nat := 1
  /-- Function types. -/
  types : List FuncType := []
  /-- Imports, in order. -/
  imports : List Import := []
  /-- The type index of each function the module defines. -/
  signatures : List Nat := []
  /-- Declared memories. -/
  memories : List Limits := []
  /-- Globals the module defines. -/
  globals : List Global := []
  /-- Exports, in order. -/
  exports : List Export := []
  /-- Element segments, in order. -/
  segments : List Segment := []
  /-- Bodies of the functions the module defines. -/
  functions : List Function := []
  /-- Names of the custom sections, in order. -/
  customSections : List String := []
  /-- Where the module's own functions start. -/
  importedFunctions : Nat := 0
  /-- Where the module's own globals start. -/
  importedGlobals : Nat := 0
  /-- Where the module's own tables start. -/
  importedTables : Nat := 0
  deriving DecidableEq

/-- What an index of a combined index space stands for. -/
inductive Resolved where
  /-- An import. -/
  | imported (i : Import)
  /-- A definition of the module, by its own position. -/
  | own (position : Nat)
  deriving DecidableEq, Repr

namespace Module

variable (m : Module)

/-- The imports of one kind, in order. -/
def importsOf (kind : ExternKind) : List Import :=
  m.imports.filter fun i => i.desc.kind == kind

/-- The module with its three import counts taken from its imports. -/
def countImports : Module :=
  { m with
    importedFunctions := (m.importsOf .function).length
    importedGlobals := (m.importsOf .global).length
    importedTables := (m.importsOf .table).length }

/-- What a function index stands for. -/
def function? (index : Nat) : Option Resolved :=
  if index < m.importedFunctions then (m.importsOf .function)[index]?.map .imported
  else if index - m.importedFunctions < m.signatures.length then
    some (.own (index - m.importedFunctions))
  else none

/-- The type of a function, by its index. -/
def functionType? (index : Nat) : Option FuncType :=
  match m.function? index with
  | some (.imported i) =>
    match i.desc with
    | .function t => m.types[t]?
    | _ => none
  | some (.own position) => m.signatures[position]?.bind fun t => m.types[t]?
  | none => none

/-- What a global index stands for. -/
def global? (index : Nat) : Option Resolved :=
  if index < m.importedGlobals then (m.importsOf .global)[index]?.map .imported
  else if index - m.importedGlobals < m.globals.length then
    some (.own (index - m.importedGlobals))
  else none

/-- The type of a global, by its index. -/
def globalType? (index : Nat) : Option GlobalType :=
  match m.global? index with
  | some (.imported i) =>
    match i.desc with
    | .global g => some g
    | _ => none
  | some (.own position) => m.globals[position]?.map Global.type
  | none => none

/-- The table import with a given table index. -/
def tableImport? (index : Nat) : Option Import := (m.importsOf .table)[index]?

/-- The number of imported memories. -/
def importedMemories : Nat := (m.importsOf .memory).length

/-- The limits of the module's memory, imported or declared. -/
def memoryLimits? : Option Limits :=
  match (m.importsOf .memory).head?.bind fun i => i.desc.limits? with
  | some l => some l
  | none => m.memories.head?

/-- The name of the first export of a kind with a given index. -/
def exportName? (kind : ExternKind) (index : Nat) : Option String :=
  (m.exports.find? fun e => e.kind == kind && e.index == index).map Export.field

/-- The first export of a kind with a given name. -/
def exported? (field : String) (kind : ExternKind) : Option Export :=
  m.exports.find? fun e => e.kind == kind && e.field == field

end Module

end WasmToC

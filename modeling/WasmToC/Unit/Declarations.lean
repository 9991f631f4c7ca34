import WasmToC.C.Stmt

/-!
# Declarations of a compilation unit

What stands at file scope before the functions: externs for the imports, fields for the module's
own globals and tables, and prototypes.

## Main definitions

* `C.Extern`, `C.Field`, `C.Prototype`.
* `externs`, `fields`, `prototypes` — those of a module.
-/

namespace WasmToC

namespace C

/-- A declaration of something imported. -/
inductive Extern where
  /-- A function, by index. -/
  | function (i : Nat) (t : FuncType)
  /-- A global, by index. -/
  | global (i : Nat) (t : ValueType)
  /-- A table, by index. -/
  | table (i : Nat)
  deriving DecidableEq, Repr

/-- The line of an extern. -/
def Extern.line (s : Symbols) : Extern → String
  | function i t => "extern " ++ signature (s.function i) t false ++ ";"
  | global i t => "extern " ++ t.cType ++ " " ++ s.global i ++ ";"
  | table i => "extern wasm_rt_table " ++ s.table i ++ ";"

/-- A file-scope variable. -/
inductive Field where
  /-- A global, by index. -/
  | global (i : Nat) (t : ValueType) (isExported : Bool)
  /-- A table, by index. -/
  | table (i : Nat) (isExported : Bool)
  deriving DecidableEq, Repr

/-- The line of a field. -/
def Field.line (s : Symbols) : Field → String
  | global i t isExported => storage isExported ++ t.cType ++ " " ++ s.global i ++ ";"
  | table i isExported => storage isExported ++ "wasm_rt_table " ++ s.table i ++ ";"

/-- The prototype of one of the module's own functions. -/
structure Prototype where
  /-- Its index. -/
  index : Nat
  /-- Its type. -/
  type : FuncType
  /-- Whether the module exports it. -/
  isExported : Bool
  deriving DecidableEq, Repr

/-- The line of a prototype. -/
def Prototype.line (s : Symbols) (p : Prototype) : String :=
  FunctionDef.head s p.index p.isExported p.type ++ ";"

end C

/-- Externs for the imports from a given number of functions, globals and tables on. -/
def externsFrom (types : List FuncType) :
    (functions globals tables : Nat) → List Import → Except Failure (List C.Extern)
  | _, _, _, [] => .ok []
  | functions, globals, tables, i :: rest =>
    match i.desc with
    | .function t =>
      match types[t]? with
      | some type => do
        let others ← externsFrom types (functions + 1) globals tables rest
        return .function functions type :: others
      | none => .error (.error (.invalid (.importWithoutType i.field)))
    | .global g => do
      let others ← externsFrom types functions (globals + 1) tables rest
      return .global globals g.content :: others
    | .table _ => do
      let others ← externsFrom types functions globals (tables + 1) rest
      return .table tables :: others
    | .memory _ => externsFrom types functions globals tables rest

/-- The externs of a module. -/
def externs (m : Module) : Except Failure (List C.Extern) := externsFrom m.types 0 0 0 m.imports

/-- Whether the module exports something. -/
def isExported (m : Module) (kind : ExternKind) (index : Nat) : Bool :=
  (m.exportName? kind index).isSome

/-- The module's own tables: those that a segment fills, in order of first use. -/
def ownTables (m : Module) : List Nat :=
  (m.segments.map Segment.table).foldl (fun found t =>
    if m.importedTables ≤ t && !found.contains t then found ++ [t] else found) []

/-- The fields of a module: its own globals, then its own tables. -/
def fields (m : Module) : List C.Field :=
  let globals := m.globals.mapIdx fun i g =>
    let index := m.importedGlobals + i
    .global index g.type.content (isExported m .global index)
  globals ++ (ownTables m).map fun t => .table t (isExported m .table t)

/-- The prototypes of the functions from a given index on. -/
def prototypesFrom (m : Module) : (index : Nat) → List Function → Except Failure (List C.Prototype)
  | _, [] => .ok []
  | index, f :: rest =>
    match m.types[f.typeIndex]? with
    | some t => do
      let others ← prototypesFrom m (index + 1) rest
      return ⟨index, t, isExported m .function index⟩ :: others
    | none => .error (.error (.invalid (.functionWithoutType index)))

/-- The prototypes of a module. -/
def prototypes (m : Module) : Except Failure (List C.Prototype) :=
  prototypesFrom m m.importedFunctions m.functions

end WasmToC

/-!
# Types

The types of a WebAssembly module: value types, function types, limits, and everything that one
type tag of the binary format can introduce.

## Main definitions

* `ValueType`, `FuncType`, `Limits`, `GlobalType`.
* `TypeForm` — what a type tag introduces.
* `ExternKind` — the four kinds of things a module imports and exports.
-/

namespace WasmToC

/-- The type of a value. -/
inductive ValueType where
  | i32 | i64 | f32 | f64
  deriving DecidableEq, Repr, Inhabited

namespace ValueType

/-- The text name. -/
def name : ValueType → String
  | i32 => "i32"
  | i64 => "i64"
  | f32 => "f32"
  | f64 => "f64"

/-- The constructor name messages use. -/
def label : ValueType → String
  | i32 => "I32"
  | i64 => "I64"
  | f32 => "F32"
  | f64 => "F64"

end ValueType

/-- A function type: parameters and at most one result. -/
structure FuncType where
  /-- Parameter types, in order. -/
  params : List ValueType
  /-- The result type, if any. -/
  result : Option ValueType
  deriving DecidableEq, Repr, Inhabited

namespace FuncType

/-- The text form: `(i32, f64) -> i64`, without the arrow when there is no result. -/
def text (t : FuncType) : String :=
  let params := "(" ++ ", ".intercalate (t.params.map ValueType.name) ++ ")"
  match t.result with
  | some r => params ++ " -> " ++ r.name
  | none => params

/-- The field by field form messages use. -/
def describe (t : FuncType) : String :=
  let params := ", ".intercalate (t.params.map ValueType.label)
  let result := match t.result with
    | some r => "Some(" ++ r.label ++ ")"
    | none => "None"
  "FuncType \x7b params: [" ++ params ++ "], result: " ++ result ++ " \x7d"

end FuncType

/-- What a type tag introduces. -/
inductive TypeForm where
  /-- A value type. -/
  | value (t : ValueType)
  /-- A reference to any function, the element type of tables. -/
  | funcref
  /-- A function type. -/
  | func (t : FuncType)
  /-- The type of a block without a result. -/
  | emptyBlock
  deriving DecidableEq, Repr

/-- The form's name in messages. -/
def TypeForm.describe : TypeForm → String
  | value t => "Value(" ++ t.label ++ ")"
  | funcref => "Funcref"
  | func t => "Func(" ++ t.describe ++ ")"
  | emptyBlock => "EmptyBlock"

/-- Initial size of a memory or table, and the size it may grow to. -/
structure Limits where
  /-- The size at the start. -/
  initial : Nat
  /-- The largest size, if bounded. -/
  maximum : Option Nat
  deriving DecidableEq, Repr, Inhabited

/-- The field by field form log records use. -/
def Limits.describe (l : Limits) : String :=
  let maximum := match l.maximum with
    | some n => "Some(" ++ toString n ++ ")"
    | none => "None"
  "ResizableLimits \x7b initial: " ++ toString l.initial ++ ", maximum: " ++ maximum ++ " \x7d"

/-- The type of a global variable. -/
structure GlobalType where
  /-- The type of its values. -/
  content : ValueType
  /-- Whether code may assign it. -/
  isMutable : Bool
  deriving DecidableEq, Repr, Inhabited

/-- The field by field form log records use. -/
def GlobalType.describe (g : GlobalType) : String :=
  "GlobalType \x7b content_type: " ++ g.content.label ++ ", mutability: " ++ toString g.isMutable ++
    " \x7d"

/-- The kinds of things that are imported and exported. -/
inductive ExternKind where
  | function | table | memory | global
  deriving DecidableEq, Repr

namespace ExternKind

/-- The kind a byte of the binary format stands for. -/
def ofCode? : Nat → Option ExternKind
  | 0 => some function
  | 1 => some table
  | 2 => some memory
  | 3 => some global
  | _ => none

/-- The byte of a kind. -/
def code : ExternKind → Nat
  | function => 0
  | table => 1
  | memory => 2
  | global => 3

/-- The name messages use. -/
def label : ExternKind → String
  | function => "Function"
  | table => "Table"
  | memory => "Memory"
  | global => "Global"

end ExternKind

end WasmToC

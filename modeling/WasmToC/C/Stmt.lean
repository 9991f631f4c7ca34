import WasmToC.C.Expr

/-!
# C statements and functions

The statements of emitted function bodies. Constructs carry their label: that of a loop stands
before its opening brace, and that of every other construct behind its closing brace.

## Main definitions

* `C.Place` — what can be assigned.
* `C.Stmt` — a statement.
* `C.Stmt.lines` — its lines of text.
* `C.FunctionDef` — a function definition.
-/

namespace WasmToC.C

/-- What can be assigned. -/
inductive Place where
  /-- A parameter or local. -/
  | var (i : Nat)
  /-- A temporary. -/
  | temp (i : Nat)
  /-- A global. -/
  | global (i : Nat)
  deriving DecidableEq, Repr

/-- The name of a place. -/
def Place.text (n : Naming) : Place → String
  | var i => localName n.params i
  | temp i => tempName i
  | global i => n.symbols.global i

/-- Why emitted code traps. -/
inductive TrapCode where
  /-- An `unreachable` instruction is executed. -/
  | unreachable
  /-- An indirect call is executed. -/
  | indirectCall
  deriving DecidableEq, Repr

/-- The name of a trap code. -/
def TrapCode.text : TrapCode → String
  | unreachable => "WASM_RT_TRAP_UNREACHABLE"
  | indirectCall => "WASM_RT_TRAP_INDIRECT_CALL"

/-- A statement. -/
inductive Stmt where
  /-- An assignment. -/
  | assign (place : Place) (value : Expr)
  /-- An expression evaluated for its effects. -/
  | discard (value : Expr)
  /-- A call without a result. -/
  | call (f : Nat) (args : List Expr)
  /-- A store to memory. -/
  | store (op : Store) (address : Expr) (offset : Nat) (value : Expr)
  /-- A trap. -/
  | trap (code : TrapCode)
  /-- A jump to a label. -/
  | jump (label : Nat)
  /-- A jump taken if a condition holds, perhaps after assigning a temporary. -/
  | jumpIf (condition : Expr) (carried : Option (Nat × Expr)) (label : Nat)
  /-- The return from the function. -/
  | leave (value : Option Expr)
  /-- A return taken if a condition holds. -/
  | leaveIf (condition : Expr) (value : Option Expr)
  /-- A block. -/
  | block (body : List Stmt) (label : Option Nat)
  /-- A loop. -/
  | loop (label : Nat) (body : List Stmt)
  /-- A conditional statement without an alternative. -/
  | onlyIf (condition : Expr) (yes : List Stmt) (label : Option Nat)
  /-- A conditional statement with an alternative. -/
  | ifElse (condition : Expr) (yes no : List Stmt) (label : Option Nat)

/-- A line at a nesting depth. -/
def indented (depth : Nat) (line : String) : String :=
  String.ofList (List.replicate (2 * depth) ' ') ++ line

/-- The return statement. -/
def leaveText (n : Naming) : Option Expr → String
  | some e => "return " ++ e.text n ++ ";"
  | none => "return;"

/-- An assignment. -/
def assignText (place value : String) : String := place ++ " = " ++ value ++ ";"

/-- A jump. -/
def jumpText (label : Nat) : String := "goto " ++ labelName label ++ ";"

/-- The line that defines a label, if there is one. -/
def labelLines (depth : Nat) : Option Nat → List String
  | some label => [indented depth (labelName label ++ ":;")]
  | none => []

/-- The line that opens a conditional statement. -/
def ifLine (n : Naming) (depth : Nat) (condition : Expr) : String :=
  indented depth ("if (" ++ condition.text n ++ ") \x7b")

mutual

/-- The lines of a statement at a nesting depth. -/
def Stmt.lines (n : Naming) (depth : Nat) : Stmt → List String
  | .assign place value => [indented depth (assignText (place.text n) (value.text n))]
  | .discard value => [indented depth ("(void)" ++ operand (value.text n) ++ ";")]
  | .call f args => [indented depth (callText (n.symbols.function f) (Expr.texts n args) ++ ";")]
  | .store op address offset value =>
    let args := [address.text n, s!"{offset}u", value.text n]
    [indented depth (callText (supportName op.name) args ++ ";")]
  | .trap code => [indented depth (callText "wasm_rt_trap" [code.text] ++ ";")]
  | .jump label => [indented depth (jumpText label)]
  | .jumpIf condition carried label =>
    let action := match carried with
      | some (t, value) =>
        "\x7b " ++ assignText (tempName t) (value.text n) ++ " " ++ jumpText label ++ " \x7d"
      | none => jumpText label
    [indented depth ("if (" ++ condition.text n ++ ") " ++ action)]
  | .leave value => [indented depth (leaveText n value)]
  | .leaveIf condition value =>
    [indented depth ("if (" ++ condition.text n ++ ") " ++ leaveText n value)]
  | .block body label =>
    indented depth "\x7b" :: Stmt.allLines n (depth + 1) body ++
      indented depth "\x7d" :: labelLines depth label
  | .loop label body =>
    labelLines depth (some label) ++
      indented depth "\x7b" :: Stmt.allLines n (depth + 1) body ++ [indented depth "\x7d"]
  | .onlyIf condition yes label =>
    ifLine n depth condition :: Stmt.allLines n (depth + 1) yes ++
      indented depth "\x7d" :: labelLines depth label
  | .ifElse condition yes no label =>
    ifLine n depth condition :: Stmt.allLines n (depth + 1) yes ++
      indented depth "\x7d else \x7b" :: Stmt.allLines n (depth + 1) no ++
      indented depth "\x7d" :: labelLines depth label

/-- The lines of a list of statements. -/
def Stmt.allLines (n : Naming) (depth : Nat) : List Stmt → List String
  | [] => []
  | s :: rest => s.lines n depth ++ Stmt.allLines n depth rest

end

/-- The head of a function: result type, name and parameters, which have names if `named`. -/
def signature (name : String) (t : FuncType) (named : Bool) : String :=
  let result := (t.result.map ValueType.cType).getD "void"
  let param := fun (i : Nat) (p : ValueType) => if named then p.cType ++ s!" p{i}" else p.cType
  let params := if t.params.isEmpty then "void" else ", ".intercalate (t.params.mapIdx param)
  result ++ " " ++ name ++ "(" ++ params ++ ")"

/-- `static` in front of what the module does not export. -/
def storage (isExported : Bool) : String := if isExported then "" else "static "

/-- The definition of one of the module's own functions. -/
structure FunctionDef where
  /-- Its index. -/
  index : Nat
  /-- Whether the module exports it. -/
  isExported : Bool
  /-- Its type. -/
  type : FuncType
  /-- The types of its declared locals. -/
  locals : List ValueType
  /-- The types of its temporaries. -/
  temps : List ValueType
  /-- Its statements. -/
  body : List Stmt

namespace FunctionDef

/-- What the text of the function's body depends on besides its tree. -/
def naming (s : Symbols) (f : FunctionDef) : Naming := ⟨s, f.type.params.length⟩

/-- The function's head, as in its prototype. -/
def head (s : Symbols) (index : Nat) (isExported : Bool) (t : FuncType) : String :=
  storage isExported ++ signature (s.function index) t true

/-- A variable declared with a zero. -/
def declaration (t : ValueType) (name : String) : String :=
  indented 1 (t.cType ++ " " ++ assignText name t.cZero)

/-- The lines of a function definition. -/
def lines (s : Symbols) (f : FunctionDef) : List String :=
  let n := f.naming s
  let locals := f.locals.mapIdx fun i t => declaration t (localName n.params (n.params + i))
  let temps := f.temps.mapIdx fun i t => declaration t (tempName i)
  (head s f.index f.isExported f.type ++ " \x7b") :: locals ++ temps ++
    Stmt.allLines n 1 f.body ++ ["\x7d"]

/-- The text of a function definition. -/
def text (s : Symbols) (f : FunctionDef) : String :=
  String.join ((f.lines s).map fun line => line ++ "\n")

end FunctionDef

end WasmToC.C

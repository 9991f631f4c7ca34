import WasmToC.C.Spelling
import WasmToC.C.Symbols
import WasmToC.C.Template

/-!
# C expressions

The expressions that occur in emitted function bodies, as trees over the index spaces of the
module, and their text.

## Main definitions

* `C.Expr` — an expression.
* `C.Naming` — what the text of a function body depends on besides its tree.
* `C.Expr.text` — the text of an expression.
* `C.literal` — the spelling of a constant.
-/

namespace WasmToC

/-- The C type of a value type. -/
def ValueType.cType : ValueType → String
  | i32 => "int32_t"
  | i64 => "int64_t"
  | f32 => "float"
  | f64 => "double"

/-- A zero of a type, as a C literal. -/
def ValueType.cZero : ValueType → String
  | i32 | i64 => "0"
  | f32 => "0.0f"
  | f64 => "0.0"

namespace C

/-- The spelling of a constant. The least integers have names of their own, because C has no
literal for them, and floating-point numbers are spelled by their bits. -/
def literal : Value → String
  | .i32 v => if v = Int32.minValue then "INT32_MIN" else toString v.toInt
  | .i64 v => if v = Int64.minValue then "INT64_MIN" else "INT64_C(" ++ toString v.toInt ++ ")"
  | .f32 bits => "wasm_rt_f32_bits(0x" ++ Text.hexFixed 8 bits.toNat ++ "u)"
  | .f64 bits => "wasm_rt_f64_bits(UINT64_C(0x" ++ Text.hexFixed 16 bits.toNat ++ "))"

/-- The support function that does what an opcode's name says. -/
def supportName (name : String) : String :=
  "wasm_rt_" ++ String.ofList (name.toList.map fun c => if c = '.' then '_' else c)

/-- An expression. -/
inductive Expr where
  /-- A constant. -/
  | const (v : Value)
  /-- A zero of a type. -/
  | zero (t : ValueType)
  /-- A parameter or local, by index. -/
  | var (i : Nat)
  /-- A temporary. -/
  | temp (i : Nat)
  /-- A global, by index. -/
  | global (i : Nat)
  /-- The memory size. -/
  | memorySize
  /-- Growing the memory. -/
  | memoryGrow (delta : Expr)
  /-- A load from memory. -/
  | load (op : Load) (address : Expr) (offset : Nat)
  /-- A call of a function, by index. -/
  | call (f : Nat) (args : List Expr)
  /-- A numeric instruction. -/
  | numeric (op : Numeric) (args : List Expr)
  /-- A choice by a condition. -/
  | choose (condition yes no : Expr)

/-- What the text of a function body depends on besides its tree. -/
structure Naming where
  /-- The file-scope symbols. -/
  symbols : Symbols
  /-- The number of parameters of the function. -/
  params : Nat

/-- A call of a function with given arguments. -/
def callText (name : String) (args : List String) : String :=
  name ++ "(" ++ ", ".intercalate args ++ ")"

/-- A choice by a condition. -/
def chooseText (condition yes no : String) : String :=
  "(" ++ operand condition ++ " ? " ++ operand yes ++ " : " ++ operand no ++ ")"

/-- The template of a numeric instruction. -/
def template (op : Numeric) : Template := Template.parse op.spelling.toList

mutual

/-- The text of an expression. -/
def Expr.text (n : Naming) : Expr → String
  | .const v => literal v
  | .zero t => t.cZero
  | .var i => localName n.params i
  | .temp i => tempName i
  | .global i => n.symbols.global i
  | .memorySize => "wasm_rt_memory_size()"
  | .memoryGrow delta => callText "wasm_rt_memory_grow" [delta.text n]
  | .load op address offset => callText (supportName op.name) [address.text n, s!"{offset}u"]
  | .call f args => callText (n.symbols.function f) (Expr.texts n args)
  | .numeric op args => (template op).fill (Expr.texts n args)
  | .choose condition yes no => chooseText (condition.text n) (yes.text n) (no.text n)

/-- The texts of a list of expressions. -/
def Expr.texts (n : Naming) : List Expr → List String
  | [] => []
  | e :: es => e.text n :: Expr.texts n es

end

theorem Expr.texts_eq_map (n : Naming) (es : List Expr) :
    Expr.texts n es = es.map (Expr.text n) := by
  induction es with
  | nil => rfl
  | cons e es ih => rw [Expr.texts, ih, List.map_cons]

end C

end WasmToC

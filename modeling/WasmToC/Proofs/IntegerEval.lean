import Mathlib.Algebra.Ring.Int.Defs
import WasmToC.Proofs.Grammar
import WasmToC.Proofs.IntegerMeaning
import WasmToC.Support.Machine

/-!
# Integer expressions of C

The values of expressions over the four integer types, by the rules of C: operands are brought to a
common type, unsigned arithmetic wraps, and signed arithmetic that leaves the type, division by zero
and shifts by the width or more have no defined behaviour. An `int` has 32 bits. Where C leaves a
choice, conversions to a signed type wrap, and shifting a negative number to the right keeps its
sign. Everything that is no integer expression is left to a parameter.

## Main definitions

* `C.IntType`, `C.Scalar` — integer types and their values.
* `C.Scalar.binary?` — the operators.
* `C.intrinsic?` — the integer functions of the support library.
* `C.Tree.eval` — the value of an expression.
-/

namespace WasmToC.C

/-! ## Types and values -/

/-- An integer type. -/
structure IntType where
  /-- The number of bits. -/
  width : Width
  /-- Whether half of its values are negative. -/
  isSigned : Bool
  deriving DecidableEq, Repr

namespace IntType

/-- The signed type of a width; that of 32 bits is `int`. -/
abbrev signed (W : Width) : IntType := ⟨W, true⟩

/-- The unsigned type of a width. -/
abbrev unsigned (W : Width) : IntType := ⟨W, false⟩

/-- The names of the integer types. -/
def names : List (String × IntType) := [ ("int32_t", signed .w32), ("uint32_t", unsigned .w32),
  ("int64_t", signed .w64), ("uint64_t", unsigned .w64)]

/-- The type with a given name. -/
def ofName? (w : String) : Option IntType := names.lookup w

/-- The number that bits stand for. -/
def val (t : IntType) (x : BitVec t.width.bits) : Int := if t.isSigned then x.toInt else x.toNat

/-- Whether a type has a number among its values. -/
def Holds (t : IntType) (k : Int) : Prop := t.val (BitVec.ofInt t.width.bits k) = k

instance (t : IntType) (k : Int) : Decidable (t.Holds k) :=
  inferInstanceAs (Decidable (_ = _))

/-- The type in which operands of two types meet: the wider one, and of one width the unsigned
one. -/
def common (s t : IntType) : IntType :=
  if s.width = t.width then ⟨s.width, s.isSigned && t.isSigned⟩
  else if s.width = .w32 then t else s

end IntType

/-- A value of an integer type. -/
structure Scalar where
  /-- Its type. -/
  type : IntType
  /-- Its bits. -/
  bits : BitVec type.width.bits
  deriving DecidableEq

/-- What an expression that has no defined behaviour does. -/
inductive Undefined where
  /-- It divides by zero. -/
  | divisionByZero
  /-- A result leaves its signed type. -/
  | overflow
  /-- A shift is by less than zero bits, or by all bits or more. -/
  | shiftCount
  deriving DecidableEq, Repr

/-- Why an expression has no value. -/
inductive NoValue where
  /-- Its behaviour is undefined. -/
  | undefined (why : Undefined)
  /-- It has called the trap handler. -/
  | trap
  deriving DecidableEq, Repr

namespace Scalar

/-- The number that a value stands for. -/
def val (x : Scalar) : Int := x.type.val x.bits

/-- The value of a type that is a number up to multiples of two to the power of the width. -/
def ofInt (t : IntType) (k : Int) : Scalar := ⟨t, BitVec.ofInt t.width.bits k⟩

/-- The bits of a value that is converted to a type. -/
def bitsIn (x : Scalar) (t : IntType) : BitVec t.width.bits := BitVec.ofInt t.width.bits x.val

/-- Conversion to a type. -/
def convert (x : Scalar) (t : IntType) : Scalar := ⟨t, x.bitsIn t⟩

/-- The result of a comparison, which is an `int`. -/
def ofBool (b : Bool) : Scalar := ofInt (.signed .w32) (if b then 1 else 0)

/-- A result that is computed in a type: an unsigned one wraps, and a signed one must fit. -/
def result (t : IntType) (k : Int) : Except NoValue Scalar :=
  if t.isSigned = true ∧ ¬ t.Holds k then .error (.undefined .overflow) else .ok (ofInt t k)

/-- A shift to the left. A negative number cannot be shifted. -/
def shiftLeft (x : Scalar) (n : Int) : Except NoValue Scalar :=
  if n < 0 ∨ x.type.width.bits ≤ n then .error (.undefined .shiftCount)
  else if x.val < 0 then .error (.undefined .overflow)
  else result x.type (x.val * 2 ^ n.toNat)

/-- A shift to the right. A negative number keeps its sign. -/
def shiftRight (x : Scalar) (n : Int) : Except NoValue Scalar :=
  if n < 0 ∨ x.type.width.bits ≤ n then .error (.undefined .shiftCount)
  else .ok (ofInt x.type (x.val >>> n.toNat))

/-- An operator between two values of one type, if it is an operator of integers. Neither a
quotient nor a remainder is defined if the quotient does not fit. -/
def operate? (p : Punct) (t : IntType) (a b : BitVec t.width.bits) :
    Option (Except NoValue Scalar) :=
  match p with
  | .plus => some (result t (t.val a + t.val b))
  | .minus => some (result t (t.val a - t.val b))
  | .times => some (result t (t.val a * t.val b))
  | .divide =>
    if t.val b = 0 then some (.error (.undefined .divisionByZero))
    else some (result t ((t.val a).tdiv (t.val b)))
  | .modulo =>
    if t.val b = 0 then some (.error (.undefined .divisionByZero))
    else some ((result t ((t.val a).tdiv (t.val b))).map fun _ =>
      ofInt t ((t.val a).tmod (t.val b)))
  | .bitAnd => some (.ok ⟨t, a &&& b⟩)
  | .bitOr => some (.ok ⟨t, a ||| b⟩)
  | .bitXor => some (.ok ⟨t, a ^^^ b⟩)
  | .equal => some (.ok (ofBool (t.val a = t.val b)))
  | .notEqual => some (.ok (ofBool (t.val a ≠ t.val b)))
  | .less => some (.ok (ofBool (t.val a < t.val b)))
  | .greater => some (.ok (ofBool (t.val a > t.val b)))
  | .lessEq => some (.ok (ofBool (t.val a ≤ t.val b)))
  | .greaterEq => some (.ok (ofBool (t.val a ≥ t.val b)))
  | _ => none

/-- An operator between two values, if it is an operator of integers. The operands of a shift keep
their types, and those of all others meet in a common one. -/
def binary? (p : Punct) (x y : Scalar) : Option (Except NoValue Scalar) :=
  match p with
  | .shiftLeft => some (x.shiftLeft y.val)
  | .shiftRight => some (x.shiftRight y.val)
  | _ =>
    let t := x.type.common y.type
    operate? p t (x.bitsIn t) (y.bitsIn t)

/-- The value of a decimal literal: an `int` if it fits, and otherwise of 64 bits. A zero at the
front would make it octal. -/
def literal? (x : String) : Option Scalar :=
  if x.toList.all Char.isDigit = true ∧ (x = "0" ∨ x.toList.head?.any (· ≠ '0') = true) then
    let k : Int := x.toList.foldl (fun k c => 10 * k + (c.toNat - '0'.toNat)) 0
    if (IntType.signed .w32).Holds k then some (ofInt (.signed .w32) k)
    else if (IntType.signed .w64).Holds k then some (ofInt (.signed .w64) k)
    else none
  else none

end Scalar

/-- What expressions evaluate to. -/
inductive Datum where
  /-- An integer. -/
  | int (x : Scalar)
  /-- The bits of a `float`. -/
  | float (bits : UInt32)
  /-- The bits of a `double`. -/
  | double (bits : UInt64)
  deriving DecidableEq

/-- A WebAssembly value in C: integers are of the signed types. -/
def Datum.ofValue : Value → Datum
  | .i32 v => .int ⟨.signed .w32, v.toBitVec⟩
  | .i64 v => .int ⟨.signed .w64, v.toBitVec⟩
  | .f32 bits => .float bits
  | .f64 bits => .double bits

/-! ## Functions of the support library -/

/-- The integer functions of one operand, by name, with the width of the operand. -/
def unaryIntrinsics : List (String × Width × Support.Unary) := [
  ("wasm_rt_i32_clz", .w32, .i32Clz), ("wasm_rt_i32_ctz", .w32, .i32Ctz),
  ("wasm_rt_i32_popcnt", .w32, .i32Popcnt), ("wasm_rt_i64_clz", .w64, .i64Clz),
  ("wasm_rt_i64_ctz", .w64, .i64Ctz), ("wasm_rt_i64_popcnt", .w64, .i64Popcnt)]

/-- The integer functions of two operands, by name, with the width of the operands. -/
def binaryIntrinsics : List (String × Width × Support.Binary) := [
  ("wasm_rt_i32_rotl", .w32, .i32Rotl), ("wasm_rt_i32_rotr", .w32, .i32Rotr),
  ("wasm_rt_i64_rotl", .w64, .i64Rotl), ("wasm_rt_i64_rotr", .w64, .i64Rotr)]

/-- A value as an argument of an intrinsic: it is converted to the signed type of a width. -/
def Scalar.argument (x : Scalar) (W : Width) : Value := W.value (x.bitsIn (.signed W))

/-- A call of an integer function of the support library. -/
def intrinsic? (f : String) : List Datum → Option (Except NoValue Datum)
  | [.int x] =>
    (unaryIntrinsics.lookup f).map fun (W, op) => .ok (.ofValue (op.apply (x.argument W)))
  | [.int x, .int y] =>
    (binaryIntrinsics.lookup f).map fun (W, op) =>
      match op.apply (x.argument W) (y.argument W) with
      | some v => .ok (.ofValue v)
      | none => .error (.undefined .shiftCount)
  | _ => none

/-! ## Evaluation -/

mutual

/-- The value of an expression. Integer operators, conversions between integer types, literals and
intrinsics follow the rules above, and `others` tells what every other expression evaluates to. -/
def Tree.eval (others : Tree → Except NoValue Datum) : Tree → Except NoValue Datum
  | .number x =>
    match Scalar.literal? x with
    | some v => .ok (.int v)
    | none => others (.number x)
  | .cast w e =>
    match IntType.ofName? w, e.eval others with
    | some t, .ok (.int x) => .ok (.int (x.convert t))
    | _, .error failure => .error failure
    | _, _ => others (.cast w e)
  | .binary p left right =>
    -- the right operand of a logical operator may not be evaluated at all
    if p = .and ∨ p = .or then others (.binary p left right)
    else
      match left.eval others, right.eval others with
      | .ok (.int x), .ok (.int y) =>
        match Scalar.binary? p x y with
        | some answer => answer.map .int
        | none => others (.binary p left right)
      | .error failure, _ => .error failure
      | _, .error failure => .error failure
      | _, _ => others (.binary p left right)
  | .call (.name f) args =>
    match Tree.evalAll others args with
    | .ok data =>
      match intrinsic? f data with
      | some answer => answer
      | none => others (.call (.name f) args)
    | .error failure => .error failure
  | e => others e

/-- The values of a list of expressions. -/
def Tree.evalAll (others : Tree → Except NoValue Datum) : List Tree → Except NoValue (List Datum)
  | [] => .ok []
  | e :: es => do
    let x ← e.eval others
    let xs ← Tree.evalAll others es
    return x :: xs

end

/-! ## The rules of evaluation -/

/-- Whether an operator is a shift, whose operands keep their types. -/
def Punct.isShift : Punct → Bool
  | .shiftLeft | .shiftRight => true
  | _ => false

/-- Operators other than shifts are applied in the common type. -/
lemma Scalar.binary?_eq_operate? {p : Punct} {x y : Scalar} (hshift : p.isShift = false) :
    binary? p x y = operate? p (x.type.common y.type) (x.bitsIn (x.type.common y.type))
      (y.bitsIn (x.type.common y.type)) := by
  cases p <;> first | rfl | cases hshift

namespace Tree

variable {others : Tree → Except NoValue Datum}

lemma eval_cast {w : String} {t : IntType} {e : Tree} {answer : Except NoValue Scalar}
    (hw : IntType.ofName? w = some t) (he : e.eval others = answer.map .int) :
    (Tree.cast w e).eval others = answer.map fun x => .int (x.convert t) := by
  rw [eval, hw, he]
  cases answer <;> rfl

lemma eval_cast_of_ok {w : String} {t : IntType} {e : Tree} {x : Scalar}
    (hw : IntType.ofName? w = some t) (he : e.eval others = .ok (.int x)) :
    (Tree.cast w e).eval others = .ok (.int (x.convert t)) :=
  @eval_cast others w t e (.ok x) hw he

lemma eval_binary {p : Punct} {left right : Tree} {x y : Scalar}
    {answer : Except NoValue Scalar} (hleft : left.eval others = .ok (.int x))
    (hright : right.eval others = .ok (.int y)) (hp : Scalar.binary? p x y = some answer) :
    (Tree.binary p left right).eval others = answer.map .int := by
  have hlogical : ¬ (p = .and ∨ p = .or) := by
    rintro (rfl | rfl) <;> cases hp
  rw [eval, if_neg hlogical, hleft, hright]
  simp only [hp]

lemma eval_number {x : String} {v : Scalar} (h : Scalar.literal? x = some v) :
    (Tree.number x).eval others = .ok (.int v) := by
  rw [eval, h]

lemma evalAll_cons {e : Tree} {es : List Tree} {x : Datum} {xs : List Datum}
    (he : e.eval others = .ok x) (hes : evalAll others es = .ok xs) :
    evalAll others (e :: es) = .ok (x :: xs) := by
  rw [evalAll, he, hes]
  rfl

lemma eval_call {f : String} {args : List Tree} {data : List Datum}
    {answer : Except NoValue Datum} (ha : evalAll others args = .ok data)
    (hf : intrinsic? f data = some answer) :
    (Tree.call (.name f) args).eval others = answer := by
  rw [eval, ha]
  simp only [hf]

end Tree

end WasmToC.C

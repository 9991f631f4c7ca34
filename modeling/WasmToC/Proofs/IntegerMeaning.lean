import Mathlib.Data.Finset.Card
import Mathlib.Data.Finset.Range
import WasmToC.Wasm.Numeric
import WasmToC.Wasm.Value

/-!
# What integer instructions mean

The numeric instructions that take integers and give an integer, as operations on bit strings.
They come in two widths that differ in nothing else, so each operation is defined once, at any
width. Division by zero and a quotient that does not fit have no value; the instruction traps.

## Main definitions

* `IntUnary.apply`, `IntRelation.holds`, `IntBinary.apply` — the operations.
* `IntInstr` — an integer instruction, by its operation and its width.
* `Numeric.integer?` — the numeric instructions that are integer instructions.
* `Numeric.meaning` — what an instruction does with its operands.
-/

namespace WasmToC

/-! ## Widths -/

/-- The width of an integer. -/
inductive Width where
  | w32 | w64
  deriving DecidableEq, Repr

namespace Width

/-- The number of bits. -/
def bits : Width → Nat
  | w32 => 32
  | w64 => 64

/-- The type of the integers of a width. -/
def type : Width → ValueType
  | w32 => .i32
  | w64 => .i64

/-- The integer with given bits. -/
def value : (W : Width) → BitVec W.bits → Value
  | w32, x => .i32 (Int32.ofBitVec x)
  | w64, x => .i64 (Int64.ofBitVec x)

/-- The bits of an integer of a width. -/
def bits? : (W : Width) → Value → Option (BitVec W.bits)
  | w32, .i32 v => some v.toBitVec
  | w64, .i64 v => some v.toBitVec
  | _, _ => none

lemma bits_pos (W : Width) : 0 < W.bits := by
  cases W <;> decide

@[simp] lemma bits?_value (W : Width) (x : BitVec W.bits) : W.bits? (W.value x) = some x := by
  cases W <;> rfl

/-- A value of the type of a width has its bits. -/
lemma exists_value {W : Width} {v : Value} (h : v.type = W.type) : ∃ x, v = W.value x := by
  cases W <;> cases v <;> simp only [Value.type, type, reduceCtorEq] at h
  case w32.i32 v => exact ⟨v.toBitVec, rfl⟩
  case w64.i64 v => exact ⟨v.toBitVec, rfl⟩

end Width

/-! ## Operations -/

/-- Why an integer instruction has no value. -/
inductive IntTrap where
  /-- The divisor is zero. -/
  | divideByZero
  /-- The quotient does not fit. -/
  | overflow
  deriving DecidableEq, Repr

/-- Operations on one integer. -/
inductive IntUnary where
  | clz | ctz | popcnt
  deriving DecidableEq, Repr

/-- Comparisons of two integers. -/
inductive IntRelation where
  | eq | ne | ltS | ltU | gtS | gtU | leS | leU | geS | geU
  deriving DecidableEq, Repr

/-- Operations on two integers. -/
inductive IntBinary where
  | add | sub | mul | divS | divU | remS | remU | and | or | xor | shl | shrS | shrU | rotl | rotr
  deriving DecidableEq, Repr

section Operations

variable {w : Nat}

/-- The number of zeros above the highest bit that is set; all bits are counted if none is. -/
def leadingZeroBits (x : BitVec w) : Nat := (List.range w).findIdx fun i => x.getMsbD i

/-- The number of zeros below the lowest bit that is set; all bits are counted if none is. -/
def trailingZeroBits (x : BitVec w) : Nat := (List.range w).findIdx fun i => x.getLsbD i

/-- The positions of the bits that are set. -/
def setBits (x : BitVec w) : Finset Nat := (Finset.range w).filter fun i => x.getLsbD i = true

/-- Counts, as integers of the same width. -/
def IntUnary.apply : IntUnary → BitVec w → BitVec w
  | clz, x => BitVec.ofNat w (leadingZeroBits x)
  | ctz, x => BitVec.ofNat w (trailingZeroBits x)
  | popcnt, x => BitVec.ofNat w (setBits x).card

/-- Comparisons, of signed numbers or of unsigned ones. -/
def IntRelation.holds : IntRelation → BitVec w → BitVec w → Bool
  | eq, x, y => x = y
  | ne, x, y => x ≠ y
  | ltS, x, y => x.toInt < y.toInt
  | ltU, x, y => x.toNat < y.toNat
  | gtS, x, y => x.toInt > y.toInt
  | gtU, x, y => x.toNat > y.toNat
  | leS, x, y => x.toInt ≤ y.toInt
  | leU, x, y => x.toNat ≤ y.toNat
  | geS, x, y => x.toInt ≥ y.toInt
  | geU, x, y => x.toNat ≥ y.toNat

/-- Whether a signed quotient does not fit: the least number is divided by -1. -/
def Overflows (x y : BitVec w) : Prop := x = BitVec.intMin w ∧ y = -1#w

instance (x y : BitVec w) : Decidable (Overflows x y) :=
  inferInstanceAs (Decidable (_ ∧ _))

/-- Arithmetic wraps, division goes toward zero, and shifts and rotations take their count modulo
the width. -/
def IntBinary.apply : IntBinary → BitVec w → BitVec w → Except IntTrap (BitVec w)
  | add, x, y => .ok (x + y)
  | sub, x, y => .ok (x - y)
  | mul, x, y => .ok (x * y)
  | divS, x, y =>
    if y = 0#w then .error .divideByZero
    else if Overflows x y then .error .overflow
    else .ok (BitVec.ofInt w (x.toInt.tdiv y.toInt))
  | divU, x, y =>
    if y = 0#w then .error .divideByZero else .ok (BitVec.ofNat w (x.toNat / y.toNat))
  | remS, x, y =>
    if y = 0#w then .error .divideByZero else .ok (BitVec.ofInt w (x.toInt.tmod y.toInt))
  | remU, x, y =>
    if y = 0#w then .error .divideByZero else .ok (BitVec.ofNat w (x.toNat % y.toNat))
  | and, x, y => .ok (x &&& y)
  | or, x, y => .ok (x ||| y)
  | xor, x, y => .ok (x ^^^ y)
  | shl, x, y => .ok (x <<< (y.toNat % w))
  | shrS, x, y => .ok (x.sshiftRight (y.toNat % w))
  | shrU, x, y => .ok (x >>> (y.toNat % w))
  | rotl, x, y => .ok (x.rotateLeft y.toNat)
  | rotr, x, y => .ok (x.rotateRight y.toNat)

end Operations

/-- Whether an operation is a division or a remainder. -/
def IntBinary.isDivision : IntBinary → Bool
  | divS | divU | remS | remU => true
  | _ => false

/-- Only divisions can trap. -/
lemma IntBinary.exists_apply {op : IntBinary} (h : op.isDivision = false) {w : Nat}
    (x y : BitVec w) : ∃ z, op.apply x y = .ok z := by
  cases op <;> first | exact ⟨_, rfl⟩ | simp [isDivision] at h

/-! ## Instructions -/

/-- An integer instruction. -/
inductive IntInstr where
  /-- Whether an integer is zero. -/
  | eqz (W : Width)
  /-- A comparison. -/
  | relation (W : Width) (op : IntRelation)
  /-- A count. -/
  | unary (W : Width) (op : IntUnary)
  /-- An operation on two integers. -/
  | binary (W : Width) (op : IntBinary)
  /-- The lower half of a 64-bit integer. -/
  | wrap
  /-- A 32-bit integer with copies of its sign. -/
  | extendS
  /-- A 32-bit integer with zeros. -/
  | extendU
  deriving DecidableEq, Repr

/-- The numeric instructions that are integer instructions. -/
def Numeric.integer? : Numeric → Option IntInstr
  | .i32Eqz => some (.eqz .w32)
  | .i32Eq => some (.relation .w32 .eq)
  | .i32Ne => some (.relation .w32 .ne)
  | .i32LtS => some (.relation .w32 .ltS)
  | .i32LtU => some (.relation .w32 .ltU)
  | .i32GtS => some (.relation .w32 .gtS)
  | .i32GtU => some (.relation .w32 .gtU)
  | .i32LeS => some (.relation .w32 .leS)
  | .i32LeU => some (.relation .w32 .leU)
  | .i32GeS => some (.relation .w32 .geS)
  | .i32GeU => some (.relation .w32 .geU)
  | .i64Eqz => some (.eqz .w64)
  | .i64Eq => some (.relation .w64 .eq)
  | .i64Ne => some (.relation .w64 .ne)
  | .i64LtS => some (.relation .w64 .ltS)
  | .i64LtU => some (.relation .w64 .ltU)
  | .i64GtS => some (.relation .w64 .gtS)
  | .i64GtU => some (.relation .w64 .gtU)
  | .i64LeS => some (.relation .w64 .leS)
  | .i64LeU => some (.relation .w64 .leU)
  | .i64GeS => some (.relation .w64 .geS)
  | .i64GeU => some (.relation .w64 .geU)
  | .i32Clz => some (.unary .w32 .clz)
  | .i32Ctz => some (.unary .w32 .ctz)
  | .i32Popcnt => some (.unary .w32 .popcnt)
  | .i32Add => some (.binary .w32 .add)
  | .i32Sub => some (.binary .w32 .sub)
  | .i32Mul => some (.binary .w32 .mul)
  | .i32DivS => some (.binary .w32 .divS)
  | .i32DivU => some (.binary .w32 .divU)
  | .i32RemS => some (.binary .w32 .remS)
  | .i32RemU => some (.binary .w32 .remU)
  | .i32And => some (.binary .w32 .and)
  | .i32Or => some (.binary .w32 .or)
  | .i32Xor => some (.binary .w32 .xor)
  | .i32Shl => some (.binary .w32 .shl)
  | .i32ShrS => some (.binary .w32 .shrS)
  | .i32ShrU => some (.binary .w32 .shrU)
  | .i32Rotl => some (.binary .w32 .rotl)
  | .i32Rotr => some (.binary .w32 .rotr)
  | .i64Clz => some (.unary .w64 .clz)
  | .i64Ctz => some (.unary .w64 .ctz)
  | .i64Popcnt => some (.unary .w64 .popcnt)
  | .i64Add => some (.binary .w64 .add)
  | .i64Sub => some (.binary .w64 .sub)
  | .i64Mul => some (.binary .w64 .mul)
  | .i64DivS => some (.binary .w64 .divS)
  | .i64DivU => some (.binary .w64 .divU)
  | .i64RemS => some (.binary .w64 .remS)
  | .i64RemU => some (.binary .w64 .remU)
  | .i64And => some (.binary .w64 .and)
  | .i64Or => some (.binary .w64 .or)
  | .i64Xor => some (.binary .w64 .xor)
  | .i64Shl => some (.binary .w64 .shl)
  | .i64ShrS => some (.binary .w64 .shrS)
  | .i64ShrU => some (.binary .w64 .shrU)
  | .i64Rotl => some (.binary .w64 .rotl)
  | .i64Rotr => some (.binary .w64 .rotr)
  | .i32WrapI64 => some .wrap
  | .i64ExtendSI32 => some .extendS
  | .i64ExtendUI32 => some .extendU
  | _ => none

/-- Whether values of a type are integers. -/
def ValueType.isInteger : ValueType → Bool
  | i32 | i64 => true
  | f32 | f64 => false

/-- The integer instructions are those with integer operands and an integer result. -/
lemma isSome_integer? (op : Numeric) :
    op.integer?.isSome = (op.shape.operand.isInteger && op.shape.result.isInteger) := by
  cases op <;> rfl

/-- Whether an instruction is an integer division or remainder. -/
def Numeric.isDivision (op : Numeric) : Bool :=
  match op.integer? with
  | some (.binary _ op) => op.isDivision
  | _ => false

/-- A truth value: one or zero. -/
def truth (p : Bool) : Value := .i32 (if p then 1 else 0)

namespace IntInstr

/-- The operands and the result of an instruction. -/
def shape : IntInstr → Numeric.Shape
  | eqz W => ⟨W.type, 1, .i32⟩
  | relation W _ => ⟨W.type, 2, .i32⟩
  | unary W _ => ⟨W.type, 1, W.type⟩
  | binary W _ => ⟨W.type, 2, W.type⟩
  | wrap => ⟨.i64, 1, .i32⟩
  | extendS | extendU => ⟨.i32, 1, .i64⟩

/-- What an instruction does with its operands, if they are as many and of the type that it
takes. -/
def meaning : IntInstr → List Value → Option (Except IntTrap Value)
  | eqz W, [v] => do
    let x ← W.bits? v
    return .ok (truth (x = 0#W.bits))
  | relation W op, [v, v'] => do
    let x ← W.bits? v
    let y ← W.bits? v'
    return .ok (truth (op.holds x y))
  | unary W op, [v] => do
    let x ← W.bits? v
    return .ok (W.value (op.apply x))
  | binary W op, [v, v'] => do
    let x ← W.bits? v
    let y ← W.bits? v'
    return (op.apply x y).map W.value
  | wrap, [v] => do
    let x ← Width.w64.bits? v
    return .ok (Width.w32.value (x.setWidth Width.w32.bits))
  | extendS, [v] => do
    let x ← Width.w32.bits? v
    return .ok (Width.w64.value (x.signExtend Width.w64.bits))
  | extendU, [v] => do
    let x ← Width.w32.bits? v
    return .ok (Width.w64.value (x.setWidth Width.w64.bits))
  | _, _ => none

end IntInstr

lemma shape_of_integer? {op : Numeric} {i : IntInstr} (h : op.integer? = some i) :
    op.shape = i.shape := by
  cases op <;> first | (cases h; rfl) | simp [Numeric.integer?] at h

/-- What a numeric instruction does with its operands, if it is an integer instruction. -/
def Numeric.meaning (op : Numeric) (args : List Value) : Option (Except IntTrap Value) :=
  op.integer?.bind fun i => i.meaning args

end WasmToC

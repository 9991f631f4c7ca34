import WasmToC.Wasm.Type

/-!
# Numeric instructions

Comparisons, arithmetic and conversions: the instructions that only take operands off the stack
and push one result. Their opcodes are the consecutive bytes from `45` to `BF`.

## Main definitions

* `Numeric` — the instructions, in opcode order.
* `Numeric.shape` — operand type, number of operands and result type.
* `Numeric.name` — the text name.
-/

namespace WasmToC

/-- A numeric instruction. -/
inductive Numeric where
  | i32Eqz | i32Eq | i32Ne | i32LtS | i32LtU | i32GtS | i32GtU | i32LeS | i32LeU | i32GeS
  | i32GeU | i64Eqz | i64Eq | i64Ne | i64LtS | i64LtU | i64GtS | i64GtU | i64LeS | i64LeU
  | i64GeS | i64GeU | f32Eq | f32Ne | f32Lt | f32Gt | f32Le | f32Ge | f64Eq | f64Ne | f64Lt
  | f64Gt | f64Le | f64Ge | i32Clz | i32Ctz | i32Popcnt | i32Add | i32Sub | i32Mul | i32DivS
  | i32DivU | i32RemS | i32RemU | i32And | i32Or | i32Xor | i32Shl | i32ShrS | i32ShrU | i32Rotl
  | i32Rotr | i64Clz | i64Ctz | i64Popcnt | i64Add | i64Sub | i64Mul | i64DivS | i64DivU
  | i64RemS | i64RemU | i64And | i64Or | i64Xor | i64Shl | i64ShrS | i64ShrU | i64Rotl | i64Rotr
  | f32Abs | f32Neg | f32Ceil | f32Floor | f32Trunc | f32Nearest | f32Sqrt | f32Add | f32Sub
  | f32Mul | f32Div | f32Min | f32Max | f32Copysign | f64Abs | f64Neg | f64Ceil | f64Floor
  | f64Trunc | f64Nearest | f64Sqrt | f64Add | f64Sub | f64Mul | f64Div | f64Min | f64Max
  | f64Copysign | i32WrapI64 | i32TruncSF32 | i32TruncUF32 | i32TruncSF64 | i32TruncUF64
  | i64ExtendSI32 | i64ExtendUI32 | i64TruncSF32 | i64TruncUF32 | i64TruncSF64 | i64TruncUF64
  | f32ConvertSI32 | f32ConvertUI32 | f32ConvertSI64 | f32ConvertUI64 | f32DemoteF64
  | f64ConvertSI32 | f64ConvertUI32 | f64ConvertSI64 | f64ConvertUI64 | f64PromoteF32
  | i32ReinterpretF32 | i64ReinterpretF64 | f32ReinterpretI32 | f64ReinterpretI64
  deriving DecidableEq, Repr, Inhabited

namespace Numeric

/-- Every numeric instruction, in opcode order. -/
def all : List Numeric := [
  .i32Eqz, .i32Eq, .i32Ne, .i32LtS, .i32LtU, .i32GtS, .i32GtU, .i32LeS, .i32LeU, .i32GeS,
  .i32GeU, .i64Eqz, .i64Eq, .i64Ne, .i64LtS, .i64LtU, .i64GtS, .i64GtU, .i64LeS, .i64LeU,
  .i64GeS, .i64GeU, .f32Eq, .f32Ne, .f32Lt, .f32Gt, .f32Le, .f32Ge, .f64Eq, .f64Ne, .f64Lt,
  .f64Gt, .f64Le, .f64Ge, .i32Clz, .i32Ctz, .i32Popcnt, .i32Add, .i32Sub, .i32Mul, .i32DivS,
  .i32DivU, .i32RemS, .i32RemU, .i32And, .i32Or, .i32Xor, .i32Shl, .i32ShrS, .i32ShrU, .i32Rotl,
  .i32Rotr, .i64Clz, .i64Ctz, .i64Popcnt, .i64Add, .i64Sub, .i64Mul, .i64DivS, .i64DivU,
  .i64RemS, .i64RemU, .i64And, .i64Or, .i64Xor, .i64Shl, .i64ShrS, .i64ShrU, .i64Rotl, .i64Rotr,
  .f32Abs, .f32Neg, .f32Ceil, .f32Floor, .f32Trunc, .f32Nearest, .f32Sqrt, .f32Add, .f32Sub,
  .f32Mul, .f32Div, .f32Min, .f32Max, .f32Copysign, .f64Abs, .f64Neg, .f64Ceil, .f64Floor,
  .f64Trunc, .f64Nearest, .f64Sqrt, .f64Add, .f64Sub, .f64Mul, .f64Div, .f64Min, .f64Max,
  .f64Copysign, .i32WrapI64, .i32TruncSF32, .i32TruncUF32, .i32TruncSF64, .i32TruncUF64,
  .i64ExtendSI32, .i64ExtendUI32, .i64TruncSF32, .i64TruncUF32, .i64TruncSF64, .i64TruncUF64,
  .f32ConvertSI32, .f32ConvertUI32, .f32ConvertSI64, .f32ConvertUI64, .f32DemoteF64,
  .f64ConvertSI32, .f64ConvertUI32, .f64ConvertSI64, .f64ConvertUI64, .f64PromoteF32,
  .i32ReinterpretF32, .i64ReinterpretF64, .f32ReinterpretI32, .f64ReinterpretI64]

/-- The text name. -/
def name : Numeric → String
  | i32Eqz => "i32.eqz"
  | i32Eq => "i32.eq"
  | i32Ne => "i32.ne"
  | i32LtS => "i32.lt_s"
  | i32LtU => "i32.lt_u"
  | i32GtS => "i32.gt_s"
  | i32GtU => "i32.gt_u"
  | i32LeS => "i32.le_s"
  | i32LeU => "i32.le_u"
  | i32GeS => "i32.ge_s"
  | i32GeU => "i32.ge_u"
  | i64Eqz => "i64.eqz"
  | i64Eq => "i64.eq"
  | i64Ne => "i64.ne"
  | i64LtS => "i64.lt_s"
  | i64LtU => "i64.lt_u"
  | i64GtS => "i64.gt_s"
  | i64GtU => "i64.gt_u"
  | i64LeS => "i64.le_s"
  | i64LeU => "i64.le_u"
  | i64GeS => "i64.ge_s"
  | i64GeU => "i64.ge_u"
  | f32Eq => "f32.eq"
  | f32Ne => "f32.ne"
  | f32Lt => "f32.lt"
  | f32Gt => "f32.gt"
  | f32Le => "f32.le"
  | f32Ge => "f32.ge"
  | f64Eq => "f64.eq"
  | f64Ne => "f64.ne"
  | f64Lt => "f64.lt"
  | f64Gt => "f64.gt"
  | f64Le => "f64.le"
  | f64Ge => "f64.ge"
  | i32Clz => "i32.clz"
  | i32Ctz => "i32.ctz"
  | i32Popcnt => "i32.popcnt"
  | i32Add => "i32.add"
  | i32Sub => "i32.sub"
  | i32Mul => "i32.mul"
  | i32DivS => "i32.div_s"
  | i32DivU => "i32.div_u"
  | i32RemS => "i32.rem_s"
  | i32RemU => "i32.rem_u"
  | i32And => "i32.and"
  | i32Or => "i32.or"
  | i32Xor => "i32.xor"
  | i32Shl => "i32.shl"
  | i32ShrS => "i32.shr_s"
  | i32ShrU => "i32.shr_u"
  | i32Rotl => "i32.rotl"
  | i32Rotr => "i32.rotr"
  | i64Clz => "i64.clz"
  | i64Ctz => "i64.ctz"
  | i64Popcnt => "i64.popcnt"
  | i64Add => "i64.add"
  | i64Sub => "i64.sub"
  | i64Mul => "i64.mul"
  | i64DivS => "i64.div_s"
  | i64DivU => "i64.div_u"
  | i64RemS => "i64.rem_s"
  | i64RemU => "i64.rem_u"
  | i64And => "i64.and"
  | i64Or => "i64.or"
  | i64Xor => "i64.xor"
  | i64Shl => "i64.shl"
  | i64ShrS => "i64.shr_s"
  | i64ShrU => "i64.shr_u"
  | i64Rotl => "i64.rotl"
  | i64Rotr => "i64.rotr"
  | f32Abs => "f32.abs"
  | f32Neg => "f32.neg"
  | f32Ceil => "f32.ceil"
  | f32Floor => "f32.floor"
  | f32Trunc => "f32.trunc"
  | f32Nearest => "f32.nearest"
  | f32Sqrt => "f32.sqrt"
  | f32Add => "f32.add"
  | f32Sub => "f32.sub"
  | f32Mul => "f32.mul"
  | f32Div => "f32.div"
  | f32Min => "f32.min"
  | f32Max => "f32.max"
  | f32Copysign => "f32.copysign"
  | f64Abs => "f64.abs"
  | f64Neg => "f64.neg"
  | f64Ceil => "f64.ceil"
  | f64Floor => "f64.floor"
  | f64Trunc => "f64.trunc"
  | f64Nearest => "f64.nearest"
  | f64Sqrt => "f64.sqrt"
  | f64Add => "f64.add"
  | f64Sub => "f64.sub"
  | f64Mul => "f64.mul"
  | f64Div => "f64.div"
  | f64Min => "f64.min"
  | f64Max => "f64.max"
  | f64Copysign => "f64.copysign"
  | i32WrapI64 => "i32.wrap/i64"
  | i32TruncSF32 => "i32.trunc_s/f32"
  | i32TruncUF32 => "i32.trunc_u/f32"
  | i32TruncSF64 => "i32.trunc_s/f64"
  | i32TruncUF64 => "i32.trunc_u/f64"
  | i64ExtendSI32 => "i64.extend_s/i32"
  | i64ExtendUI32 => "i64.extend_u/i32"
  | i64TruncSF32 => "i64.trunc_s/f32"
  | i64TruncUF32 => "i64.trunc_u/f32"
  | i64TruncSF64 => "i64.trunc_s/f64"
  | i64TruncUF64 => "i64.trunc_u/f64"
  | f32ConvertSI32 => "f32.convert_s/i32"
  | f32ConvertUI32 => "f32.convert_u/i32"
  | f32ConvertSI64 => "f32.convert_s/i64"
  | f32ConvertUI64 => "f32.convert_u/i64"
  | f32DemoteF64 => "f32.demote/f64"
  | f64ConvertSI32 => "f64.convert_s/i32"
  | f64ConvertUI32 => "f64.convert_u/i32"
  | f64ConvertSI64 => "f64.convert_s/i64"
  | f64ConvertUI64 => "f64.convert_u/i64"
  | f64PromoteF32 => "f64.promote/f32"
  | i32ReinterpretF32 => "i32.reinterpret/f32"
  | i64ReinterpretF64 => "i64.reinterpret/f64"
  | f32ReinterpretI32 => "f32.reinterpret/i32"
  | f64ReinterpretI64 => "f64.reinterpret/i64"

/-- Operand type, number of operands and result type of an instruction. -/
structure Shape where
  /-- The type of every operand. -/
  operand : ValueType
  /-- How many operands are taken. -/
  arity : Nat
  /-- The type of the result. -/
  result : ValueType
  deriving DecidableEq, Repr

/-- The shape of an instruction. -/
def shape : Numeric → Shape
  | i32Eqz | i32Clz | i32Ctz | i32Popcnt =>
    ⟨.i32, 1, .i32⟩
  | i32Eq | i32Ne | i32LtS | i32LtU | i32GtS | i32GtU | i32LeS | i32LeU | i32GeS | i32GeU
  | i32Add | i32Sub | i32Mul | i32DivS | i32DivU | i32RemS | i32RemU | i32And | i32Or | i32Xor
  | i32Shl | i32ShrS | i32ShrU | i32Rotl | i32Rotr =>
    ⟨.i32, 2, .i32⟩
  | i64Eqz | i32WrapI64 =>
    ⟨.i64, 1, .i32⟩
  | i64Eq | i64Ne | i64LtS | i64LtU | i64GtS | i64GtU | i64LeS | i64LeU | i64GeS | i64GeU =>
    ⟨.i64, 2, .i32⟩
  | f32Eq | f32Ne | f32Lt | f32Gt | f32Le | f32Ge =>
    ⟨.f32, 2, .i32⟩
  | f64Eq | f64Ne | f64Lt | f64Gt | f64Le | f64Ge =>
    ⟨.f64, 2, .i32⟩
  | i64Clz | i64Ctz | i64Popcnt =>
    ⟨.i64, 1, .i64⟩
  | i64Add | i64Sub | i64Mul | i64DivS | i64DivU | i64RemS | i64RemU | i64And | i64Or | i64Xor
  | i64Shl | i64ShrS | i64ShrU | i64Rotl | i64Rotr =>
    ⟨.i64, 2, .i64⟩
  | f32Abs | f32Neg | f32Ceil | f32Floor | f32Trunc | f32Nearest | f32Sqrt =>
    ⟨.f32, 1, .f32⟩
  | f32Add | f32Sub | f32Mul | f32Div | f32Min | f32Max | f32Copysign =>
    ⟨.f32, 2, .f32⟩
  | f64Abs | f64Neg | f64Ceil | f64Floor | f64Trunc | f64Nearest | f64Sqrt =>
    ⟨.f64, 1, .f64⟩
  | f64Add | f64Sub | f64Mul | f64Div | f64Min | f64Max | f64Copysign =>
    ⟨.f64, 2, .f64⟩
  | i32TruncSF32 | i32TruncUF32 | i32ReinterpretF32 =>
    ⟨.f32, 1, .i32⟩
  | i32TruncSF64 | i32TruncUF64 =>
    ⟨.f64, 1, .i32⟩
  | i64ExtendSI32 | i64ExtendUI32 =>
    ⟨.i32, 1, .i64⟩
  | i64TruncSF32 | i64TruncUF32 =>
    ⟨.f32, 1, .i64⟩
  | i64TruncSF64 | i64TruncUF64 | i64ReinterpretF64 =>
    ⟨.f64, 1, .i64⟩
  | f32ConvertSI32 | f32ConvertUI32 | f32ReinterpretI32 =>
    ⟨.i32, 1, .f32⟩
  | f32ConvertSI64 | f32ConvertUI64 =>
    ⟨.i64, 1, .f32⟩
  | f32DemoteF64 =>
    ⟨.f64, 1, .f32⟩
  | f64ConvertSI32 | f64ConvertUI32 =>
    ⟨.i32, 1, .f64⟩
  | f64ConvertSI64 | f64ConvertUI64 | f64ReinterpretI64 =>
    ⟨.i64, 1, .f64⟩
  | f64PromoteF32 =>
    ⟨.f32, 1, .f64⟩

/-- The opcode's distance from the first numeric opcode. -/
def position (n : Numeric) : Nat := n.ctorIdx

/-- Whether the instruction compares its operands: a test for zero counts as a comparison. -/
def isComparison (n : Numeric) : Bool := n.position < 34

/-- The type the text name starts with: a comparison is named for its operands, every other
instruction for its result. -/
def family (n : Numeric) : ValueType :=
  if n.isComparison then n.shape.operand else n.shape.result

end Numeric

end WasmToC

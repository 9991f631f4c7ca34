import WasmToC.Wasm.Numeric

/-!
# The C spelling of numeric instructions

Every numeric instruction is one C expression over its operands. Integer arithmetic goes through
the unsigned types, so that it wraps, and shift counts are reduced to the width.

## Main definitions

* `Numeric.spelling` — the template of an instruction; `$a` and `$b` stand for its operands.
-/

namespace WasmToC

/-- The C template of an instruction, with `$a` for the first operand and `$b` for the second. -/
def Numeric.spelling : Numeric → String
  | .i32Eqz | .i64Eqz => "(int32_t)($a == 0)"
  | .i32Eq | .i64Eq | .f32Eq | .f64Eq => "(int32_t)($a == $b)"
  | .i32Ne | .i64Ne | .f32Ne | .f64Ne => "(int32_t)($a != $b)"
  | .i32LtS | .i64LtS | .f32Lt | .f64Lt => "(int32_t)($a < $b)"
  | .i32LtU => "(int32_t)((uint32_t)$a < (uint32_t)$b)"
  | .i32GtS | .i64GtS | .f32Gt | .f64Gt => "(int32_t)($a > $b)"
  | .i32GtU => "(int32_t)((uint32_t)$a > (uint32_t)$b)"
  | .i32LeS | .i64LeS | .f32Le | .f64Le => "(int32_t)($a <= $b)"
  | .i32LeU => "(int32_t)((uint32_t)$a <= (uint32_t)$b)"
  | .i32GeS | .i64GeS | .f32Ge | .f64Ge => "(int32_t)($a >= $b)"
  | .i32GeU => "(int32_t)((uint32_t)$a >= (uint32_t)$b)"
  | .i64LtU => "(int32_t)((uint64_t)$a < (uint64_t)$b)"
  | .i64GtU => "(int32_t)((uint64_t)$a > (uint64_t)$b)"
  | .i64LeU => "(int32_t)((uint64_t)$a <= (uint64_t)$b)"
  | .i64GeU => "(int32_t)((uint64_t)$a >= (uint64_t)$b)"
  | .i32Clz => "wasm_rt_i32_clz($a)"
  | .i32Ctz => "wasm_rt_i32_ctz($a)"
  | .i32Popcnt => "wasm_rt_i32_popcnt($a)"
  | .i32Add => "(int32_t)((uint32_t)$a + (uint32_t)$b)"
  | .i32Sub => "(int32_t)((uint32_t)$a - (uint32_t)$b)"
  | .i32Mul => "(int32_t)((uint32_t)$a * (uint32_t)$b)"
  | .i32DivS | .i64DivS | .f32Div | .f64Div => "($a / $b)"
  | .i32DivU => "(int32_t)((uint32_t)$a / (uint32_t)$b)"
  | .i32RemS | .i64RemS => "($a % $b)"
  | .i32RemU => "(int32_t)((uint32_t)$a % (uint32_t)$b)"
  | .i32And | .i64And => "($a & $b)"
  | .i32Or | .i64Or => "($a | $b)"
  | .i32Xor | .i64Xor => "($a ^ $b)"
  | .i32Shl => "(int32_t)((uint32_t)$a << ($b & 31))"
  | .i32ShrS => "($a >> ($b & 31))"
  | .i32ShrU => "(int32_t)((uint32_t)$a >> ($b & 31))"
  | .i32Rotl => "wasm_rt_i32_rotl($a, $b)"
  | .i32Rotr => "wasm_rt_i32_rotr($a, $b)"
  | .i64Clz => "wasm_rt_i64_clz($a)"
  | .i64Ctz => "wasm_rt_i64_ctz($a)"
  | .i64Popcnt => "wasm_rt_i64_popcnt($a)"
  | .i64Add => "(int64_t)((uint64_t)$a + (uint64_t)$b)"
  | .i64Sub => "(int64_t)((uint64_t)$a - (uint64_t)$b)"
  | .i64Mul => "(int64_t)((uint64_t)$a * (uint64_t)$b)"
  | .i64DivU => "(int64_t)((uint64_t)$a / (uint64_t)$b)"
  | .i64RemU => "(int64_t)((uint64_t)$a % (uint64_t)$b)"
  | .i64Shl => "(int64_t)((uint64_t)$a << ($b & 63))"
  | .i64ShrS => "($a >> ($b & 63))"
  | .i64ShrU => "(int64_t)((uint64_t)$a >> ($b & 63))"
  | .i64Rotl => "wasm_rt_i64_rotl($a, $b)"
  | .i64Rotr => "wasm_rt_i64_rotr($a, $b)"
  | .f32Abs => "fabsf($a)"
  | .f32Neg | .f64Neg => "(-$a)"
  | .f32Ceil => "ceilf($a)"
  | .f32Floor => "floorf($a)"
  | .f32Trunc => "truncf($a)"
  | .f32Nearest => "nearbyintf($a)"
  | .f32Sqrt => "sqrtf($a)"
  | .f32Add | .f64Add => "($a + $b)"
  | .f32Sub | .f64Sub => "($a - $b)"
  | .f32Mul | .f64Mul => "($a * $b)"
  | .f32Min => "wasm_rt_f32_min($a, $b)"
  | .f32Max => "wasm_rt_f32_max($a, $b)"
  | .f32Copysign => "copysignf($a, $b)"
  | .f64Abs => "fabs($a)"
  | .f64Ceil => "ceil($a)"
  | .f64Floor => "floor($a)"
  | .f64Trunc => "trunc($a)"
  | .f64Nearest => "nearbyint($a)"
  | .f64Sqrt => "sqrt($a)"
  | .f64Min => "wasm_rt_f64_min($a, $b)"
  | .f64Max => "wasm_rt_f64_max($a, $b)"
  | .f64Copysign => "copysign($a, $b)"
  | .i32WrapI64 | .i32TruncUF32 | .i32TruncUF64 => "(int32_t)(uint32_t)$a"
  | .i32TruncSF32 | .i32TruncSF64 => "(int32_t)$a"
  | .i64ExtendSI32 | .i64TruncSF32 | .i64TruncSF64 => "(int64_t)$a"
  | .i64ExtendUI32 => "(int64_t)(uint32_t)$a"
  | .i64TruncUF32 | .i64TruncUF64 => "(int64_t)(uint64_t)$a"
  | .f32ConvertSI32 | .f32ConvertSI64 | .f32DemoteF64 => "(float)$a"
  | .f32ConvertUI32 => "(float)(uint32_t)$a"
  | .f32ConvertUI64 => "(float)(uint64_t)$a"
  | .f64ConvertSI32 | .f64ConvertSI64 | .f64PromoteF32 => "(double)$a"
  | .f64ConvertUI32 => "(double)(uint32_t)$a"
  | .f64ConvertUI64 => "(double)(uint64_t)$a"
  | .i32ReinterpretF32 => "wasm_rt_i32_reinterpret_f32($a)"
  | .i64ReinterpretF64 => "wasm_rt_i64_reinterpret_f64($a)"
  | .f32ReinterpretI32 => "wasm_rt_f32_reinterpret_i32($a)"
  | .f64ReinterpretI64 => "wasm_rt_f64_reinterpret_i64($a)"

end WasmToC

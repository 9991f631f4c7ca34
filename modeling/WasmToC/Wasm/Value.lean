import WasmToC.Decimal.FloatText
import WasmToC.Wasm.Type

/-!
# Values

Integers are fixed-width; floating-point numbers are kept as bit patterns, so that the payload of
a NaN and the sign of a zero survive.

## Main definitions

* `Value` — a value of one of the four types.
* `Value.text` — its text, as in `i32.const -3`.
-/

namespace WasmToC

/-- A value. -/
inductive Value where
  /-- A 32-bit integer. -/
  | i32 (v : Int32)
  /-- A 64-bit integer. -/
  | i64 (v : Int64)
  /-- The bits of a single precision number. -/
  | f32 (bits : UInt32)
  /-- The bits of a double precision number. -/
  | f64 (bits : UInt64)
  deriving DecidableEq

namespace Value

/-- The type of a value. -/
def type : Value → ValueType
  | i32 _ => .i32
  | i64 _ => .i64
  | f32 _ => .f32
  | f64 _ => .f64

/-- The text of a value. -/
def text : Value → String
  | i32 v => toString v.toInt
  | i64 v => toString v.toInt
  | f32 bits => FloatFormat.binary32.text bits.toNat
  | f64 bits => FloatFormat.binary64.text bits.toNat

end Value

end WasmToC

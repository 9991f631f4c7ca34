import WasmToC.Decimal.FloatText

/-!
# Minimum and maximum of floating-point numbers

Both work on bit patterns. A NaN among the operands gives the canonical NaN, and the negative
zero is below the positive one.

## Main definitions

* `FloatFormat.canonicalNaN` — the NaN that is returned.
* `FloatFormat.less` — the order of numbers that are not NaNs.
* `FloatFormat.minimum`, `FloatFormat.maximum`.
-/

namespace WasmToC.FloatFormat

variable (f : FloatFormat)

/-- The positive infinity. -/
def infinity : Nat := f.specialField * Nat.pow 2 f.fraction

/-- The quiet NaN without payload or sign. -/
def canonicalNaN : Nat := f.infinity + Nat.pow 2 (f.fraction - 1)

/-- A number that orders bit patterns, NaNs apart, like the numbers they stand for. -/
def rank (bits : Nat) : Int :=
  if f.negative bits then -(f.magnitude bits : Int) else f.magnitude bits

/-- Whether one number is below another; both zeros are equal. -/
def less (a b : Nat) : Bool := f.rank a < f.rank b

/-- The smaller number. -/
def minimum (a b : Nat) : Nat :=
  if f.isNaN a || f.isNaN b then f.canonicalNaN
  else if f.isZero a && f.isZero b then if f.negative a then a else b
  else if f.less a b then a else b

/-- The larger number. -/
def maximum (a b : Nat) : Nat :=
  if f.isNaN a || f.isNaN b then f.canonicalNaN
  else if f.isZero a && f.isZero b then if f.negative a then b else a
  else if f.less b a then a else b

end WasmToC.FloatFormat

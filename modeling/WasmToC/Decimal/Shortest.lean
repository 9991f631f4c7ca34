/-!
# Shortest decimals

The decimal with the fewest digits inside the interval of reals that round to a given binary
floating-point number. Of the decimals with that many digits the nearest one is taken, and of
two equally near ones the larger. All arithmetic is exact, on natural numbers.

## Main definitions

* `Decimal` — a digit string with a power of ten.
* `Rounding` — the interval of reals that round to one binary number.
* `Rounding.shortest` — its shortest decimal.
-/

namespace WasmToC

/-- The number `digits * 10 ^ exponent`. -/
structure Decimal where
  /-- The significant digits, read as one number. -/
  digits : Nat
  /-- The power of ten of the last digit. -/
  exponent : Int
  deriving DecidableEq, Repr

/-- The reals that round to the value `mid / den`: those between `low / den` and `high / den`,
the ends included when `closed`. -/
structure Rounding where
  /-- Lower end. -/
  low : Nat
  /-- The value itself. -/
  mid : Nat
  /-- Upper end. -/
  high : Nat
  /-- The common denominator. -/
  den : Nat
  /-- Whether the ends round to the value as well. -/
  closed : Bool
  deriving Repr

namespace Rounding

/-- The interval around `mantissa * 2 ^ exponent`. Its lower half is half as wide when the
mantissa is a power of two (`narrow`), because the numbers below lie twice as densely. -/
def around (mantissa : Nat) (exponent : Int) (narrow : Bool) : Rounding :=
  let up := Nat.pow 2 (exponent - 2).toNat
  let down := Nat.pow 2 (2 - exponent).toNat
  { low := (4 * mantissa - if narrow then 1 else 2) * up
    mid := 4 * mantissa * up
    high := (4 * mantissa + 2) * up
    den := down
    closed := mantissa % 2 = 0 }

/-- The number of decimal digits of `n` (none for zero). -/
def digitCount (n : Nat) : Nat := if n = 0 then 0 else (Nat.toDigits 10 n).length

/-- How many of `fuel` multiplications by ten leave `num / den` below one. -/
def zerosBelow : (fuel num den : Nat) → Nat
  | 0, _, _ => 0
  | fuel + 1, num, den => if 10 * num < den then zerosBelow fuel (10 * num) den + 1 else 0

/-- The `k` with `10 ^ (k - 1) ≤ mid / den < 10 ^ k`. -/
def magnitude (r : Rounding) : Int :=
  let whole := r.mid / r.den
  if whole = 0 then - (zerosBelow r.den r.mid r.den : Int)
  else digitCount whole

/-- Multiplies a number by ten to the power `n`, or by one when `n` is negative. -/
def scaleUp (n : Int) (x : Nat) : Nat := x * Nat.pow 10 n.toNat

/-- The decimal of the grid `10 ^ t` that lies in the interval and is nearest to the value, if
there is one; the larger of two equally near ones. -/
def onGrid? (r : Rounding) (t : Int) : Option Nat :=
  let unit := scaleUp t r.den
  let low := scaleUp (-t) r.low
  let mid := scaleUp (-t) r.mid
  let high := scaleUp (-t) r.high
  let below := mid / unit
  let above := below + 1
  let lowHit := if r.closed then low ≤ below * unit else low < below * unit
  let highHit := if r.closed then above * unit ≤ high else above * unit < high
  if highHit && (!lowHit || unit ≤ 2 * (mid - below * unit)) then some above
  else if lowHit then some below
  else none

/-- Moves trailing zeros of the digits into the exponent, at most `fuel` of them. -/
def strip : (fuel : Nat) → Decimal → Decimal
  | 0, d => d
  | fuel + 1, d =>
    if d.digits % 10 = 0 ∧ d.digits ≠ 0 then strip fuel ⟨d.digits / 10, d.exponent + 1⟩ else d

/-- The shortest decimal in the interval, sought with up to `most` digits. -/
def shortest (r : Rounding) (most : Nat) : Decimal :=
  let k := r.magnitude
  let tries := (List.range most).map fun (n : Nat) => k - 1 - (n : Int)
  match tries.findSome? fun t => (r.onGrid? t).map fun d => (⟨d, t⟩ : Decimal) with
  | some d => strip most d
  | none => ⟨0, 0⟩

end Rounding

end WasmToC

import WasmToC.Decimal.Shortest

/-!
# The text of floating-point numbers

A floating-point number is kept as its bit pattern. Its text has the fewest digits that read
back to it and is always positional: no exponent, no point in an integer.

## Main definitions

* `FloatFormat` — the field widths of an interchange format.
* `FloatFormat.text` — the text of a bit pattern.
* `Decimal.text` — a decimal in positional notation.
-/

namespace WasmToC

/-- A decimal in positional notation. -/
def Decimal.text (d : Decimal) : String :=
  let digits := Nat.toDigits 10 d.digits
  if 0 ≤ d.exponent then
    String.ofList (digits ++ List.replicate d.exponent.toNat '0')
  else
    let places := (-d.exponent).toNat
    if places < digits.length then
      String.ofList (digits.take (digits.length - places)) ++ "." ++
        String.ofList (digits.drop (digits.length - places))
    else
      "0." ++ String.ofList (List.replicate (places - digits.length) '0' ++ digits)

/-- The field widths of a binary interchange format. -/
structure FloatFormat where
  /-- Stored bits of the significand. -/
  fraction : Nat
  /-- Bits of the exponent field. -/
  exponent : Nat
  /-- A number of decimal digits that suffices for every value. -/
  digits : Nat
  deriving DecidableEq, Repr

namespace FloatFormat

/-- Single precision. -/
def binary32 : FloatFormat := ⟨23, 8, 9⟩

/-- Double precision. -/
def binary64 : FloatFormat := ⟨52, 11, 17⟩

variable (f : FloatFormat) (bits : Nat)

/-- The stored significand bits. -/
def fractionField : Nat := bits % Nat.pow 2 f.fraction

/-- The exponent field. -/
def exponentField : Nat := bits / Nat.pow 2 f.fraction % Nat.pow 2 f.exponent

/-- The sign bit. -/
def negative : Bool := bits / Nat.pow 2 (f.fraction + f.exponent) % 2 = 1

/-- The bits without the sign. -/
def magnitude : Nat := bits % Nat.pow 2 (f.fraction + f.exponent)

/-- The exponent field of infinities and NaNs. -/
def specialField : Nat := Nat.pow 2 f.exponent - 1

/-- Whether the pattern is a NaN. -/
def isNaN : Bool := f.exponentField bits = f.specialField && f.fractionField bits ≠ 0

/-- Whether the pattern is a zero of either sign. -/
def isZero : Bool := f.magnitude bits = 0

/-- The decimal of a positive finite magnitude. -/
def decimal : Decimal :=
  let field := f.exponentField bits
  let stored := f.fractionField bits
  let least : Int := 2 - (Nat.pow 2 (f.exponent - 1) : Nat) - f.fraction
  if field = 0 then (Rounding.around stored least false).shortest f.digits
  else
    let whole := Nat.pow 2 f.fraction + stored
    (Rounding.around whole (least + field - 1) (stored = 0)).shortest f.digits

/-- The text of a bit pattern: every NaN is `NaN`, and the sign of a zero is kept. -/
def text : String :=
  if f.isNaN bits then "NaN"
  else
    let sign := if f.negative bits then "-" else ""
    if f.exponentField bits = f.specialField then sign ++ "inf"
    else if f.isZero bits then sign ++ "0"
    else sign ++ (f.decimal bits).text

end FloatFormat

end WasmToC

/-!
# Fixed-width hexadecimal and quoted text

Number and string spellings shared by messages, log records and the emitted C.

## Main definitions

* `Text.hexFixed` — a number in lowercase hexadecimal, in a given number of digits.
* `Text.hexByte` — a byte as `0x` and two digits.
* `Text.bracketed` — a list of numbers between square brackets.
* `Text.quoted` — a string between double quotes, control characters escaped.
-/

namespace WasmToC.Text

/-- The lowercase hexadecimal digit of `n % 16`. -/
def hexDigit (n : Nat) : Char :=
  let d := n % 16
  if d < 10 then Char.ofNat (48 + d) else Char.ofNat (87 + d)

/-- The `width` lowest hexadecimal digits of `n`, most significant first. -/
def hexDigits : (width n : Nat) → List Char
  | 0, _ => []
  | width + 1, n => hexDigits width (n / 16) ++ [hexDigit n]

/-- `n` in exactly `width` lowercase hexadecimal digits. -/
def hexFixed (width n : Nat) : String := String.ofList (hexDigits width n)

/-- A byte as `0x` and two hexadecimal digits. -/
def hexByte (b : UInt8) : String := "0x" ++ hexFixed 2 b.toNat

/-- Numbers separated by a comma and a blank, between square brackets. -/
def bracketed (ns : List Nat) : String :=
  "[" ++ ", ".intercalate (ns.map toString) ++ "]"

/-- The lowercase hexadecimal digits of `n` without leading zeros. -/
def hexPlain (n : Nat) : String := String.ofList (Nat.toDigits 16 n)

/-- One character of a quoted string: the quote, the backslash and control characters are
written as escapes. -/
def quotedChar (c : Char) : String :=
  if c = '"' then "\\\""
  else if c = '\\' then "\\\\"
  else if c = '\n' then "\\n"
  else if c = '\r' then "\\r"
  else if c = '\t' then "\\t"
  else if c.toNat = 0 then "\\0"
  else if c.toNat < 32 || c.toNat = 127 then "\\u\x7b" ++ hexPlain c.toNat ++ "\x7d"
  else c.toString

/-- A string between double quotes. -/
def quoted (s : String) : String :=
  "\"" ++ String.join (s.toList.map quotedChar) ++ "\""

end WasmToC.Text

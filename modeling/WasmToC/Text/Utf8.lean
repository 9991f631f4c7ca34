/-!
# UTF-8

Decoding of names, with the position and the length of the first fault.

## Main definitions

* `Utf8.Fault` — where valid text ends, and how many bytes are at fault there.
* `Utf8.decode` — the characters of a byte string, or its first fault.
* `Utf8.encode` — the bytes of a string.
-/

namespace WasmToC.Utf8

/-- The first fault of a byte string. -/
structure Fault where
  /-- Length in bytes of the longest valid prefix. -/
  validUpTo : Nat
  /-- How many bytes from there on are at fault; `none` when the input ends inside a sequence
  that is valid so far. -/
  badLength : Option Nat
  deriving DecidableEq, Repr

/-- The wording of a fault. -/
def Fault.message (f : Fault) : String :=
  match f.badLength with
  | some n => s!"invalid utf-8 sequence of {n} bytes from index {f.validUpTo}"
  | none => s!"incomplete utf-8 byte sequence from index {f.validUpTo}"

/-- A continuation byte: `80..BF`. -/
def isTail (b : UInt8) : Bool := 0x80 ≤ b && b ≤ 0xBF

/-- The lead byte of a two-byte sequence. -/
def isLead2 (b : UInt8) : Bool := 0xC2 ≤ b && b ≤ 0xDF

/-- The lead byte of a three-byte sequence. -/
def isLead3 (b : UInt8) : Bool := 0xE0 ≤ b && b ≤ 0xEF

/-- The lead byte of a four-byte sequence. -/
def isLead4 (b : UInt8) : Bool := 0xF0 ≤ b && b ≤ 0xF4

/-- The second byte of a three-byte sequence: overlong forms and surrogates are excluded here. -/
def isSecond3 (lead b : UInt8) : Bool :=
  if lead = 0xE0 then 0xA0 ≤ b && b ≤ 0xBF
  else if lead = 0xED then 0x80 ≤ b && b ≤ 0x9F
  else isTail b

/-- The second byte of a four-byte sequence: overlong forms and code points above `10FFFF` are
excluded here. -/
def isSecond4 (lead b : UInt8) : Bool :=
  if lead = 0xF0 then 0x90 ≤ b && b ≤ 0xBF
  else if lead = 0xF4 then 0x80 ≤ b && b ≤ 0x8F
  else isTail b

/-- The six payload bits of a continuation byte. -/
def tailBits (b : UInt8) : Nat := b.toNat % 64

/-- Decodes the bytes that stand at offset `i` of a longer input. -/
def decodeFrom (i : Nat) : List UInt8 → Except Fault (List Char)
  | [] => .ok []
  | b :: rest =>
    if b < 0x80 then do
      return Char.ofNat b.toNat :: (← decodeFrom (i + 1) rest)
    else if isLead2 b then
      match rest with
      | [] => .error ⟨i, none⟩
      | c :: rest =>
        if isTail c then do
          return Char.ofNat (b.toNat % 32 * 64 + tailBits c) :: (← decodeFrom (i + 2) rest)
        else .error ⟨i, some 1⟩
    else if isLead3 b then
      match rest with
      | [] => .error ⟨i, none⟩
      | c :: rest =>
        if isSecond3 b c then
          match rest with
          | [] => .error ⟨i, none⟩
          | d :: rest =>
            if isTail d then do
              return Char.ofNat (b.toNat % 16 * 4096 + tailBits c * 64 + tailBits d)
                :: (← decodeFrom (i + 3) rest)
            else .error ⟨i, some 2⟩
        else .error ⟨i, some 1⟩
    else if isLead4 b then
      match rest with
      | [] => .error ⟨i, none⟩
      | c :: rest =>
        if isSecond4 b c then
          match rest with
          | [] => .error ⟨i, none⟩
          | d :: rest =>
            if isTail d then
              match rest with
              | [] => .error ⟨i, none⟩
              | e :: rest =>
                if isTail e then do
                  return Char.ofNat
                      (b.toNat % 8 * 262144 + tailBits c * 4096 + tailBits d * 64 + tailBits e)
                    :: (← decodeFrom (i + 4) rest)
                else .error ⟨i, some 3⟩
            else .error ⟨i, some 2⟩
        else .error ⟨i, some 1⟩
    else .error ⟨i, some 1⟩

/-- The text a byte string encodes, or its first fault. -/
def decode (bytes : List UInt8) : Except Fault String :=
  (decodeFrom 0 bytes).map String.ofList

/-- The bytes of a string. -/
def encode (s : String) : List UInt8 := s.toList.flatMap String.utf8EncodeChar

end WasmToC.Utf8

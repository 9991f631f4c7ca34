/-!
# Bit intrinsics

Counting and rotating bits, by the loops and shifts of the support header, at any width.

## Main definitions

* `Support.leadingZeros`, `trailingZeros`, `popCount` — counting.
* `Support.rotateLeft`, `rotateRight` — rotation by a count modulo the width, if its shifts are
  defined.
-/

namespace WasmToC.Support

variable {w : Nat}

/-- Shifts left until the top bit is set, at most `fuel` times, and counts the shifts. -/
def leadingLoop : (fuel : Nat) → BitVec w → Nat → Nat
  | 0, _, count => count
  | fuel + 1, x, count => if x.msb then count else leadingLoop fuel (x <<< 1) (count + 1)

/-- The number of leading zero bits; the width for zero. -/
def leadingZeros (x : BitVec w) : Nat := if x = 0 then w else leadingLoop w x 0

/-- Shifts right until the lowest bit is set, at most `fuel` times, and counts the shifts. -/
def trailingLoop : (fuel : Nat) → BitVec w → Nat → Nat
  | 0, _, count => count
  | fuel + 1, x, count => if x.getLsbD 0 then count else trailingLoop fuel (x >>> 1) (count + 1)

/-- The number of trailing zero bits; the width for zero. -/
def trailingZeros (x : BitVec w) : Nat := if x = 0 then w else trailingLoop w x 0

/-- Clears the lowest set bit until none is left, at most `fuel` times, and counts. -/
def popLoop : (fuel : Nat) → BitVec w → Nat → Nat
  | 0, _, count => count
  | fuel + 1, x, count => if x = 0 then count else popLoop fuel (x &&& (x - 1)) (count + 1)

/-- The number of bits that are set. -/
def popCount (x : BitVec w) : Nat := popLoop w x 0

/-- A shift to the left. Only a count below the width is defined. -/
def shiftLeft? (x k : BitVec w) : Option (BitVec w) :=
  if k.toNat < w then some (x <<< k.toNat) else none

/-- A shift to the right. Only a count below the width is defined. -/
def shiftRight? (x k : BitVec w) : Option (BitVec w) :=
  if k.toNat < w then some (x >>> k.toNat) else none

/-- The bits of a count that are below the width, which is a power of two. -/
def masked (c : BitVec w) : BitVec w := c &&& BitVec.ofNat w (w - 1)

/-- Rotation to the left. A count that is a multiple of the width shifts by nothing. -/
def rotateLeft (x c : BitVec w) : Option (BitVec w) := do
  let k := masked c
  return (← shiftLeft? x k) ||| (← shiftRight? x (masked (BitVec.ofNat w w - k)))

/-- Rotation to the right. A count that is a multiple of the width shifts by nothing. -/
def rotateRight (x c : BitVec w) : Option (BitVec w) := do
  let k := masked c
  return (← shiftRight? x k) ||| (← shiftLeft? x (masked (BitVec.ofNat w w - k)))

end WasmToC.Support

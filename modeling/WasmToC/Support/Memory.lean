import WasmToC.Wasm.Access

/-!
# Linear memory

The memory that emitted code works on. It is counted in pages of 64 KiB. A relocation base is
subtracted from every address; accesses below it or past the end trap.

## Main definitions

* `Support.Trap` — why a call does not return.
* `Support.Memory` — a memory.
* `Support.Memory.create`, `grow`, `load`, `store` — what can be done with it.
-/

namespace WasmToC.Support

/-- Why a call does not return. -/
inductive Trap where
  /-- An `unreachable` instruction. -/
  | unreachable
  /-- An access out of bounds. -/
  | outOfBounds
  /-- An indirect call. -/
  | indirectCall
  /-- A code without a name. -/
  | other (code : Int)
  deriving DecidableEq, Repr

namespace Trap

/-- The trap of a code. -/
def ofCode (code : Int) : Trap :=
  if code = 1 then unreachable
  else if code = 2 then outOfBounds
  else if code = 3 then indirectCall
  else other code

/-- What is said when the trap happens. -/
def message : Trap → String
  | unreachable => "wasm trap: unreachable executed"
  | outOfBounds => "wasm trap: out of bounds access"
  | indirectCall => "wasm trap: indirect calls are not supported"
  | other code => "wasm trap: " ++ toString code

end Trap

/-- The bytes of a page. -/
def pageSize : Nat := 65536

/-- The largest number of pages. -/
def maxPages : Nat := 65536

/-- Allocated bytes. -/
structure Buffer where
  /-- How many bytes there are. -/
  size : Nat
  /-- The byte at each position. -/
  byte : Nat → UInt8

/-- A memory. -/
structure Memory where
  /-- Its bytes. -/
  buffer : Buffer := ⟨0, fun _ => 0⟩
  /-- Its size in pages. -/
  pages : Nat := 0
  /-- The number of pages it may grow to. -/
  maximum : Nat := 0
  /-- The address that stands for the first byte. -/
  base : Nat := 0

namespace Memory

/-- Sets up a memory of zeros, replacing the one before; the base stays. -/
def create (m : Memory) (initial maximum : Nat) : Except Trap Memory :=
  let maximum := min maximum maxPages
  if maximum < initial then .error .outOfBounds
  else .ok { m with buffer := ⟨initial * pageSize, fun _ => 0⟩, pages := initial, maximum }

/-- Grows the memory by a number of pages and returns its size before, or -1 when it cannot
grow. New bytes are zero. -/
def grow (m : Memory) (delta : Int) : Int × Memory :=
  let wanted := m.pages + delta.toNat
  if delta < 0 ∨ m.maximum < wanted then (-1, m)
  else if delta = 0 then (m.pages, m)
  else
    let old := m.buffer
    let byte := fun i => if i < m.pages * pageSize then old.byte i else 0
    (m.pages, { m with buffer := ⟨wanted * pageSize, byte⟩, pages := wanted })

/-- The position in the buffer of an access of `width` bytes at `address + offset`, a sum that
does not wrap. -/
def locate (m : Memory) (address offset width : Nat) : Except Trap Nat :=
  let effective := address + offset
  if effective < m.base then .error .outOfBounds
  else if m.pages * pageSize < effective - m.base + width then .error .outOfBounds
  else .ok (effective - m.base)

/-- The number made of `width` bytes from a position on, least significant byte first. -/
def fetch (byte : Nat → UInt8) (position : Nat) : (width : Nat) → Nat
  | 0 => 0
  | width + 1 => (byte position).toNat + 256 * fetch byte (position + 1) width

/-- The bytes with `width` of them, from a position on, replaced by those of a number, least
significant byte first. -/
def deposit (byte : Nat → UInt8) (position width bits : Nat) : Nat → UInt8 := fun i =>
  if position ≤ i ∧ i < position + width then UInt8.ofNat (bits / Nat.pow 256 (i - position))
  else byte i

/-- What a load gives. -/
def load (m : Memory) (op : Load) (address offset : Nat) : Except Trap Value := do
  let position ← m.locate address offset op.width
  return op.value (fetch m.buffer.byte position op.width)

/-- The memory after a store. -/
def store (m : Memory) (op : Store) (address offset : Nat) (v : Value) : Except Trap Memory := do
  let position ← m.locate address offset op.width
  let byte := deposit m.buffer.byte position op.width (op.bits v)
  return { m with buffer := ⟨m.buffer.size, byte⟩ }

end Memory

end WasmToC.Support

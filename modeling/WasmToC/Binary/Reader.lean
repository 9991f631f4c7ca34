import WasmToC.Log

/-!
# Readers and decoders

A reader takes a value off the front of a source, or fails. A decoder does the same and keeps a
log.

## Main definitions

* `Reader`, `Decoder`.
* `Reader.varuint`, `Reader.varint` — variable-length integers.
* `Reader.name` — a length-prefixed UTF-8 string.
* `Reader.littleEndian` — a fixed-width number.
* `Decoder.within` — decoding inside a declared length.
-/

namespace WasmToC

/-- Takes a value off the front of a source. -/
abbrev Reader := StateT Source (Except Failure)

/-- Takes a value off the front of a source and keeps a log. -/
abbrev Decoder := StateT Source Traced

namespace Reader

variable {α : Type}

/-- Fails with an error. -/
def fail (e : Error) : Reader α := fun _ => .error (.error e)

/-- Stops without a diagnosis. -/
def abort : Reader α := fun _ => .error .abort

/-- The failure of a read of single bytes at the end of a source. -/
def shortRead : Ending → Failure
  | .clean => .error (.io ⟨true, "failed to fill whole buffer"⟩)
  | .broken f => .error (.io f)

/-- One byte. -/
def byte : Reader UInt8 := fun s =>
  match s.next with
  | .ok r => .ok r
  | .error e => .error (shortRead e)

/-- A number of `n` bytes, least significant byte first. -/
def littleEndian : (n : Nat) → Reader Nat
  | 0 => pure 0
  | n + 1 => do
    let low ← byte
    let high ← littleEndian n
    return low.toNat + 256 * high

/-- An unsigned variable-length integer of at most `bits` bits. -/
def varuint (bits : Nat) : Reader Nat := fun s =>
  match Varint.unsigned bits s with
  | (.ok v, s) => .ok (v, s)
  | (.error e, _) => .error (.error (.ofVarint e))

/-- A signed variable-length integer of at most `bits` bits. -/
def varint (bits : Nat) : Reader Int := fun s =>
  match Varint.signed bits s with
  | (.ok v, s) => .ok (v, s)
  | (.error e, _) => .error (.error (.ofVarint e))

/-- A one-bit varint. -/
def flag : Reader Bool := do return (← varuint 1) == 1

/-- Exactly `n` bytes. -/
def bytes (n : Nat) : Reader (List UInt8) := fun s =>
  match s.take n with
  | .ok r => .ok r
  | .error .clean => .error (.error (.io ⟨true, "unexpected end of file"⟩))
  | .error (.broken f) => .error (.error (.io f))

/-- A length-prefixed UTF-8 string. -/
def name : Reader String := do
  let length ← varuint 32
  let content ← bytes length
  match Utf8.decode content with
  | .ok text => return text
  | .error f => fail (.malformed (.name f))

/-- Discards whatever is left, and says how much it was. -/
def skip : Reader Nat := fun s =>
  match s.ending with
  | .clean => .ok (s.rest.length, { s with rest := [] })
  | .broken f => .error (.error (.io f))

/-- Reads `n` values one after the other. -/
def many (r : Reader α) : (n : Nat) → Reader (List α)
  | 0 => pure []
  | n + 1 => do
    let first ← r
    let others ← many r n
    return first :: others

end Reader

namespace Decoder

variable {α σ : Type}

instance : MonadLift Reader Decoder where
  monadLift r := fun s => Traced.ofExcept (r s)

/-- Writes one record. -/
def note (level : Level) (text : String) : Decoder Unit := fun s =>
  Traced.note level text >>= fun _ => pure ((), s)

/-- Fails with an error. -/
def fail (e : Error) : Decoder α := fun _ => Traced.fail e

/-- Stops without a diagnosis. -/
def abort : Decoder α := fun _ => Traced.ofExcept (.error .abort)

/-- Changes the error of a failed decoder. -/
def mapError (f : Error → Error) (d : Decoder α) : Decoder α := fun s => (d s).mapError f

/-- Runs a decoder inside a declared length of `n` bytes, and says how many of them it left
unread. -/
def within (n : Nat) (d : Decoder α) : Decoder (α × Nat) := fun s => do
  let (a, inner) ← d (s.region n)
  return ((a, s.unread n inner), s.leave n inner)

/-- Runs a step `n` times, handing its result on. -/
def iterate (step : σ → Decoder σ) : (n : Nat) → σ → Decoder σ
  | 0, x => pure x
  | n + 1, x => do
    let x ← step x
    iterate step n x

end Decoder

end WasmToC

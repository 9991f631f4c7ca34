import WasmToC.Binary.Source

/-!
# Variable-length integers

Base-128 integers, least significant group first. Every byte but the last has its high bit set.
An integer of `bits` bits takes at most `⌈bits / 7⌉` bytes, and what the last permitted byte holds
beyond the width must be zero, or for signed integers copies of the sign.

## Main definitions

* `Varint.unsigned`, `Varint.signed` — reading; both return the source behind the
  last byte read, also when they fail.
* `Varint.writeUnsigned`, `Varint.writeSigned` — the shortest encodings.
* `Varint.Error` — why a read fails.
-/

namespace WasmToC.Varint

/-- What is wrong with the bytes of a varint. -/
inductive Malformed where
  /-- The last permitted byte has value bits beyond the width. -/
  | tooWide
  /-- The last permitted byte asks for another one. -/
  | tooLong
  /-- A fault described by the caller. -/
  | stated (text : String)
  deriving DecidableEq, Repr

/-- The wording of a fault. -/
def Malformed.text : Malformed → String
  | tooWide => "value is wider than the encoding allows"
  | tooLong => "continue flag present beyond max bits to read"
  | stated text => text

/-- Why a varint cannot be read. -/
inductive Error where
  /-- The input ends first. -/
  | unexpectedEnd
  /-- The bytes are no encoding. -/
  | malformed (why : Malformed)
  /-- A read fails. -/
  | io (f : IoFault)
  deriving DecidableEq, Repr

namespace Error

/-- A failed read inside a varint; one that says that the input ended is an early end. -/
def ofFault (f : IoFault) : Error := if f.atEnd then unexpectedEnd else io f

/-- Meeting the end of a source inside a varint. -/
def ofEnding : Ending → Error
  | .clean => unexpectedEnd
  | .broken f => ofFault f

/-- The wording of an error. -/
def message : Error → String
  | unexpectedEnd => "stream ended inside a varint"
  | malformed why => "malformed varint: " ++ why.text
  | io f => "failed reading varint: " ++ f.text

/-- The failed read behind an error. -/
def cause? : Error → Option IoFault
  | io f => some f
  | _ => none

end Error

/-- The seven value bits of a byte. -/
def group (b : UInt8) : Nat := b.toNat % 128

/-- Whether a byte asks for another one. -/
def continues (b : UInt8) : Bool := 128 ≤ b.toNat

/-- A group read as a seven-bit two's complement number. -/
def signedGroup (b : UInt8) : Int :=
  if 64 ≤ group b then (group b : Int) - 128 else group b

/-- Reads an unsigned varint of at most `bits` bits. -/
def unsigned (bits : Nat) (s : Source) : Except Error Nat × Source :=
  match s.next with
  | .error e => (.error (.ofEnding e), s)
  | .ok (b, s) =>
    if Nat.pow 2 bits ≤ group b then (.error (.malformed .tooWide), s)
    else if !continues b then (.ok (group b), s)
    else if bits ≤ 7 then (.error (.malformed .tooLong), s)
    else
      match unsigned (bits - 7) s with
      | (.ok high, s) => (.ok (group b + 128 * high), s)
      | (.error e, s) => (.error e, s)
termination_by bits

/-- Whether a number fits into `bits` bits in two's complement. -/
def fitsSigned (bits : Nat) (v : Int) : Bool :=
  let half : Int := (Nat.pow 2 (bits - 1) : Nat)
  v < half && -half ≤ v

/-- Reads a signed varint of at most `bits` bits. -/
def signed (bits : Nat) (s : Source) : Except Error Int × Source :=
  match s.next with
  | .error e => (.error (.ofEnding e), s)
  | .ok (b, s) =>
    if !fitsSigned bits (signedGroup b) then (.error (.malformed .tooWide), s)
    else if !continues b then (.ok (signedGroup b), s)
    else if bits ≤ 7 then (.error (.malformed .tooLong), s)
    else
      match signed (bits - 7) s with
      | (.ok high, s) => (.ok ((group b : Int) + 128 * high), s)
      | (.error e, s) => (.error e, s)
termination_by bits

/-- Whether varints can have this width. -/
def isWidth (bits : Nat) : Bool := 1 ≤ bits && bits ≤ 64

/-- A request for one varint. -/
structure Request where
  /-- The width in bits. -/
  bits : Nat
  /-- Whether the integer is signed. -/
  isSigned : Bool
  deriving DecidableEq, Repr

/-- Reads one varint of either kind. -/
def Request.read (r : Request) (s : Source) : Except Error Int × Source :=
  if r.isSigned then signed r.bits s
  else
    match unsigned r.bits s with
    | (.ok v, s) => (.ok v, s)
    | (.error e, s) => (.error e, s)

/-- Reads varints one after the other, going on after a failure from where it stopped. There is
no answer when a width is out of range. -/
def readAll : List Request → Source → Option (List (Except Error Int) × Source)
  | [], s => some ([], s)
  | r :: rs, s =>
    if isWidth r.bits then
      let (first, s) := r.read s
      (readAll rs s).map fun (others, s) => (first :: others, s)
    else none

/-- The shortest encoding of a natural number. -/
def writeUnsigned (v : Nat) : List UInt8 :=
  if v < 128 then [UInt8.ofNat v]
  else UInt8.ofNat (v % 128 + 128) :: writeUnsigned (v / 128)
termination_by v

/-- The shortest encoding of an integer. -/
def writeSigned (v : Int) : List UInt8 :=
  if -64 ≤ v ∧ v < 64 then [UInt8.ofNat (v % 128).toNat]
  else UInt8.ofNat ((v % 128).toNat + 128) :: writeSigned (v / 128)
termination_by v.natAbs
decreasing_by omega

end WasmToC.Varint

import WasmToC.Support.Bits
import WasmToC.Support.Extremum
import WasmToC.Support.Table

/-!
# The support library as a machine

Every function of the support library, as a call on a state of one memory and several tables.

## Main definitions

* `Support.Machine` — the state.
* `Support.Call` — a call with its arguments.
* `Support.Machine.perform` — what a call does.
* `Support.Machine.performAll` — calls one after the other, up to the first trap.
-/

namespace WasmToC.Support

/-- The state the support library works on. -/
structure Machine where
  /-- The memory. -/
  memory : Memory := {}
  /-- The tables, by number. -/
  tables : Nat → Table := fun _ => {}

/-- Functions of one operand. -/
inductive Unary where
  | i32Clz | i32Ctz | i32Popcnt | i64Clz | i64Ctz | i64Popcnt
  | f32ReinterpretI32 | f64ReinterpretI64 | i32ReinterpretF32 | i64ReinterpretF64
  | f32Bits | f64Bits
  deriving DecidableEq, Repr

/-- Functions of two operands. -/
inductive Binary where
  | i32Rotl | i32Rotr | i64Rotl | i64Rotr | f32Min | f32Max | f64Min | f64Max
  deriving DecidableEq, Repr

/-- The 32-bit integer of a count. -/
def countI32 (n : Nat) : Value := .i32 (Int32.ofNat n)

/-- The 64-bit integer of a count. -/
def countI64 (n : Nat) : Value := .i64 (Int64.ofNat n)

/-- The low 32 bits of a value. -/
def word32 (v : Value) : BitVec 32 := BitVec.ofNat 32 v.bits

/-- The low 64 bits of a value. -/
def word64 (v : Value) : BitVec 64 := BitVec.ofNat 64 v.bits

/-- The result of a function of one operand. -/
def Unary.apply : Unary → Value → Value
  | i32Clz, v => countI32 (leadingZeros (word32 v))
  | i32Ctz, v => countI32 (trailingZeros (word32 v))
  | i32Popcnt, v => countI32 (popCount (word32 v))
  | i64Clz, v => countI64 (leadingZeros (word64 v))
  | i64Ctz, v => countI64 (trailingZeros (word64 v))
  | i64Popcnt, v => countI64 (popCount (word64 v))
  | f32ReinterpretI32, v | f32Bits, v => .f32 (UInt32.ofNat v.bits)
  | f64ReinterpretI64, v | f64Bits, v => .f64 (UInt64.ofNat v.bits)
  | i32ReinterpretF32, v => .i32 ⟨UInt32.ofNat v.bits⟩
  | i64ReinterpretF64, v => .i64 ⟨UInt64.ofNat v.bits⟩

/-- The result of a function of two operands, if its behaviour is defined. -/
def Binary.apply : Binary → Value → Value → Option Value
  | i32Rotl, a, b => (rotateLeft (word32 a) (word32 b)).map fun x => .i32 ⟨⟨x⟩⟩
  | i32Rotr, a, b => (rotateRight (word32 a) (word32 b)).map fun x => .i32 ⟨⟨x⟩⟩
  | i64Rotl, a, b => (rotateLeft (word64 a) (word64 b)).map fun x => .i64 ⟨⟨x⟩⟩
  | i64Rotr, a, b => (rotateRight (word64 a) (word64 b)).map fun x => .i64 ⟨⟨x⟩⟩
  | f32Min, a, b => some (.f32 (UInt32.ofNat (FloatFormat.binary32.minimum a.bits b.bits)))
  | f32Max, a, b => some (.f32 (UInt32.ofNat (FloatFormat.binary32.maximum a.bits b.bits)))
  | f64Min, a, b => some (.f64 (UInt64.ofNat (FloatFormat.binary64.minimum a.bits b.bits)))
  | f64Max, a, b => some (.f64 (UInt64.ofNat (FloatFormat.binary64.maximum a.bits b.bits)))

/-- A call. -/
inductive Call where
  /-- Traps. -/
  | trap (code : Int)
  /-- The constant NaN. -/
  | nan
  /-- The constant infinity. -/
  | infinity
  /-- Sets up the memory. -/
  | memoryInit (initial maximum : Nat)
  /-- The memory size in pages. -/
  | memorySize
  /-- Grows the memory. -/
  | memoryGrow (delta : Int)
  /-- Sets the relocation base. -/
  | setMemoryBase (base : Nat)
  /-- Loads from memory. -/
  | load (op : Load) (address offset : Nat)
  /-- Stores to memory. -/
  | store (op : Store) (address offset : Nat) (v : Value)
  /-- A function of one operand. -/
  | unary (op : Unary) (v : Value)
  /-- A function of two operands. -/
  | binary (op : Binary) (a b : Value)
  /-- Copies references into a table. -/
  | tableInit (table offset : Nat) (elements : List Nat)
  /-- The size of a table. -/
  | tableSize (table : Nat)
  /-- The reference in a slot of a table. -/
  | tableGet (table slot : Nat)
  deriving DecidableEq

/-- What a call returns. -/
inductive Answer where
  /-- Nothing. -/
  | unit
  /-- A value. -/
  | value (v : Value)
  /-- A natural number. -/
  | number (n : Nat)
  deriving DecidableEq

/-- A 32-bit integer result. -/
def Answer.ofInt (v : Int) : Answer := .value (.i32 (Int32.ofInt v))

namespace Machine

/-- Does a call. -/
def perform (m : Machine) : Call → Except Trap (Answer × Machine)
  | .trap code => .error (.ofCode code)
  | .nan => .ok (.value (.f64 (UInt64.ofNat FloatFormat.binary64.canonicalNaN)), m)
  | .infinity => .ok (.value (.f64 (UInt64.ofNat FloatFormat.binary64.infinity)), m)
  | .memoryInit initial maximum => do
    let memory ← m.memory.create initial maximum
    return (.unit, { m with memory })
  | .memorySize => .ok (.ofInt m.memory.pages, m)
  | .memoryGrow delta =>
    let (old, memory) := m.memory.grow delta
    .ok (.ofInt old, { m with memory })
  | .setMemoryBase base => .ok (.unit, { m with memory := { m.memory with base } })
  | .load op address offset => do
    let v ← m.memory.load op address offset
    return (.value v, m)
  | .store op address offset v => do
    let memory ← m.memory.store op address offset v
    return (.unit, { m with memory })
  | .unary op v => .ok (.value (op.apply v), m)
  | .binary op a b => .ok ((op.apply a b).elim .unit .value, m)
  | .tableInit table offset elements => do
    let filled ← (m.tables table).fill offset elements
    return (.unit, { m with tables := fun i => if i = table then filled else m.tables i })
  | .tableSize table => .ok (.number (m.tables table).size, m)
  | .tableGet table slot => .ok (.number (((m.tables table).get? slot).getD 0), m)

/-- Does calls one after the other. A trap ends them. -/
def performAll : List Call → Machine → List (Except Trap Answer)
  | [], _ => []
  | c :: rest, m =>
    match m.perform c with
    | .ok (answer, m) => .ok answer :: performAll rest m
    | .error t => [.error t]

end Machine

end WasmToC.Support

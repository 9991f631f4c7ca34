import WasmToC.Wasm.Value

/-!
# Memory accesses

The load and store instructions: how many bytes each moves, and the type on the stack.

## Main definitions

* `Load`, `Store` — the instructions, in opcode order.
* `Load.width`, `Store.width` — the bytes moved.
* `Load.value` — the value that loaded bytes stand for.
* `Store.bits` — the bits a value leaves in memory.
-/

namespace WasmToC

/-- A load instruction. -/
inductive Load where
  | i32Load | i64Load | f32Load | f64Load
  | i32Load8S | i32Load8U | i32Load16S | i32Load16U
  | i64Load8S | i64Load8U | i64Load16S | i64Load16U | i64Load32S | i64Load32U
  deriving DecidableEq, Repr, Inhabited

namespace Load

/-- Every load, in opcode order. -/
def all : List Load := [
  .i32Load, .i64Load, .f32Load, .f64Load,
  .i32Load8S, .i32Load8U, .i32Load16S, .i32Load16U,
  .i64Load8S, .i64Load8U, .i64Load16S, .i64Load16U, .i64Load32S, .i64Load32U]

/-- The opcode's distance from the first load. -/
def position (l : Load) : Nat := l.ctorIdx

/-- The text name. -/
def name : Load → String
  | i32Load => "i32.load"
  | i64Load => "i64.load"
  | f32Load => "f32.load"
  | f64Load => "f64.load"
  | i32Load8S => "i32.load8_s"
  | i32Load8U => "i32.load8_u"
  | i32Load16S => "i32.load16_s"
  | i32Load16U => "i32.load16_u"
  | i64Load8S => "i64.load8_s"
  | i64Load8U => "i64.load8_u"
  | i64Load16S => "i64.load16_s"
  | i64Load16U => "i64.load16_u"
  | i64Load32S => "i64.load32_s"
  | i64Load32U => "i64.load32_u"

/-- The type pushed. -/
def type : Load → ValueType
  | i32Load | i32Load8S | i32Load8U | i32Load16S | i32Load16U => .i32
  | i64Load | i64Load8S | i64Load8U | i64Load16S | i64Load16U | i64Load32S | i64Load32U => .i64
  | f32Load => .f32
  | f64Load => .f64

/-- The bytes read. -/
def width : Load → Nat
  | i32Load8S | i32Load8U | i64Load8S | i64Load8U => 1
  | i32Load16S | i32Load16U | i64Load16S | i64Load16U => 2
  | i32Load | f32Load | i64Load32S | i64Load32U => 4
  | i64Load | f64Load => 8

/-- Whether the top bit of the bytes read is the sign of the result. -/
def isSigned : Load → Bool
  | i32Load8S | i32Load16S | i64Load8S | i64Load16S | i64Load32S => true
  | _ => false

/-- The integer that `bits`, read from memory, stands for: sign extended or not as the name
says. -/
def extend (l : Load) (bits : Nat) : Int :=
  if l.isSigned && Nat.pow 2 (8 * l.width - 1) ≤ bits then
    (bits : Int) - (Nat.pow 2 (8 * l.width) : Nat)
  else bits

/-- The value pushed when the bytes read are those of `bits`. -/
def value (l : Load) (bits : Nat) : Value :=
  match l.type with
  | .i32 => .i32 (Int32.ofInt (l.extend bits))
  | .i64 => .i64 (Int64.ofInt (l.extend bits))
  | .f32 => .f32 (UInt32.ofNat bits)
  | .f64 => .f64 (UInt64.ofNat bits)

end Load

/-- A store instruction. -/
inductive Store where
  | i32Store | i64Store | f32Store | f64Store
  | i32Store8 | i32Store16 | i64Store8 | i64Store16 | i64Store32
  deriving DecidableEq, Repr, Inhabited

namespace Store

/-- Every store, in opcode order. -/
def all : List Store := [
  .i32Store, .i64Store, .f32Store, .f64Store,
  .i32Store8, .i32Store16, .i64Store8, .i64Store16, .i64Store32]

/-- The opcode's distance from the first store. -/
def position (s : Store) : Nat := s.ctorIdx

/-- The text name. -/
def name : Store → String
  | i32Store => "i32.store"
  | i64Store => "i64.store"
  | f32Store => "f32.store"
  | f64Store => "f64.store"
  | i32Store8 => "i32.store8"
  | i32Store16 => "i32.store16"
  | i64Store8 => "i64.store8"
  | i64Store16 => "i64.store16"
  | i64Store32 => "i64.store32"

/-- The type taken off the stack. -/
def type : Store → ValueType
  | i32Store | i32Store8 | i32Store16 => .i32
  | i64Store | i64Store8 | i64Store16 | i64Store32 => .i64
  | f32Store => .f32
  | f64Store => .f64

/-- The bytes written. -/
def width : Store → Nat
  | i32Store8 | i64Store8 => 1
  | i32Store16 | i64Store16 => 2
  | i32Store | f32Store | i64Store32 => 4
  | i64Store | f64Store => 8

end Store

/-- The bits of a value, as one number below `2 ^ 64`. -/
def Value.bits : Value → Nat
  | i32 v => v.toUInt32.toNat
  | i64 v => v.toUInt64.toNat
  | f32 b => b.toNat
  | f64 b => b.toNat

/-- The bits a store leaves in memory: the lowest ones of the value. -/
def Store.bits (s : Store) (v : Value) : Nat := v.bits % Nat.pow 2 (8 * s.width)

end WasmToC

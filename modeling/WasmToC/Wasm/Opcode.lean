import WasmToC.Wasm.Access
import WasmToC.Wasm.Numeric

/-!
# Opcodes

The instruction set of the first WebAssembly version, with its bytes and text names.

## Main definitions

* `Opcode` — control, variable and memory instructions, and the families of loads, stores,
  constants and numeric instructions.
* `Opcode.byte`, `Opcode.ofByte?` — the one-byte encoding.
* `Opcode.name` — the text name.
-/

namespace WasmToC

/-- An opcode. -/
inductive Opcode where
  | unreachable | nop | block | loop | ifOp | elseOp | endOp | br | brIf | brTable | returnOp
  | call | callIndirect
  | drop | select
  | getLocal | setLocal | teeLocal | getGlobal | setGlobal
  /-- A load from memory. -/
  | load (l : Load)
  /-- A store to memory. -/
  | store (s : Store)
  | currentMemory | growMemory
  /-- A constant of the given type. -/
  | const (t : ValueType)
  /-- A numeric instruction. -/
  | numeric (n : Numeric)
  deriving DecidableEq, Repr, Inhabited

namespace Opcode

/-- The position of a constant's opcode among the four. -/
def constPosition : ValueType → Nat
  | .i32 => 0
  | .i64 => 1
  | .f32 => 2
  | .f64 => 3

/-- The opcode's byte, as a number. -/
def code : Opcode → Nat
  | unreachable => 0x00
  | nop => 0x01
  | block => 0x02
  | loop => 0x03
  | ifOp => 0x04
  | elseOp => 0x05
  | endOp => 0x0b
  | br => 0x0c
  | brIf => 0x0d
  | brTable => 0x0e
  | returnOp => 0x0f
  | call => 0x10
  | callIndirect => 0x11
  | drop => 0x1a
  | select => 0x1b
  | getLocal => 0x20
  | setLocal => 0x21
  | teeLocal => 0x22
  | getGlobal => 0x23
  | setGlobal => 0x24
  | load l => 0x28 + l.position
  | store s => 0x36 + s.position
  | currentMemory => 0x3f
  | growMemory => 0x40
  | const t => 0x41 + constPosition t
  | numeric n => 0x45 + n.position

/-- The opcode's byte. -/
def byte (op : Opcode) : UInt8 := UInt8.ofNat op.code

/-- The opcodes that are not loads, stores, constants or numeric. -/
def plain? : Nat → Option Opcode
  | 0x00 => some unreachable
  | 0x01 => some nop
  | 0x02 => some block
  | 0x03 => some loop
  | 0x04 => some ifOp
  | 0x05 => some elseOp
  | 0x0b => some endOp
  | 0x0c => some br
  | 0x0d => some brIf
  | 0x0e => some brTable
  | 0x0f => some returnOp
  | 0x10 => some call
  | 0x11 => some callIndirect
  | 0x1a => some drop
  | 0x1b => some select
  | 0x20 => some getLocal
  | 0x21 => some setLocal
  | 0x22 => some teeLocal
  | 0x23 => some getGlobal
  | 0x24 => some setGlobal
  | 0x3f => some currentMemory
  | 0x40 => some growMemory
  | 0x41 => some (const .i32)
  | 0x42 => some (const .i64)
  | 0x43 => some (const .f32)
  | 0x44 => some (const .f64)
  | _ => none

/-- The opcode of a byte value, if it has one. -/
def ofCode? (b : Nat) : Option Opcode :=
  if 0x45 ≤ b then Numeric.all[b - 0x45]?.map numeric
  else if 0x28 ≤ b ∧ b < 0x36 then Load.all[b - 0x28]?.map load
  else if 0x36 ≤ b ∧ b < 0x3f then Store.all[b - 0x36]?.map store
  else plain? b

/-- The opcode of a byte, if it has one. -/
def ofByte? (b : UInt8) : Option Opcode := ofCode? b.toNat

/-- The text name. -/
def name : Opcode → String
  | unreachable => "unreachable"
  | nop => "nop"
  | block => "block"
  | loop => "loop"
  | ifOp => "if"
  | elseOp => "else"
  | endOp => "end"
  | br => "br"
  | brIf => "br_if"
  | brTable => "br_table"
  | returnOp => "return"
  | call => "call"
  | callIndirect => "call_indirect"
  | drop => "drop"
  | select => "select"
  | getLocal => "get_local"
  | setLocal => "set_local"
  | teeLocal => "tee_local"
  | getGlobal => "get_global"
  | setGlobal => "set_global"
  | load l => l.name
  | store s => s.name
  | currentMemory => "current_memory"
  | growMemory => "grow_memory"
  | const t => t.name ++ ".const"
  | numeric n => n.name

/-- Every opcode, in byte order. -/
def all : List Opcode := (List.range 256).filterMap ofCode?

/-- The opcode with a given text name. -/
def ofName? (s : String) : Option Opcode := all.find? fun op => op.name == s

/-- Whether the opcode loads from memory. -/
def isLoad : Opcode → Bool
  | load _ => true
  | _ => false

/-- Whether the opcode stores to memory. -/
def isStore : Opcode → Bool
  | store _ => true
  | _ => false

/-- Whether the opcode opens a construct that a matching `end` closes. -/
def opensConstruct : Opcode → Bool
  | block | loop | ifOp => true
  | _ => false

/-- The type the text name starts with, `i32` for names that start with none. -/
def family : Opcode → ValueType
  | load l => l.type
  | store s => s.type
  | const t => t
  | numeric n => n.family
  | _ => .i32

end Opcode

end WasmToC

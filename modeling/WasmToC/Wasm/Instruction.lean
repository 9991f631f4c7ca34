import WasmToC.Text.Digits
import WasmToC.Wasm.Opcode

/-!
# Instructions

An instruction is an opcode with an immediate operand. The binary format fixes the shape of the
immediate by the opcode; here any opcode may carry any immediate, so that code built by hand can
be checked.

## Main definitions

* `Immediate`, `Instruction`.
* `Instruction.text` — the text form.
-/

namespace WasmToC

/-- The operand that follows an opcode. -/
inductive Immediate where
  /-- Nothing follows. -/
  | none
  /-- The result type of a construct. -/
  | block (result : Option ValueType)
  /-- A branch depth. -/
  | depth (d : Nat)
  /-- The targets of a branch table and its default. -/
  | table (targets : List Nat) (default : Nat)
  /-- The index of a local, a global or a function. -/
  | index (i : Nat)
  /-- The type of an indirect call and its reserved flag. -/
  | callIndirect (typeIndex : Nat) (reserved : Bool)
  /-- The alignment hint and the offset of a memory access. -/
  | memory (flags offset : Nat)
  /-- A constant. -/
  | value (v : Value)
  deriving DecidableEq

/-- An instruction. -/
structure Instruction where
  /-- What it does. -/
  op : Opcode
  /-- Its immediate operand. -/
  imm : Immediate
  deriving DecidableEq

namespace Immediate

/-- The index, if that is what the immediate holds. -/
def index? : Immediate → Option Nat
  | index i => some i
  | _ => .none

/-- The branch depth, if that is what the immediate holds. -/
def depth? : Immediate → Option Nat
  | depth d => some d
  | _ => .none

/-- The result type of a construct, if that is what the immediate holds. -/
def block? : Immediate → Option (Option ValueType)
  | block r => some r
  | _ => .none

/-- The offset of a memory access, if that is what the immediate holds. -/
def offset? : Immediate → Option Nat
  | memory _ offset => some offset
  | _ => .none

/-- The constant, if that is what the immediate holds. -/
def value? : Immediate → Option Value
  | value v => some v
  | _ => .none

/-- What the immediate adds to the text of an instruction. -/
def text : Immediate → String
  | none => ""
  | block .none => ""
  | block (some r) => " (result " ++ r.name ++ ")"
  | depth d => " " ++ toString d
  | table targets default => " " ++ Text.bracketed targets ++ " " ++ toString default
  | index i => " " ++ toString i
  | callIndirect t _ => " (type " ++ toString t ++ ")"
  | memory flags offset => " offset=" ++ toString offset ++ " align=" ++ toString flags
  | value v => " " ++ v.text

end Immediate

/-- The text form: the opcode's name, then its immediate. -/
def Instruction.text (i : Instruction) : String := i.op.name ++ i.imm.text

end WasmToC

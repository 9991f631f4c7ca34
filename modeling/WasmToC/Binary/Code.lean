import WasmToC.Binary.TypeForm

/-!
# Code in the binary format

Instructions follow one another up to the `end` that closes what is being read.

## Main definitions

* `Reader.immediate` — the immediate an opcode calls for.
* `Reader.instruction` — one instruction.
* `Decoder.expression` — the instructions up to the balancing `end`.
-/

namespace WasmToC

namespace Reader

/-- The immediate that an opcode calls for. -/
def immediate : Opcode → Reader Immediate
  | .block | .loop | .ifOp => return .block (← blockType)
  | .br | .brIf => return .depth (← varuint 32)
  | .brTable => do
    let count ← varuint 32
    let targets ← many (varuint 32) count
    return .table targets (← varuint 32)
  | .call | .getLocal | .setLocal | .teeLocal | .getGlobal | .setGlobal =>
    return .index (← varuint 32)
  | .callIndirect => do
    let typeIndex ← varuint 32
    return .callIndirect typeIndex (← flag)
  | .currentMemory | .growMemory => do
    let _ ← flag
    return .none
  | .const .i32 => return .value (.i32 (Int32.ofInt (← varint 32)))
  | .const .i64 => return .value (.i64 (Int64.ofInt (← varint 64)))
  | .const .f32 => return .value (.f32 (UInt32.ofNat (← littleEndian 4)))
  | .const .f64 => return .value (.f64 (UInt64.ofNat (← littleEndian 8)))
  | .load _ | .store _ => do
    let flags ← varuint 32
    return .memory flags (← varuint 32)
  | _ => return .none

/-- One instruction. -/
def instruction : Reader Instruction := do
  let b ← byte
  match Opcode.ofByte? b with
  | some op => return ⟨op, ← immediate op⟩
  | none => fail (.unsupported none (some b) .unknownOpcode)

end Reader

namespace Decoder

/-- The instructions up to the `end` that closes the expression, which is read and left out.
`depth` constructs are open already; `before` holds the instructions read so far, last first, and
`fuel` bounds the number of instructions. -/
def codeUpTo : (fuel depth : Nat) → (before : List Instruction) → Decoder (List Instruction)
  | 0, _, _ => abort
  | fuel + 1, depth, before => do
    let i ← Reader.instruction
    if i.op = .endOp ∧ depth = 0 then return before.reverse
    else
      note .trace i.text
      let depth :=
        if i.op.opensConstruct then depth + 1
        else if i.op = .endOp then depth - 1
        else depth
      codeUpTo fuel depth (i :: before)

/-- The instructions of an expression. Each takes a byte, so the bytes that are left bound their
number. -/
def expression : Decoder (List Instruction) := fun s =>
  codeUpTo (s.rest.length + 1) 0 [] s

end Decoder

end WasmToC

import WasmToC.Proofs.Reads

/-!
# The canonical encoding of a module

A module as bytes: an eight-byte header and the sections in the order of their ids, each with its id
and its length. Counts, indices and lengths are shortest variable-length integers, constants of
integer types signed ones, floating-point constants their raw bits, and names UTF-8 behind their
length. The declared locals of a body are written in runs of one type, and code ends with a closing
`end`. An empty section may be written or left out; which is a parameter.

Not every module can be written so that reading gives it back: its references have to be in range,
the immediates of its code must have the shape that their opcodes call for, and what is written as a
32-bit number must be one. `Encodable` says this of a module.

## Main definitions

* `Module.encode` — the bytes of a module.
* `Instruction.isShaped` — the immediate is one that the opcode calls for.
* `Encodable` — the modules that can be written.
-/

namespace WasmToC

open List

/-! ## Bytes -/

namespace Encode

open Varint (writeUnsigned writeSigned)

/-- A list of entries: their number, then the entries. -/
def vector {α : Type} (entry : α → List UInt8) (xs : List α) : List UInt8 :=
  writeUnsigned xs.length ++ xs.flatMap entry

/-- Bytes behind their length. -/
def sized (bs : List UInt8) : List UInt8 := writeUnsigned bs.length ++ bs

/-- A name. -/
def name (s : String) : List UInt8 := sized (Utf8.encode s)

/-- A flag. -/
def flag (b : Bool) : List UInt8 := [UInt8.ofNat b.toNat]

/-- The tag of a value type. -/
def valueTag : ValueType → Nat
  | .i32 => 0x7f
  | .i64 => 0x7e
  | .f32 => 0x7d
  | .f64 => 0x7c

/-- A value type. -/
def valueType (t : ValueType) : List UInt8 := [UInt8.ofNat (valueTag t)]

/-- A function type. -/
def funcType (t : FuncType) : List UInt8 :=
  0x60 :: (vector valueType t.params ++ vector valueType t.result.toList)

/-- The result type of a construct. -/
def blockType : Option ValueType → List UInt8
  | some t => valueType t
  | none => [0x40]

/-- Size limits. -/
def limits (l : Limits) : List UInt8 :=
  match l.maximum with
  | some maximum => flag true ++ (writeUnsigned l.initial ++ writeUnsigned maximum)
  | none => flag false ++ writeUnsigned l.initial

/-- The type of a global. -/
def globalType (g : GlobalType) : List UInt8 := valueType g.content ++ flag g.isMutable

/-- A constant. -/
def constant : Value → List UInt8
  | .i32 v => writeSigned v.toInt
  | .i64 v => writeSigned v.toInt
  | .f32 bits => Varint.littleEndian 4 bits.toNat
  | .f64 bits => Varint.littleEndian 8 bits.toNat

/-- An immediate. -/
def immediate : Immediate → List UInt8
  | .none => []
  | .block res => blockType res
  | .depth d => writeUnsigned d
  | .table targets default => vector writeUnsigned targets ++ writeUnsigned default
  | .index i => writeUnsigned i
  | .callIndirect typeIndex reserved => writeUnsigned typeIndex ++ flag reserved
  | .memory flags off => writeUnsigned flags ++ writeUnsigned off
  | .value v => constant v

/-- The reserved byte behind the opcodes that ask for the size of the memory or change it. -/
def reserved : Opcode → List UInt8
  | .currentMemory | .growMemory => [0]
  | _ => []

/-- An instruction. -/
def instruction (i : Instruction) : List UInt8 :=
  i.op.byte :: (immediate i.imm ++ reserved i.op)

/-- Code, with the `end` that closes it. -/
def expression (code : List Instruction) : List UInt8 :=
  code.flatMap instruction ++ [Opcode.endOp.byte]

/-- What is imported. -/
def importDesc : ImportDesc → List UInt8
  | .function t => 0 :: writeUnsigned t
  | .table l => 1 :: 0x70 :: limits l
  | .memory l => 2 :: limits l
  | .global g => 3 :: globalType g

/-- An import. -/
def importEntry (i : Import) : List UInt8 :=
  name i.moduleName ++ (name i.field ++ importDesc i.desc)

/-- A global. -/
def globalEntry (g : Global) : List UInt8 := globalType g.type ++ expression [g.init]

/-- An export. -/
def exportEntry (e : Export) : List UInt8 :=
  name e.field ++ (UInt8.ofNat e.kind.code :: writeUnsigned e.index)

/-- An element segment. -/
def segment (s : Segment) : List UInt8 :=
  writeUnsigned s.table ++ (expression [s.offset] ++ vector writeUnsigned s.functions)

/-- A list of types in runs of one type. -/
def runs : List ValueType → List (Nat × ValueType)
  | [] => []
  | t :: ts =>
    match runs ts with
    | (n, u) :: rest => if t = u then (n + 1, t) :: rest else (1, t) :: (n, u) :: rest
    | [] => [(1, t)]

/-- A run: its length and its type. -/
def run (r : Nat × ValueType) : List UInt8 := writeUnsigned r.1 ++ valueType r.2

/-- The declared locals and the code of a function, behind their length. -/
def body (f : Function) : List UInt8 :=
  sized (vector run (runs f.locals) ++ expression f.code)

/-- A section: its id, whether it has no entries, and its contents. -/
structure Part where
  /-- The id of the section. -/
  id : Nat
  /-- Whether it has no entries. -/
  isEmpty : Bool
  /-- Its contents. -/
  payload : List UInt8

/-- A section that holds a list of entries. -/
def part {α : Type} (id : Nat) (entry : α → List UInt8) (xs : List α) : Part :=
  ⟨id, xs.isEmpty, vector entry xs⟩

/-- The sections of a module, in order. -/
def parts (m : Module) : List Part :=
  [part 1 funcType m.types, part 2 importEntry m.imports, part 3 writeUnsigned m.signatures,
    part 5 limits m.memories, part 6 globalEntry m.globals, part 7 exportEntry m.exports,
    part 9 segment m.segments, part 10 body m.functions]

/-- Sections as bytes, each with its id and its length. Sections without entries are left out,
except those that `keep` asks for. -/
def sections (keep : Nat → Bool) (ps : List Part) : List UInt8 :=
  (ps.filter fun p => !p.isEmpty || keep p.id).flatMap fun p =>
    UInt8.ofNat p.id :: sized p.payload

/-- The first four bytes of every module. -/
def magic : List UInt8 := [0x00, 0x61, 0x73, 0x6d]

end Encode

/-- The bytes of a module. -/
def Module.encode (keep : Nat → Bool) (m : Module) : List UInt8 :=
  Encode.magic ++ (Varint.littleEndian 4 m.version ++ Encode.sections keep (Encode.parts m))

/-! ## What can be written -/

/-- Whether nothing but the reserved byte follows an opcode. -/
def Opcode.standsAlone : Opcode → Bool
  | unreachable | nop | elseOp | endOp | returnOp | drop | select | currentMemory | growMemory
  | numeric _ => true
  | _ => false

/-- Whether the immediate of an instruction is one that its opcode calls for, made of 32-bit
numbers. -/
def Instruction.isShaped (i : Instruction) : Bool :=
  match i.op, i.imm with
  | .block, .block _ | .loop, .block _ | .ifOp, .block _ => true
  | .br, .depth d | .brIf, .depth d => d < 2 ^ 32
  | .brTable, .table targets default => (targets.all (· < 2 ^ 32)) && default < 2 ^ 32
  | .call, .index k | .getLocal, .index k | .setLocal, .index k | .teeLocal, .index k
  | .getGlobal, .index k | .setGlobal, .index k => k < 2 ^ 32
  | .callIndirect, .callIndirect typeIndex _ => typeIndex < 2 ^ 32
  | .load _, .memory flags off | .store _, .memory flags off =>
    flags < 2 ^ 32 && off < 2 ^ 32
  | .const t, .value v => v.type = t
  | op, .none => op.standsAlone
  | _, _ => false

/-- How many constructs are open behind code in front of which `d` are; `none` if an `end`
comes where none is open. -/
def openAfter : (d : Nat) → List Instruction → Option Nat
  | d, [] => some d
  | d, i :: code =>
    if i.op.opensConstruct then openAfter (d + 1) code
    else if i.op = .endOp then
      match d with
      | 0 => none
      | d + 1 => openAfter d code
    else openAfter d code

/-- Whether an instruction can initialize something: it is a constant, or the value of one of the
first `visible` globals. -/
def Instruction.initializes (visible : Nat) (i : Instruction) : Bool :=
  match i.op, i.imm with
  | .const _, _ => true
  | .getGlobal, .index k => k < visible
  | _, _ => false

/-- Whether size limits are 32-bit numbers. -/
def Limits.fits (l : Limits) : Bool := l.initial < 2 ^ 32 && (l.maximum.all (· < 2 ^ 32))

/-- Whether an import refers to a type that is there, among `types`, and has limits that are 32-bit
numbers. -/
def ImportDesc.isAdmissible (types : Nat) : ImportDesc → Bool
  | function t => t < types
  | table l => l.fits
  | memory l => l.fits
  | global _ => true

/-- The modules that can be written so that reading gives them back. -/
structure Encodable (m : Module) : Prop where
  /-- The format version is the supported one. -/
  version : m.version = 1
  /-- There are no custom sections. -/
  customSections : m.customSections = []
  /-- The import counts are those of the imports. -/
  counts : m.countImports = m
  /-- Imported functions have types that are there. -/
  imports : ∀ i ∈ m.imports, i.desc.isAdmissible m.types.length = true
  /-- Functions have types that are there. -/
  signatures : ∀ t ∈ m.signatures, t < m.types.length
  /-- There is at most one memory, imported or declared. -/
  oneMemory : m.memories.length + m.importedMemories ≤ 1
  /-- A declared memory may grow to no less than its size at the start. -/
  memories : ∀ l ∈ m.memories, l.fits = true ∧ l.maximum.all (l.initial ≤ ·) = true
  /-- A global is initialized by a constant or by a global before it. -/
  globals : ∀ i, ∀ h : i < m.globals.length, m.globals[i].init.isShaped = true ∧
      m.globals[i].init.initializes (m.importedGlobals + i) = true
  /-- Exported functions and globals are there. -/
  exports : ∀ e ∈ m.exports, e.index < 2 ^ 32 ∧
    (e.kind = .function → e.index < m.importedFunctions + m.signatures.length) ∧
    (e.kind = .global → e.index < m.importedGlobals + m.globals.length)
  /-- The offset of a segment is a constant or a global. -/
  offsets : ∀ s ∈ m.segments, s.table < 2 ^ 32 ∧ s.offset.isShaped = true ∧
    s.offset.initializes (m.importedGlobals + m.globals.length) = true
  /-- The functions of a segment are there. -/
  segments : ∀ s ∈ m.segments, ∀ f ∈ s.functions,
    f < 2 ^ 32 ∧ f < m.importedFunctions + m.signatures.length
  /-- Each signature has a function that carries it. -/
  functions : m.functions.map Function.typeIndex = m.signatures
  /-- A body declares a limited number of locals. -/
  locals : ∀ f ∈ m.functions, f.locals.length ≤ 50000
  /-- Code closes what it opens, and its immediates have the shapes their opcodes call for. -/
  code : ∀ f ∈ m.functions, openAfter 0 f.code = some 0 ∧ ∀ i ∈ f.code, i.isShaped = true
  /-- The sections have 32-bit lengths. -/
  sizes : ∀ p ∈ Encode.parts m, p.payload.length < 2 ^ 32

/-! ## Lengths -/

namespace Encode

open Varint (writeUnsigned)

variable {α : Type} {entry : α → List UInt8} {xs : List α}

lemma number_append_pos (n : Nat) (bs : List UInt8) : 0 < (writeUnsigned n ++ bs).length := by
  have h := Varint.length_writeUnsigned_pos n
  rw [length_append]
  omega

lemma name_append_pos (s : String) (bs : List UInt8) : 0 < (name s ++ bs).length := by
  rw [name, sized, append_assoc]
  exact number_append_pos _ _

lemma length_le_flatMap {x : α} (h : x ∈ xs) : (entry x).length ≤ (xs.flatMap entry).length := by
  obtain ⟨pre, post, rfl⟩ := append_of_mem h
  simp only [flatMap_append, flatMap_cons, length_append]
  omega

/-- Entries in a row that are not empty are at least as long as their number. -/
lemma count_le_flatMap (h : ∀ x ∈ xs, 0 < (entry x).length) :
    xs.length ≤ (xs.flatMap entry).length := by
  induction xs with
  | nil => exact Nat.zero_le _
  | cons x xs ih =>
    have hx := h x mem_cons_self
    have hxs := ih fun y hy => h y (mem_cons_of_mem x hy)
    rw [flatMap_cons, length_append, length_cons]
    omega

lemma length_le_vector {x : α} (h : x ∈ xs) : (entry x).length ≤ (vector entry xs).length := by
  rw [vector, length_append]
  exact Nat.le_trans (length_le_flatMap h) (Nat.le_add_left _ _)

lemma count_le_vector (h : ∀ x ∈ xs, 0 < (entry x).length) :
    xs.length ≤ (vector entry xs).length := by
  rw [vector, length_append]
  exact Nat.le_trans (count_le_flatMap h) (Nat.le_add_left _ _)

lemma length_le_sized (bs : List UInt8) : bs.length ≤ (sized bs).length := by
  rw [sized, length_append]
  omega

/-- The runs of a list of types give the list back. -/
lemma flatMap_runs (ts : List ValueType) :
    (runs ts).flatMap (fun r => List.replicate r.1 r.2) = ts := by
  induction ts with
  | nil => rfl
  | cons t ts ih =>
    unfold runs
    split
    · rename_i n u rest hruns
      rw [hruns, flatMap_cons] at ih
      by_cases htu : t = u
      · subst htu
        rw [if_pos rfl, flatMap_cons, replicate_succ, cons_append, ih]
      · rw [if_neg htu, flatMap_cons, flatMap_cons, ih]
        rfl
    · rename_i hruns
      rw [hruns] at ih
      rw [← ih]
      rfl

end Encode

end WasmToC

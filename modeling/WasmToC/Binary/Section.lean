import WasmToC.Binary.Code

/-!
# Sections

The contents of each section, added to the module read so far. Cross references are checked
against that module.

## Main definitions

* `Section.payload` — the contents of a section, by its id.
* `Section.types`, `imports`, `signatures`, `memories`, `globals`, `exports`, `segments`,
  `code` — the sections that are decoded.
-/

namespace WasmToC.Section

open Decoder (note fail iterate within)

/-- The id of custom sections. -/
def customId : Nat := 0

/-- The id of the code section. -/
def codeId : Nat := 10

/-- The largest number of declared locals in one body. -/
def maxLocals : Nat := 50000

/-- An unsupported construct that is not inside a known function. -/
def unsupported {α : Type} (what : Unsupported) : Decoder α := fail (.unsupported none none what)

/-- A broken rule. -/
def invalid {α : Type} (why : Invalid) : Decoder α := fail (.invalid why)

/-- Function types. -/
def types (m : Module) : Decoder Module := do
  let count ← Reader.varuint 32
  let m ← iterate (fun m => do
    match ← Reader.typeForm with
    | .func t => return { m with types := m.types ++ [t] }
    | other => unsupported (.notFuncType other)) count m
  note .debug s!"Parsed {count} types"
  return m

/-- What is imported, given the names it is imported by. -/
def importDesc (m : Module) (moduleName field : String) : Decoder ImportDesc := do
  match ← Reader.varuint 7 with
  | 0 =>
    let t ← Reader.varuint 32
    if t < m.types.length then return .function t
    else invalid (.importType moduleName field t)
  | 1 => return .table (← Reader.table)
  | 2 => return .memory (← Reader.limits)
  | 3 => return .global (← Reader.globalType)
  | kind => unsupported (.importKind kind)

/-- Imports. The import counts are brought up to date at the end. -/
def imports (m : Module) : Decoder Module := do
  let count ← Reader.varuint 32
  let m ← iterate (fun m => do
    let moduleName ← Reader.name
    let field ← Reader.name
    let desc ← importDesc m moduleName field
    note .trace ("import " ++ moduleName ++ "." ++ field ++ ": " ++ desc.describe)
    return { m with imports := m.imports ++ [⟨moduleName, field, desc⟩] }) count m
  let m := m.countImports
  note .debug (s!"Parsed {count} imports ({m.importedFunctions} functions, " ++
    s!"{m.importedGlobals} globals, {m.importedTables} tables)")
  return m

/-- Type indices of the module's own functions. -/
def signatures (m : Module) : Decoder Module := do
  let count ← Reader.varuint 32
  let m ← iterate (fun m => do
    let t ← Reader.varuint 32
    if t < m.types.length then return { m with signatures := m.signatures ++ [t] }
    else invalid (.signatureType t)) count m
  note .debug s!"Parsed {count} function signatures"
  return m

/-- Declared memories. -/
def memories (m : Module) : Decoder Module := do
  let count ← Reader.varuint 32
  let m ← iterate (fun m => do
    let l ← Reader.limits
    match l.maximum with
    | some maximum =>
      if maximum < l.initial then invalid (.memoryLimits maximum l.initial)
      else return { m with memories := m.memories ++ [l] }
    | none => return { m with memories := m.memories ++ [l] }) count m
  if 1 < m.memories.length + m.importedMemories then unsupported .manyMemories
  else
    note .debug s!"Parsed {count} memories"
    return m

/-- The one instruction of an initializer: a constant, or the value of one of the first `visible`
globals. -/
def initializer (visible : Nat) : Decoder Instruction := do
  match ← Decoder.expression with
  | [i] =>
    match i.op with
    | .const _ => return i
    | .getGlobal =>
      match i.imm.index? with
      | some k => if k < visible then return i else invalid (.initializerGlobal i)
      | none => invalid (.initializerGlobal i)
    | _ => invalid (.initializerKind i)
  | code => invalid (.initializerLength code.length)

/-- Globals of the module. Each sees the globals before it. -/
def globals (m : Module) : Decoder Module := do
  let count ← Reader.varuint 32
  let m ← iterate (fun m => do
    let type ← Reader.globalType
    let init ← initializer (m.importedGlobals + m.globals.length)
    return { m with globals := m.globals ++ [⟨type, init⟩] }) count m
  note .debug s!"Parsed {count} globals"
  return m

/-- Whether an export's target exists. Tables and memories are not checked. -/
def exportable (m : Module) (kind : ExternKind) (index : Nat) : Bool :=
  match kind with
  | .function => (m.function? index).isSome
  | .global => (m.global? index).isSome
  | .table | .memory => true

/-- Exports. -/
def exports (m : Module) : Decoder Module := do
  let count ← Reader.varuint 32
  let m ← iterate (fun m => do
    let field ← Reader.name
    let code ← Reader.varuint 7
    match ExternKind.ofCode? code with
    | none => unsupported (.exportKind code)
    | some kind =>
      let index ← Reader.varuint 32
      if exportable m kind index then
        return { m with exports := m.exports ++ [⟨field, kind, index⟩] }
      else invalid (.exportTarget field kind index)) count m
  note .debug s!"Parsed {count} exports"
  return m

/-- The functions of an element segment. -/
def segmentFunctions (m : Module) : Decoder (List Nat) := do
  let length ← Reader.varuint 32
  let found ← iterate (fun found => do
    let index ← Reader.varuint 32
    if (m.function? index).isSome then return index :: found
    else invalid (.segmentFunction index)) length []
  return found.reverse

/-- Element segments. -/
def segments (m : Module) : Decoder Module := do
  let count ← Reader.varuint 32
  let m ← iterate (fun m => do
    let table ← Reader.varuint 32
    let offset ← initializer (m.importedGlobals + m.globals.length)
    let functions ← segmentFunctions m
    return { m with segments := m.segments ++ [⟨table, offset, functions⟩] }) count m
  note .debug s!"Parsed {count} element segments"
  return m

/-- The declared locals of a body, given in runs of one type. -/
def locals : Decoder (List ValueType) := do
  let runs ← Reader.varuint 32
  let found ← iterate (fun found => do
    let quantity ← Reader.varuint 32
    if maxLocals < found.length + quantity then invalid (.tooManyLocals maxLocals)
    else
      let t ← Reader.valueType
      return List.replicate quantity t ++ found) runs []
  return found.reverse

/-- The locals and the code of a function. -/
def body : Decoder (List ValueType × List Instruction) := do
  let declared ← locals
  let code ← Decoder.expression
  return (declared, code)

/-- The body of the module's own function at a position, inside its declared size. -/
def sizedBody (m : Module) (position : Nat) : Decoder Function := do
  let index := m.importedFunctions + position
  let size ← Reader.varuint 32
  let ((declared, code), left) ← within size (body.mapError (Error.inFunction index))
  if left ≠ 0 then fail (.corruptSection codeId (.bodyUnread index left))
  else
    note .debug (s!"Parsed function {index}: " ++
      s!"{declared.length} locals, {code.length} instructions")
    match m.signatures[position]? with
    | some t => return ⟨t, declared, code⟩
    | none => Decoder.abort

/-- Function bodies, one for each declared function. -/
def code (m : Module) : Decoder Module := do
  let count ← Reader.varuint 32
  if count ≠ m.signatures.length then invalid (.bodyCount count m.signatures.length)
  else
    let (m, _) ← iterate (fun (m, position) => do
      let f ← sizedBody m position
      return ({ m with functions := m.functions ++ [f] }, position + 1)) count (m, 0)
    return m

/-- A section that is skipped after its name has been read. -/
def custom (m : Module) : Decoder Module := do
  let name ← Reader.name
  let skipped ← Reader.skip
  note .debug ("Skipped custom section " ++ Text.quoted name ++ s!" ({skipped} bytes)")
  return { m with customSections := m.customSections ++ [name] }

/-- A section that is skipped. -/
def other (id : Nat) (m : Module) : Decoder Module := do
  let skipped ← Reader.skip
  note .debug s!"Skipped section {id} ({skipped} bytes)"
  return m

/-- The contents of a section. -/
def payload (id : Nat) (m : Module) : Decoder Module := do
  note .debug s!"Parsing section {id}"
  match id with
  | 0 => custom m
  | 1 => types m
  | 2 => imports m
  | 3 => signatures m
  | 5 => memories m
  | 6 => globals m
  | 7 => exports m
  | 9 => segments m
  | 10 => code m
  | id => other id m

end WasmToC.Section

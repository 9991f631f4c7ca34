import WasmToC.Binary.Section

/-!
# Binary modules

A module is an eight-byte header and a sequence of sections. A section is an id, a length and a
payload of that length, which its contents have to fill.

## Main definitions

* `Module.decode` — the module a source holds.
-/

namespace WasmToC

namespace Decoder

/-- The first four bytes of a module, read as a little-endian number. -/
def magic : Nat := 0x6d736100

/-- The supported format version. -/
def version : Nat := 1

/-- An input that ends inside the header has a bad header. -/
def headerError (e : Error) : Error := if e.isEnd then .badHeader .truncated else e

/-- An input that ends inside a section leaves that section corrupt. -/
def sectionError (id : Nat) (e : Error) : Error :=
  if e.isEnd then .corruptSection id .truncated else e

/-- The header; its version is returned. -/
def header : Decoder Nat := do
  let word : Decoder Nat := Reader.littleEndian 4
  if (← word.mapError headerError) ≠ magic then fail (.badHeader .wrongMagic)
  else
    let found ← word.mapError headerError
    if found ≠ version then fail (.badHeader .wrongVersion)
    else
      note .info s!"Parsing module version {found}"
      return found

/-- The id of the next section, or `none` at a clean end of the input. -/
def sectionId? : Decoder (Option Nat) := fun s =>
  match s.next with
  | .error .clean => pure (none, s)
  | .error (.broken f) => Traced.fail (.io f)
  | .ok (b, s) =>
    if 128 ≤ b.toNat then Traced.fail (.malformed (.sectionId b))
    else pure (some b.toNat, s)

/-- The length and the payload of the section with a given id. -/
def framedSection (id : Nat) (m : Module) : Decoder Module := do
  let size : Decoder Nat := Reader.varuint 32
  let length ← size.mapError (sectionError id)
  let (m, left) ← within length ((Section.payload id m).mapError (sectionError id))
  if left ≠ 0 then fail (.corruptSection id (.unread left length))
  else return m

/-- At most `fuel` sections, up to the end of the input. -/
def sections : (fuel : Nat) → Module → Decoder Module
  | 0, _ => abort
  | fuel + 1, m => do
    match ← sectionId? with
    | none => return m
    | some id => sections fuel (← framedSection id m)

/-- Checks that every declared function has a body. More bodies than declarations leave nothing
to report. -/
def finish (m : Module) : Decoder Module := do
  if m.functions.length < m.signatures.length then
    fail (.invalid (.missingBodies (m.signatures.length - m.functions.length)))
  else if m.signatures.length < m.functions.length then abort
  else
    note .info (s!"Parsed module: {m.types.length} types, {m.imports.length} imports, " ++
      s!"{m.functions.length} functions, {m.globals.length} globals, {m.exports.length} exports")
    return m

/-- A whole module. Each section takes a byte, so the bytes that are left bound their number. -/
def wholeModule : Decoder Module := do
  let found ← header
  let m ← fun s => sections (s.rest.length + 1) { version := found } s
  finish m

end Decoder

/-- The module a source holds. -/
def Module.decode (s : Source) : Traced Module := do
  let (m, _) ← Decoder.wholeModule s
  return m

end WasmToC

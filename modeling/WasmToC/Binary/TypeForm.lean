import WasmToC.Binary.Reader

/-!
# Types in the binary format

One tag introduces a value type, a reference to functions, the empty type of a construct or a
function type. The parameters of a function type are read as types of any form and then have to
be value types, so that function types nest in the encoding although none is accepted inside
another.

## Main definitions

* `Reader.typeForm` — any type.
* `Reader.valueType`, `Reader.blockType`, `Reader.limits`,
  `Reader.table`, `Reader.globalType`.
-/

namespace WasmToC.Reader

/-- An unsupported construct that is not inside a known function. -/
def unsupported {α : Type} (what : Unsupported) : Reader α := fail (.unsupported none none what)

/-- The type of a tag that stands alone. -/
def formOfTag? : Nat → Option TypeForm
  | 0x7f => some (.value .i32)
  | 0x7e => some (.value .i64)
  | 0x7d => some (.value .f32)
  | 0x7c => some (.value .f64)
  | 0x70 => some .funcref
  | 0x40 => some .emptyBlock
  | _ => none

/-- The tag of a function type. -/
def funcTag : Nat := 0x60

/-- A type, given how to read what follows the tag of a function type. -/
def formWith (func : Reader FuncType) : Reader TypeForm := do
  let tag ← varuint 7
  if tag = funcTag then return .func (← func)
  else
    match formOfTag? tag with
    | some form => return form
    | none => unsupported (.typeTag tag)

/-- A type that has to be a value type, given how to read a type. -/
def valueOf (form : Reader TypeForm) : Reader ValueType := do
  match ← form with
  | .value t => return t
  | other => unsupported (.notValueType other)

/-- What follows the tag of a function type, given how to read a type. -/
def funcOf (form : Reader TypeForm) : Reader FuncType := do
  let count ← varuint 32
  let params ← many (valueOf form) count
  match ← varuint 32 with
  | 0 => return ⟨params, none⟩
  | 1 => return ⟨params, some (← valueOf form)⟩
  | n => unsupported (.results n)

/-- A type in which function types nest at most `depth` deep. -/
def formUpTo : (depth : Nat) → Reader TypeForm
  | 0 => formWith abort
  | depth + 1 => formWith (funcOf (formUpTo depth))

/-- A type. Each nested function type takes a byte, so the bytes that are left bound the
nesting. -/
def typeForm : Reader TypeForm :=
  formWith fun s => funcOf (formUpTo s.rest.length) s

/-- A value type. -/
def valueType : Reader ValueType := valueOf typeForm

/-- The result type of a construct. -/
def blockType : Reader (Option ValueType) := do
  match ← typeForm with
  | .value t => return some t
  | .emptyBlock => return none
  | other => unsupported (.notBlockType other)

/-- Size limits. -/
def limits : Reader Limits := do
  let bounded ← flag
  let initial ← varuint 32
  if bounded then return ⟨initial, some (← varuint 32)⟩
  else return ⟨initial, none⟩

/-- The type of a table: its elements are function references. -/
def table : Reader Limits := do
  match ← typeForm with
  | .funcref => limits
  | other => unsupported (.tableOf other)

/-- The type of a global. -/
def globalType : Reader GlobalType := do
  let content ← valueType
  let isMutable ← flag
  return ⟨content, isMutable⟩

end WasmToC.Reader

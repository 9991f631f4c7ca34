import WasmToC.Binary.Decode
import WasmToC.Reconstruct.Function
import WasmToC.Unit.Initializer

/-!
# Compilation units

A module becomes one C compilation unit: declarations, the initializer, and the functions.

## Main definitions

* `C.CompilationUnit` — a unit as data, and its text.
* `assemble` — the unit of a module.
* `emit` — the text of the unit of a module.
* `compile` — the text of the unit of a binary module.
-/

namespace WasmToC

namespace C

/-- A compilation unit. -/
structure CompilationUnit where
  /-- Its file-scope symbols. -/
  symbols : Symbols
  /-- Declarations of what is imported. -/
  externs : List Extern
  /-- File-scope variables. -/
  fields : List Field
  /-- Prototypes of the functions. -/
  prototypes : List Prototype
  /-- The steps of the initializer. -/
  initializer : List InitStep
  /-- The functions. -/
  functions : List FunctionDef

namespace CompilationUnit

/-- Lines with an empty line in front, or nothing. -/
def paragraph (lines : List String) : List String := if lines.isEmpty then [] else "" :: lines

/-- The lines of a unit. -/
def lines (u : CompilationUnit) : List String :=
  let s := u.symbols
  "#include \"wasm_rt.h\"" ::
    paragraph (u.externs.map (Extern.line s)) ++
    paragraph (u.fields.map (Field.line s)) ++
    "" :: u.prototypes.map (Prototype.line s) ++
    ("void " ++ s.initializer ++ "(void);") ::
    "" :: initializerLines s u.initializer ++
    u.functions.flatMap fun f => "" :: f.lines s

/-- The text of a unit. -/
def text (u : CompilationUnit) : String :=
  String.join (u.lines.map fun line => line ++ "\n")

end CompilationUnit

end C

/-- The module's own functions from a position on. -/
def rebuildFrom (m : Module) : (count position : Nat) → Traced (List C.FunctionDef)
  | 0, _ => pure []
  | count + 1, position => do
    let f ← rebuildFunction m position
    let others ← rebuildFrom m count (position + 1)
    return f :: others

/-- The compilation unit of a module. -/
def assemble (m : Module) (o : Options) : Traced C.CompilationUnit := do
  let (symbols, warnings) ← C.Symbols.allot m o
  Traced.notes warnings
  let externs ← externs m
  let prototypes ← prototypes m
  let initializer ← initializer m o
  let functions ← rebuildFrom m m.functions.length 0
  Traced.note .info s!"Translated {m.functions.length} functions"
  return { symbols, externs, fields := fields m, prototypes, initializer, functions }

/-- The C text of a module. -/
def emit (m : Module) (o : Options) : Traced String := do
  return (← assemble m o).text

/-- The C text of a binary module. -/
def compile (bytes : List UInt8) (o : Options) : Traced String := do
  Traced.note .info s!"Translating {bytes.length} bytes"
  let m ← Module.decode ⟨bytes, .clean⟩
  emit m o

end WasmToC

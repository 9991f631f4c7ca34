import WasmToC.C.Ident
import WasmToC.Log
import WasmToC.Options

/-!
# File-scope symbols

The names of everything the emitted unit declares at file scope. Imports keep the host's symbol.
The initializer, then the module's own functions, globals and tables take theirs in index order,
and a name that is already taken gets the first free numeric suffix. Suffixes are signed numbers of
32 bits and indices unsigned ones: where no suffix is left, there is no answer, and what lies beyond
the last index has no name.

## Main definitions

* `C.Symbols` — the symbols of a module.
* `C.Allotment` — the names taken so far, with the warnings about name clashes.
* `C.Symbols.allot` — how symbols are allotted.
* `C.Symbols.ofModule` — the symbols of a module of any size.
-/

namespace WasmToC.C

/-- The symbol of an import. -/
def importSymbol (i : Import) : String := identifier (i.moduleName ++ "_" ++ i.field)

/-- The stem of all symbols the module defines. -/
def stem (o : Options) : String :=
  if o.nameSpace.isEmpty then identifier o.container
  else identifier (o.nameSpace ++ "_" ++ o.container)

/-- A name with a numeric suffix. -/
def suffixed (name : String) (n : Nat) : String := s!"{name}_{n}"

/-- The largest suffix, which is a signed number of 32 bits. -/
def maxSuffix : Nat := 0x7fffffff

/-- The first suffix from `n` on whose name is free. The run stops where no suffix is left to try:
the counter overflows. -/
def freeSuffix (taken : List String) (name : String) : (left n : Nat) → Except Failure Nat
  | 0, _ => .error .abort
  | left + 1, n =>
    if taken.contains (suffixed name n) then freeSuffix taken name left (n + 1) else .ok n

/-- Names taken so far, and what was said about clashes. -/
structure Allotment where
  /-- The names that are taken. -/
  taken : List String
  /-- Warnings, oldest first. -/
  warnings : List Record := []
  deriving DecidableEq

namespace Allotment

/-- Takes a name, or the name with the first free suffix of those up to `last`. -/
def take (last : Nat) (a : Allotment) (name : String) : Except Failure (String × Allotment) :=
  if a.taken.contains name then do
    let chosen := suffixed name (← freeSuffix a.taken name last 1)
    let warning : Record := ⟨.warn, s!"{name} is already defined, using {chosen}"⟩
    return (chosen, { taken := chosen :: a.taken, warnings := a.warnings ++ [warning] })
  else return (name, { a with taken := name :: a.taken })

/-- Names something that keeps its own name, if it has one, and asks for another one otherwise. -/
def give (last : Nat) (fixed? : Option String) (wanted : String) (a : Allotment) :
    Except Failure (String × Allotment) :=
  match fixed? with
  | some name => .ok (name, a)
  | none => a.take last wanted

/-- Names a list of things one after the other: `fixed?` gives the name of what keeps its own, and
`wanted` the name that everything else asks for. -/
def takeAll (last : Nat) (fixed? : Nat → Option String) (wanted : Nat → String) :
    List Nat → Allotment → Except Failure (List String × Allotment)
  | [], a => .ok ([], a)
  | i :: rest, a => do
    let (name, a) ← a.give last (fixed? i) (wanted i)
    let (names, a) ← takeAll last fixed? wanted rest a
    return (name :: names, a)

end Allotment

/-- The file-scope symbols of a module. -/
structure Symbols where
  /-- The stem of the names the module defines. -/
  stem : String
  /-- The initializer. -/
  initializer : String
  /-- Functions, by index. -/
  functions : List String
  /-- Globals, by index. -/
  globals : List String
  /-- Tables, with their indices. -/
  tables : List (Nat × String)
  deriving DecidableEq, Repr

/-- The name the module's own function, global or table asks for: that of its first export, or its
kind's letter with its index. -/
def wantedSymbol (m : Module) (stem : String) (kind : ExternKind) (letter : String) (i : Nat) :
    String :=
  match m.exportName? kind i with
  | some field => identifier (stem ++ "_" ++ field)
  | none => stem ++ "_" ++ letter ++ toString i

/-- The symbol of what an index stands for, if that is an import. -/
def resolvedSymbol? : Option Resolved → Option String
  | some (.imported i) => some (importSymbol i)
  | _ => none

/-- Adds a number to an ascending list without repetition. -/
def insertAscending (n : Nat) : List Nat → List Nat
  | [] => [n]
  | k :: rest =>
    if n < k then n :: k :: rest else if n = k then k :: rest else k :: insertAscending n rest

/-- The tables that have a name: the first ones, and those filled by a segment or exported,
ascending. -/
def tablesFrom (first : Nat) (m : Module) : List Nat :=
  let filled := m.segments.map Segment.table
  let exported := (m.exports.filter fun e => e.kind == .table).map Export.index
  (filled ++ exported).foldl (fun found i => insertAscending i found) (List.range first)

/-- The tables that have a name: those imported, filled by a segment or exported, ascending. -/
def tableIndices (m : Module) : List Nat := tablesFrom m.importedTables m

/-- The number of names at file scope, those of imports and of the initializer included. -/
def nameCount (m : Module) : Nat :=
  m.imports.length + 1 + (m.importedFunctions + m.signatures.length) +
    (m.importedGlobals + m.globals.length) + (tableIndices m).length

namespace Symbols

/-- Allots symbols, with suffixes up to `last`, to given numbers of functions, globals and imported
tables; the warnings about clashes come with them. -/
def allotUpTo (last functions globals tables : Nat) (m : Module) (o : Options) :
    Except Failure (Symbols × List Record) := do
  let stem := C.stem o
  let a : Allotment := { taken := m.imports.map importSymbol }
  let (initializer, a) ← a.take last (stem ++ "_init")
  let (functions, a) ← a.takeAll last (fun i => resolvedSymbol? (m.function? i))
    (wantedSymbol m stem .function "F") (List.range functions)
  let (globals, a) ← a.takeAll last (fun i => resolvedSymbol? (m.global? i))
    (wantedSymbol m stem .global "G") (List.range globals)
  let indices := tablesFrom tables m
  let (tables, a) ← a.takeAll last (fun i => (m.tableImport? i).map importSymbol)
    (wantedSymbol m stem .table "T") indices
  return (⟨stem, initializer, functions, globals, indices.zip tables⟩, a.warnings)

/-- Allots the symbols of a module. Numbers of functions, globals and imported tables are cut to
32 bits. -/
def allot (m : Module) (o : Options) : Except Failure (Symbols × List Record) :=
  allotUpTo maxSuffix ((m.importedFunctions + m.signatures.length) % 0x100000000)
    ((m.importedGlobals + m.globals.length) % 0x100000000) (m.importedTables % 0x100000000) m o

/-- The symbols of a module, with as many suffixes as it takes: one for each name is enough. -/
def ofModule (m : Module) (o : Options) : Symbols :=
  match allotUpTo (nameCount m) (m.importedFunctions + m.signatures.length)
    (m.importedGlobals + m.globals.length) m.importedTables m o with
  | .ok (s, _) => s
  | .error _ => ⟨C.stem o, C.stem o ++ "_init", [], [], []⟩

/-- The symbol of a function. An index out of range gets its letter name. -/
def function (s : Symbols) (i : Nat) : String := s.functions[i]?.getD s!"{s.stem}_F{i}"

/-- The symbol of a global. An index out of range gets its letter name. -/
def global (s : Symbols) (i : Nat) : String := s.globals[i]?.getD s!"{s.stem}_G{i}"

/-- The symbol of a table. A table without a name gets its letter name. -/
def table (s : Symbols) (i : Nat) : String := (s.tables.lookup i).getD s!"{s.stem}_T{i}"

end Symbols

end WasmToC.C

/-!
# Options

What the caller chooses about the emitted C.

## Main definitions

* `Options` — names and default memory size of the emitted unit.
-/

namespace WasmToC

/-- What the caller chooses about the emitted C. -/
structure Options where
  /-- The first part of the symbol stem; may be empty. -/
  nameSpace : String := "Wasm"
  /-- The second part of the symbol stem. -/
  container : String := "Module"
  /-- The memory size, in pages, of a module that neither imports nor declares a memory. -/
  memoryPages : Nat := 16
  deriving DecidableEq, Repr

end WasmToC

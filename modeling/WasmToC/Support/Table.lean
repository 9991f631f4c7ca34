import WasmToC.Support.Memory

/-!
# Tables

Tables of function references. A table grows as far as it is filled, and slots that nothing has
been copied to are empty.

## Main definitions

* `Support.Table` — a table.
* `Support.Table.fill` — copying references into a table.
-/

namespace WasmToC.Support

/-- The largest table size. -/
def maxTableSize : Nat := 4294967295

/-- A table; function references are numbers. -/
structure Table where
  /-- The number of slots. -/
  size : Nat := 0
  /-- What each slot holds. -/
  entry : Nat → Option Nat := fun _ => none

namespace Table

/-- The table with `stop` slots at least; those that are new are empty. -/
def grow (t : Table) (stop : Nat) : Table :=
  if t.size < stop then
    ⟨stop, fun i => if t.size ≤ i ∧ i < stop then none else t.entry i⟩
  else t

/-- Copies references, one after the other, to the slots from `slot` on. Slots are numbers of 32
bits. -/
def copy (t : Table) : (slot : Nat) → List Nat → Table
  | _, [] => t
  | slot, e :: rest =>
    copy { t with entry := fun i => if i = slot then some e else t.entry i }
      ((slot + 1) % Nat.pow 2 32) rest

/-- Copies references to the slots from `offset` on, growing the table when needed. -/
def fill (t : Table) (offset : Nat) (elements : List Nat) : Except Trap Table :=
  let stop := offset + elements.length
  if maxTableSize < stop then .error .outOfBounds
  else .ok ((t.grow stop).copy offset elements)

/-- The reference in a slot, if there is one. -/
def get? (t : Table) (i : Nat) : Option Nat := if i < t.size then t.entry i else none

end Table

end WasmToC.Support

import WasmToC.C.Stmt
import WasmToC.Reconstruct.Footprint

/-!
# The state of reconstruction

A function body is read instruction by instruction. Operands wait as pending expressions;
statements collect in the innermost open construct.

## Main definitions

* `Pending` — an expression on the operand stack.
* `Scope` — the operands and statements of one construct.
* `Construct` — an open block, loop or conditional.
* `Rebuild` — the whole state.
* `Rebuild.spill` — evaluating operands into temporaries.
-/

namespace WasmToC

open C (Expr Stmt)

/-- An expression on the operand stack. -/
structure Pending where
  /-- The expression. -/
  expr : Expr
  /-- Its type. -/
  type : ValueType
  /-- What it reads and does. -/
  uses : Footprint

namespace Pending

/-- A temporary. -/
def temp (i : Nat) (t : ValueType) : Pending := ⟨.temp i, t, .none⟩

/-- A parameter or local. -/
def var (i : Nat) (t : ValueType) : Pending := ⟨.var i, t, .var i⟩

/-- A global. -/
def global (i : Nat) (t : ValueType) : Pending := ⟨.global i, t, .global⟩

/-- A constant. -/
def const (v : Value) : Pending := ⟨.const v, v.type, .none⟩

/-- A zero. -/
def zero (t : ValueType) : Pending := ⟨.zero t, t, .none⟩

/-- The memory size. -/
def memorySize : Pending := ⟨.memorySize, .i32, Footprint.none.readingMemory⟩

/-- Growing the memory. -/
def memoryGrow (delta : Pending) : Pending :=
  ⟨.memoryGrow delta.expr, .i32, (Footprint.union [delta.uses]).withEffects⟩

/-- A load. -/
def load (op : Load) (address : Pending) (offset : Nat) : Pending :=
  ⟨.load op address.expr offset, op.type, (Footprint.union [address.uses]).readingMemory⟩

/-- A call with a result. -/
def call (f : Nat) (args : List Pending) (t : ValueType) : Pending :=
  ⟨.call f (args.map expr), t, (Footprint.union (args.map uses)).withEffects⟩

/-- A numeric instruction. -/
def numeric (op : Numeric) (args : List Pending) : Pending :=
  ⟨.numeric op (args.map expr), op.shape.result, Footprint.union (args.map uses)⟩

/-- A choice by a condition; its type is that of the first alternative. -/
def choose (condition yes no : Pending) : Pending :=
  ⟨.choose condition.expr yes.expr no.expr, yes.type,
    Footprint.union [condition.uses, yes.uses, no.uses]⟩

end Pending

/-- The operands and statements of one construct. -/
structure Scope where
  /-- Operands, last one first. -/
  values : List Pending := []
  /-- Statements, in order. -/
  code : Array Stmt := #[]

/-- The kind of an open construct, with what its kind has to remember. -/
inductive ConstructKind where
  /-- A block. -/
  | block
  /-- A loop. -/
  | loop
  /-- The first arm of a conditional. -/
  | ifArm (condition : Pending)
  /-- The second arm of a conditional. The first arm's value is kept while its arm has no
  statements. -/
  | elseArm (condition : Pending) (thenCode : Array Stmt) (thenValue : Option Pending)
      (thenLive : Bool)

/-- An open construct. -/
structure Construct where
  /-- Its kind. -/
  kind : ConstructKind
  /-- Its result type. -/
  result : Option ValueType
  /-- Its label: a loop has one from the start, every other construct from the first branch to
  it. -/
  label : Option Nat := none
  /-- The temporary that carries its result. -/
  temp : Option Nat := none
  /-- The scope it stands in. -/
  enclosing : Scope

/-- Whether the next instruction can be reached. -/
inductive Reach where
  /-- It can. -/
  | live
  /-- It cannot; `nested` constructs have been opened since. -/
  | dead (nested : Nat)
  deriving DecidableEq, Repr

/-- Whether the next instruction can be reached. -/
def Reach.isLive : Reach → Bool
  | live => true
  | dead _ => false

/-- The state of reconstruction. -/
structure Rebuild where
  /-- The innermost scope. -/
  scope : Scope := {}
  /-- Open constructs, innermost first. -/
  constructs : List Construct := []
  /-- Whether the next instruction can be reached. -/
  reach : Reach := .live
  /-- The types of the temporaries in use. -/
  temps : Array ValueType := #[]
  /-- The number of labels in use. -/
  labels : Nat := 0

namespace Rebuild

variable (r : Rebuild)

/-- Adds a statement to the innermost scope. -/
def emit (s : Stmt) : Rebuild := { r with scope := { r.scope with code := r.scope.code.push s } }

/-- Pushes an operand. -/
def push (v : Pending) : Rebuild :=
  { r with scope := { r.scope with values := v :: r.scope.values } }

/-- Replaces the operands of the innermost scope. -/
def withValues (values : List Pending) : Rebuild :=
  { r with scope := { r.scope with values } }

/-- A new temporary of a type. -/
def newTemp (t : ValueType) : Nat × Rebuild :=
  (r.temps.size, { r with temps := r.temps.push t })

/-- The rest of the innermost construct cannot be reached. -/
def kill : Rebuild := { r.withValues [] with reach := .dead 0 }

/-! ## Spilling -/

/-- Marks the operands that have to be evaluated. The list starts with the last operand, which
is evaluated last: whatever is marked becomes part of the hazard for the operands below it. -/
def markConflicts (h : Hazard) : List (Pending × Bool) → List (Pending × Bool)
  | [] => []
  | (v, marked) :: below =>
    if marked || h.conflicts v.uses then
      (v, true) :: markConflicts (h.and (.evaluating v.uses)) below
    else (v, false) :: markConflicts h below

/-- Evaluates the marked operands into temporaries, the lowest first. A value that is the same
whenever it is evaluated stays as it is. -/
def evaluateMarked : List (Pending × Bool) → Rebuild → List Pending × Rebuild
  | [], r => ([], r)
  | (v, marked) :: below, r =>
    let (values, r) := evaluateMarked below r
    if marked && !v.uses.isStable then
      let (t, r) := r.newTemp v.type
      (.temp t v.type :: values, r.emit (.assign (.temp t) v.expr))
    else (v :: values, r)

/-- Evaluates the operands that `marked` selects by their distance from the last one, and every
operand below that their evaluation, or the hazard, would disturb. -/
def spill (marked : Nat → Pending → Bool) (h : Hazard) : Rebuild :=
  let chosen := markConflicts h (r.scope.values.mapIdx fun i v => (v, marked i v))
  let (values, r) := evaluateMarked chosen r
  r.withValues values

/-- Evaluates the operands that a hazard would disturb. -/
def settle (h : Hazard) : Rebuild := r.spill (fun _ _ => false) h

/-- Evaluates all operands. -/
def spillAll : Rebuild := r.spill (fun _ _ => true) .none

/-- Evaluates the last `count` operands in order, but for the very last, if they could observe
each other: C does not say in which order operands are evaluated. -/
def sequence (count : Nat) : Rebuild :=
  let operands := r.scope.values.take count
  if operands.any (fun v => v.uses.effects) &&
      1 < (operands.filter fun v => v.uses.dependsOnState).length then
    r.spill (fun i v => 0 < i && i < count && v.uses.dependsOnState) .none
  else r

end Rebuild

end WasmToC

/-!
# Footprints and hazards

A pending expression is evaluated later than the instruction that built it. Its footprint says
what it reads and does, and a hazard says what is about to happen; where they conflict, the
expression has to be evaluated first.

## Main definitions

* `Footprint` — what an expression reads and does.
* `Footprint.union` — the footprint of an expression with given parts.
* `Hazard` — what is about to happen.
* `Hazard.conflicts` — whether it may change or be changed by an expression.
-/

namespace WasmToC

/-- What an expression reads and does. -/
structure Footprint where
  /-- The locals it reads, in order of first occurrence. -/
  locals : List Nat := []
  /-- Whether it reads a global. -/
  readsGlobals : Bool := false
  /-- Whether it reads memory. -/
  readsMemory : Bool := false
  /-- Whether it calls a function or grows the memory. -/
  effects : Bool := false
  deriving DecidableEq, Repr, Inhabited

namespace Footprint

/-- The footprint of what reads nothing that can change. -/
def none : Footprint := {}

/-- The footprint of a local. -/
def var (i : Nat) : Footprint := { locals := [i] }

/-- The footprint of a global. -/
def global : Footprint := { readsGlobals := true }

/-- Adds the locals of a list that are not there yet. -/
def addLocals (known : List Nat) : List Nat → List Nat
  | [] => known
  | i :: rest => addLocals (if known.contains i then known else known ++ [i]) rest

/-- Both footprints together. -/
def add (a b : Footprint) : Footprint where
  locals := addLocals a.locals b.locals
  readsGlobals := a.readsGlobals || b.readsGlobals
  readsMemory := a.readsMemory || b.readsMemory
  effects := a.effects || b.effects

/-- The footprint of an expression with given parts. -/
def union (parts : List Footprint) : Footprint := parts.foldl add none

/-- The footprint with a read of memory added. -/
def readingMemory (f : Footprint) : Footprint := { f with readsMemory := true }

/-- The footprint with effects added. -/
def withEffects (f : Footprint) : Footprint := { f with effects := true }

/-- Whether a local is read. -/
def readsLocal (f : Footprint) (i : Nat) : Bool := f.locals.contains i

/-- Whether globals or memory are read. -/
def readsState (f : Footprint) : Bool := f.readsGlobals || f.readsMemory

/-- Whether the value may be another after a call or a store. -/
def dependsOnState (f : Footprint) : Bool := f.readsState || f.effects

/-- Whether the value is the same whenever it is evaluated. -/
def isStable (f : Footprint) : Bool := f.locals.isEmpty && !f.dependsOnState

end Footprint

/-- What is about to happen. -/
structure Hazard where
  /-- The local that is assigned. -/
  assigns : Option Nat := none
  /-- Whether globals or memory may change. -/
  writesState : Bool := false
  /-- Whether globals or memory are read, or control leaves. -/
  readsState : Bool := false
  deriving DecidableEq, Repr, Inhabited

namespace Hazard

/-- Nothing is about to happen. -/
def none : Hazard := {}

/-- The evaluation of an expression. -/
def evaluating (f : Footprint) : Hazard :=
  { writesState := f.effects, readsState := f.dependsOnState }

/-- Control leaves, or traps: calls that are pending have to come first. -/
def leaving : Hazard := { readsState := true }

/-- A change of globals or memory. -/
def writing : Hazard := { writesState := true }

/-- A call or a store. -/
def effect : Hazard := { writesState := true, readsState := true }

/-- The assignment of a local. -/
def assigning (i : Nat) : Hazard := { assigns := some i }

/-- Both together. -/
def and (a b : Hazard) : Hazard where
  assigns := a.assigns.or b.assigns
  writesState := a.writesState || b.writesState
  readsState := a.readsState || b.readsState

/-- Whether an expression has to be evaluated before. -/
def conflicts (h : Hazard) (f : Footprint) : Bool :=
  (match h.assigns with
    | some i => f.readsLocal i
    | Option.none => false) ||
  (h.writesState && f.dependsOnState) ||
  (h.readsState && f.effects)

end Hazard

end WasmToC

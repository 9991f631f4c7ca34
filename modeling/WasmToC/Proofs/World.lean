import WasmToC.Wasm.Access
import WasmToC.Wasm.Numeric

/-!
# The world a function runs in

What WebAssembly code and the C code made of it have in common when they run: globals, a linear
memory, the functions they call, and a record of everything they do to the outside. The memory,
the numeric instructions and the behaviour of every callee are parameters, so that whatever is
said about a run holds for all of them.

## Main definitions

* `Shared` — globals, memory, and a state that only callees see.
* `Host` — the meaning of numeric instructions, memory accesses and calls.
* `Event` — what a run does to the outside.
* `World` — the shared state together with the events so far.
-/

namespace WasmToC

/-- The value that a variable has before anything is assigned to it. -/
def ValueType.zero : ValueType → Value
  | i32 => .i32 0
  | i64 => .i64 0
  | f32 => .f32 0
  | f64 => .f64 0

/-- Whether a value, used as a condition, holds. -/
def Value.isTrue (v : Value) : Bool := v.bits != 0

/-- What the code of a module and its callees work on together. -/
structure Shared (μ σ : Type) where
  /-- The globals, by index. -/
  globals : Nat → Value
  /-- The linear memory. -/
  memory : μ
  /-- Whatever else the callees remember from one call to the next. -/
  hidden : σ

/-- What the host and the support library do. An access or a call without an answer traps, or
does not return. -/
structure Host (μ σ : Type) where
  /-- The result of a numeric instruction. -/
  numeric : Numeric → List Value → Value
  /-- What a load gives. -/
  load : Load → μ → (addr : Value) → (off : Nat) → Option Value
  /-- The memory after a store. -/
  store : Store → μ → (addr : Value) → (off : Nat) → (value : Value) → Option μ
  /-- The memory size. -/
  size : μ → Value
  /-- Growing the memory. -/
  grow : (delta : Value) → Shared μ σ → Option (Value × Shared μ σ)
  /-- Calling a function, by index. The value of a function without a result is not used. -/
  call : Nat → List Value → Shared μ σ → Option (Value × Shared μ σ)
  /-- Calling the function in a slot of the table as one of a given type. -/
  callIndirect : Nat → (slot : Value) → List Value → Shared μ σ → Option (Value × Shared μ σ)

/-- What a run does to the outside. -/
inductive Event where
  /-- A call. -/
  | call (f : Nat) (args : List Value)
  /-- An indirect call. -/
  | callIndirect (typeIndex : Nat) (slot : Value) (args : List Value)
  /-- Growing the memory. -/
  | grow (delta : Value)
  /-- A store. -/
  | store (op : Store) (addr : Value) (off : Nat) (value : Value)
  /-- The assignment of a global. -/
  | setGlobal (i : Nat) (value : Value)
  deriving DecidableEq

/-- The shared state, and everything done to it so far. -/
structure World (μ σ : Type) where
  /-- The shared state. -/
  shared : Shared μ σ
  /-- The events, oldest first. -/
  events : List Event

namespace World

variable {μ σ : Type} (H : Host μ σ) (w : World μ σ)

/-- The world after an event that left a given shared state. -/
def after (e : Event) (shared : Shared μ σ) : World μ σ := ⟨shared, w.events ++ [e]⟩

/-- A call. -/
def call (f : Nat) (args : List Value) : Option (Value × World μ σ) :=
  (H.call f args w.shared).map fun (v, shared) => (v, w.after (.call f args) shared)

/-- An indirect call. -/
def callIndirect (typeIndex : Nat) (slot : Value) (args : List Value) :
    Option (Value × World μ σ) :=
  (H.callIndirect typeIndex slot args w.shared).map fun (v, shared) =>
    (v, w.after (.callIndirect typeIndex slot args) shared)

/-- Growing the memory. -/
def grow (delta : Value) : Option (Value × World μ σ) :=
  (H.grow delta w.shared).map fun (v, shared) => (v, w.after (.grow delta) shared)

/-- A load. -/
def load (op : Load) (addr : Value) (off : Nat) : Option Value :=
  H.load op w.shared.memory addr off

/-- A store. -/
def store (op : Store) (addr : Value) (off : Nat) (value : Value) : Option (World μ σ) :=
  (H.store op w.shared.memory addr off value).map fun memory =>
    w.after (.store op addr off value) { w.shared with memory }

/-- The memory size. -/
def memorySize : Value := H.size w.shared.memory

/-- The assignment of a global. -/
def setGlobal (i : Nat) (value : Value) : World μ σ :=
  w.after (.setGlobal i value)
    { w.shared with globals := fun j => if j = i then value else w.shared.globals j }

end World

end WasmToC

import WasmToC.Proofs.World
import WasmToC.Wasm.Module

/-!
# Running WebAssembly code

The meaning of function bodies, as an interpreter on the flat instruction sequence. A construct
runs the instructions up to its `end` on an operand stack of its own. A branch ends the constructs
it leaves, takes the values that the target's type asks for along, and goes on behind the target or,
for a loop, at its start. `fuel` bounds the length of a run; a run that ends has the same outcome
under every larger bound.

## Main definitions

* `Wasm.perform` — an instruction that is not a construct.
* `Wasm.exec` — an instruction sequence.
* `Wasm.invoke` — a function of a module.
-/

namespace WasmToC.Wasm

/-! ## Constructs in flat code -/

/-- Splits code behind an opened construct at the `end` that closes it. `nested` constructs have
been opened since. -/
def bodyOf : (nested : Nat) → List Instruction → Option (List Instruction × List Instruction)
  | _, [] => none
  | nested, i :: rest =>
    if i.op.opensConstruct then (bodyOf (nested + 1) rest).map fun (b, a) => (i :: b, a)
    else if i.op = .endOp then
      match nested with
      | 0 => some ([], rest)
      | nested + 1 => (bodyOf nested rest).map fun (b, a) => (i :: b, a)
    else (bodyOf nested rest).map fun (b, a) => (i :: b, a)

/-- Splits the body of a conditional at its own `else`, if it has one. `nested` constructs have
been opened since. -/
def armsOf : (nested : Nat) → List Instruction → List Instruction × Option (List Instruction)
  | _, [] => ([], none)
  | nested, i :: rest =>
    if i.op.opensConstruct then
      let (yes, no) := armsOf (nested + 1) rest
      (i :: yes, no)
    else if i.op = .endOp then
      let (yes, no) := armsOf (nested - 1) rest
      (i :: yes, no)
    else if i.op = .elseOp ∧ nested = 0 then ([], some rest)
    else
      let (yes, no) := armsOf nested rest
      (i :: yes, no)

/-! ## States and outcomes -/

/-- The state of a running function. -/
structure State (μ σ : Type) where
  /-- Operands of the innermost construct, last one first. -/
  stack : List Value
  /-- Parameters and locals. -/
  locals : List Value
  /-- The world outside the function. -/
  world : World μ σ

/-- Why a run traps. -/
inductive Trap where
  /-- A load is out of bounds. -/
  | load
  /-- A store is out of bounds. -/
  | store
  /-- The code says so, or a callee does not return. -/
  | other

/-- How an instruction sequence ends. -/
inductive Outcome (μ σ : Type) where
  /-- At its end. -/
  | next (s : State μ σ)
  /-- By a branch to the construct that is `d` levels further out. -/
  | branch (d : Nat) (s : State μ σ)
  /-- By a return. -/
  | leave (s : State μ σ)
  /-- By a trap. -/
  | trap (cause : Trap) (w : World μ σ)

variable {μ σ : Type}

namespace State

variable (s : State μ σ)

/-- Pushes an operand. -/
def push (v : Value) : State μ σ := { s with stack := v :: s.stack }

/-- Takes the last operand. -/
def pop : Option (Value × State μ σ) :=
  match s.stack with
  | [] => none
  | v :: vs => some (v, { s with stack := vs })

/-- Takes the last `n` operands; they are returned oldest first. -/
def popMany (n : Nat) : Option (List Value × State μ σ) :=
  if n ≤ s.stack.length then
    some ((s.stack.take n).reverse, { s with stack := s.stack.drop n })
  else none

/-- The state in which the body of a construct starts: it has an operand stack of its own. -/
def inside : State μ σ := { s with stack := [] }

/-- The values that a result type asks for, on top of the operands outside. -/
def leaveWith (res : Option ValueType) (cs : List Value) : State μ σ :=
  { s with stack := s.stack.take (if res.isSome then 1 else 0) ++ cs }

/-- The state after a call with a given answer; a callee that does not return is a trap. -/
def resume (res : Option ValueType) (answer : Option (Value × World μ σ)) : Outcome μ σ :=
  match answer with
  | none => .trap .other s.world
  | some (v, w) => .next
    { s with world := w, stack := if res.isSome then v :: s.stack else s.stack }

/-- The result a function leaves on its operand stack. -/
def result? (res : Option ValueType) : Option (Option Value) :=
  match res with
  | none => some none
  | some _ => s.stack.head?.map some

end State

namespace Outcome

/-- Goes on behind a sequence that ran to its end. -/
def andThen (o : Outcome μ σ) (rest : State μ σ → Option (Outcome μ σ)) : Option (Outcome μ σ) :=
  match o with
  | next s => rest s
  | o => some o

/-- The outcome of a construct whose body has a given outcome: a branch to the construct itself goes
on behind it. -/
def exit (res : Option ValueType) (cs : List Value) : Outcome μ σ → Outcome μ σ
  | next s => .next (s.leaveWith res cs)
  | branch 0 s => .next (s.leaveWith res cs)
  | branch (d + 1) s => .branch d s
  | o => o

end Outcome

/-! ## Instructions -/

variable (H : Host μ σ) (m : Module)

/-- An instruction that is not a construct. There is no outcome when its immediate or its operands
are not there. -/
def perform (i : Instruction) (s : State μ σ) : Option (Outcome μ σ) :=
  match i.op with
  | .nop => some (.next s)
  | .unreachable => some (.trap .other s.world)
  | .br => do return .branch (← i.imm.depth?) s
  | .brIf => do
    let d ← i.imm.depth?
    let (c, s) ← s.pop
    return if c.isTrue then .branch d s else .next s
  | .brTable =>
    match i.imm with
    | .table targets default => do
      let (index, s) ← s.pop
      return .branch (targets[index.bits]?.getD default) s
    | _ => none
  | .returnOp => some (.leave s)
  | .call => do
    let f ← i.imm.index?
    let t ← m.functionType? f
    let (args, s) ← s.popMany t.params.length
    return s.resume t.result (s.world.call H f args)
  | .callIndirect =>
    match i.imm with
    | .callIndirect typeIndex _ => do
      let t ← m.types[typeIndex]?
      let (slot, s) ← s.pop
      let (args, s) ← s.popMany t.params.length
      return s.resume t.result (s.world.callIndirect H typeIndex slot args)
    | _ => none
  | .drop => do
    let (_, s) ← s.pop
    return .next s
  | .select => do
    let (c, s) ← s.pop
    let (second, s) ← s.pop
    let (first, s) ← s.pop
    return .next (s.push (if c.isTrue then first else second))
  | .getLocal => do
    let v ← s.locals[← i.imm.index?]?
    return .next (s.push v)
  | .setLocal => do
    let index ← i.imm.index?
    let (v, s) ← s.pop
    return .next { s with locals := s.locals.set index v }
  | .teeLocal => do
    let index ← i.imm.index?
    let (v, _) ← s.pop
    return .next { s with locals := s.locals.set index v }
  | .getGlobal => do return .next (s.push (s.world.shared.globals (← i.imm.index?)))
  | .setGlobal => do
    let index ← i.imm.index?
    let (v, s) ← s.pop
    return .next { s with world := s.world.setGlobal index v }
  | .load op => do
    let off ← i.imm.offset?
    let (addr, s) ← s.pop
    return match s.world.load H op addr off with
      | some v => .next (s.push v)
      | none => .trap .load s.world
  | .store op => do
    let off ← i.imm.offset?
    let (value, s) ← s.pop
    let (addr, s) ← s.pop
    return match s.world.store H op addr off value with
      | some w => .next { s with world := w }
      | none => .trap .store s.world
  | .currentMemory => some (.next (s.push (s.world.memorySize H)))
  | .growMemory => do
    let (delta, s) ← s.pop
    return s.resume (some .i32) (s.world.grow H delta)
  | .const _ => do return .next (s.push (← i.imm.value?))
  | .numeric op => do
    let (args, s) ← s.popMany op.shape.arity
    return .next (s.push (H.numeric op args))
  | .block | .loop | .ifOp | .elseOp | .endOp => none

/-- An instruction sequence, run for at most `fuel` instructions in a row. There is no outcome when
that is not enough, or when the code is not well formed where the run comes along. -/
def exec : (fuel : Nat) → List Instruction → State μ σ → Option (Outcome μ σ)
  | 0, _, _ => none
  | _ + 1, [], s => some (.next s)
  | fuel + 1, i :: rest, s =>
    match i.op with
    | .block => do
      let res ← i.imm.block?
      let (body, post) ← bodyOf 0 rest
      let o ← exec fuel body s.inside
      (o.exit res s.stack).andThen (exec fuel post)
    | .loop => do
      let res ← i.imm.block?
      let (body, post) ← bodyOf 0 rest
      match ← exec fuel body s.inside with
      | .branch 0 again => exec fuel (i :: rest) { again with stack := s.stack }
      | o => (o.exit res s.stack).andThen (exec fuel post)
    | .ifOp => do
      let res ← i.imm.block?
      let (c, s) ← s.pop
      let (body, post) ← bodyOf 0 rest
      let (yes, no) := armsOf 0 body
      let arm := if c.isTrue then yes else no.getD []
      let o ← exec fuel arm s.inside
      (o.exit res s.stack).andThen (exec fuel post)
    | _ => do (← perform H m i s).andThen (exec fuel rest)

/-- The body of one of the module's own functions, run on arguments: its result and the world it
leaves. Its locals start at zero. There is no answer when the run traps or takes more than `fuel`
instructions in a row. -/
def invoke (pos : Nat) (args : List Value) (w : World μ σ) (fuel : Nat) :
    Option (Option Value × World μ σ) := do
  let f ← m.functions[pos]?
  let t ← m.types[f.typeIndex]?
  let locals := args ++ f.locals.map ValueType.zero
  match ← exec H m fuel f.code ⟨[], locals, w⟩ with
  | .next s | .leave s | .branch 0 s => return (← s.result? t.result, s.world)
  | _ => none

/-- The outcome of the body of one of the module's own functions, run on arguments for at most
`fuel` instructions in a row. -/
def outcome (pos : Nat) (args : List Value) (w : World μ σ) (fuel : Nat) :
    Option (Outcome μ σ) := do
  let f ← m.functions[pos]?
  exec H m fuel f.code ⟨[], args ++ f.locals.map ValueType.zero, w⟩

end WasmToC.Wasm

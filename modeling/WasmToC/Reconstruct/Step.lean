import WasmToC.Reconstruct.State

/-!
# One instruction at a time

What each instruction does to the state of reconstruction. Unreachable instructions are skipped;
only their nesting is followed.

## Main definitions

* `Surroundings` — what an instruction's meaning depends on besides the state.
* `Rebuild.step` — one instruction.
* `Rebuild.close` — the end of a construct.
* `Rebuild.branch`, `Rebuild.branchIf` — branches.
-/

namespace WasmToC

open C (Expr Stmt)

/-- What the meaning of a function's instructions depends on. -/
structure Surroundings where
  /-- The module. -/
  inModule : Module
  /-- The function's index. -/
  index : Nat
  /-- The function's type. -/
  type : FuncType
  /-- The types of its parameters and locals. -/
  locals : List ValueType

/-- The instruction at work, for error messages. -/
structure Site where
  /-- What it stands in. -/
  around : Surroundings
  /-- Its opcode. -/
  op : Opcode

namespace Site

variable {α : Type} (site : Site)

/-- Refuses the instruction. -/
def refuse (fault : BodyFault) : Except Failure α :=
  .error (.error (.invalid (.body site.around.index fault site.op)))

/-- Refuses the instruction as not supported. -/
def unsupported (what : Unsupported) : Except Failure α :=
  .error (.error (.unsupported (some site.around.index) (some site.op.byte) what))

/-- A part of the immediate that has to be there. -/
def need (part : Option α) (fault : BodyFault) : Except Failure α :=
  match part with
  | some a => .ok a
  | none => site.refuse fault

end Site

namespace Rebuild

variable (site : Site) (r : Rebuild)

/-! ## Operands -/

/-- Checks that there are `count` operands. -/
def require (count : Nat) : Except Failure Unit :=
  if r.scope.values.length < count then site.refuse (.operands count) else .ok ()

/-- Takes the last operand. -/
def pop : Except Failure (Pending × Rebuild) :=
  match r.scope.values with
  | [] => site.refuse (.operands 1)
  | v :: below => .ok (v, r.withValues below)

/-- Takes the last operand, which has to have a given type. -/
def popTyped (t : ValueType) : Except Failure (Pending × Rebuild) := do
  let (v, r) ← r.pop site
  if v.type = t then return (v, r) else site.refuse (.operandType t v.type)

/-- The last operand, which has to have a given type and stays. -/
def peekTyped (t : ValueType) : Except Failure Pending := do
  let (v, _) ← r.popTyped site t
  return v

/-- Takes operands of given types, the last type first, onto those taken already. -/
def popEach : List ValueType → List Pending → Rebuild → Except Failure (List Pending × Rebuild)
  | [], taken, r => .ok (taken, r)
  | t :: types, taken, r => do
    let (v, r) ← r.popTyped site t
    popEach types (v :: taken) r

/-- Takes operands of given types; they are returned in the order of the types. -/
def popArgs (types : List ValueType) : Except Failure (List Pending × Rebuild) :=
  popEach site types.reverse [] r

/-! ## Labels and result temporaries -/

/-- The construct a branch depth leads to; `none` stands for the function body. -/
def target (depth : Nat) : Except Failure (Option Construct) :=
  if h : depth < r.constructs.length then .ok (some r.constructs[depth])
  else if depth = r.constructs.length then .ok none
  else site.refuse (.branchDepth depth)

/-- Changes the construct at a depth. -/
def updateConstruct (depth : Nat) (f : Construct → Construct) : Rebuild :=
  { r with constructs := r.constructs.modify depth f }

/-- The label of the construct at a depth, which gets one if it has none. -/
def labelOf (depth : Nat) (c : Construct) : Nat × Rebuild :=
  match c.label with
  | some label => (label, r)
  | none =>
    let label := r.labels + 1
    (label, { r with labels := label }.updateConstruct depth fun c =>
      { c with label := some label })

/-- The temporary for the result of the construct at a depth, which gets one if it has none. -/
def resultTemp (depth : Nat) (c : Construct) (t : ValueType) : Nat × Rebuild :=
  match c.temp with
  | some temp => (temp, r)
  | none =>
    let (temp, r) := r.newTemp t
    (temp, r.updateConstruct depth fun c => { c with temp := some temp })

/-! ## Opening constructs -/

/-- Opens a construct; everything emitted from now on stands inside. -/
def openConstruct (kind : ConstructKind) (result : Option ValueType) (label : Option Nat) :
    Rebuild :=
  { r with
    scope := {}
    constructs := { kind, result, label, enclosing := r.scope } :: r.constructs }

/-- A `block`, `loop` or `if`. Operands that wait outside are evaluated before. -/
def enter (op : Opcode) (result : Option ValueType) : Except Failure Rebuild :=
  match op with
  | .loop =>
    let r := r.spillAll
    let label := r.labels + 1
    .ok ({ r with labels := label }.openConstruct .loop result (some label))
  | .ifOp => do
    let (condition, r) ← r.popTyped site .i32
    return r.spillAll.openConstruct (.ifArm condition) result none
  | _ => .ok (r.spillAll.openConstruct .block result none)

/-! ## Closing constructs -/

/-- The value that falls through at the end of an arm whose result type is given. -/
def takeResult (result : Option ValueType) : Except Failure (Option Pending × Rebuild) := do
  let found := r.scope.values.length
  let expected := if result.isSome then 1 else 0
  if found ≠ expected then site.refuse (.leftover found expected)
  else
    match result with
    | some t => do
      let (v, r) ← r.popTyped site t
      return (some v, r)
    | none => return (none, r)

/-- The value that falls through, if the end of the arm can be reached. -/
def fallThrough (result : Option ValueType) : Except Failure (Option Pending × Rebuild) :=
  if r.reach.isLive then r.takeResult site result else .ok (none, r)

/-- The `else` of an `if`. The first arm's value stays pending while its arm has no statements;
otherwise it goes into the result temporary. -/
def switchArm : Except Failure Rebuild := do
  match r.constructs with
  | [] => site.refuse .strayElse
  | c :: outer =>
    match c.kind with
    | .ifArm condition =>
      let live := r.reach.isLive
      let (value, r) ← r.fallThrough site c.result
      let isPure := live && r.scope.code.isEmpty && c.temp.isNone
      let (thenValue, temp, r) :=
        match value, c.result with
        | some v, some t =>
          if isPure then (some v, c.temp, r)
          else
            let (temp, r) := r.resultTemp 0 c t
            (none, some temp, r.emit (.assign (.temp temp) v.expr))
        | _, _ => (none, c.temp, r)
      let kind := .elseArm condition r.scope.code thenValue live
      return { r with
        scope := {}
        constructs := { c with kind, temp } :: outer
        reach := .live }
    | _ => site.refuse .strayElse

/-- The conditional expression for an `if` both of whose arms only compute a value. -/
def foldArms? (c : Construct) (code : Array Stmt) (value : Option Pending) : Option Pending :=
  match c.kind, value with
  | .elseArm condition _ (some thenValue) _, some elseValue =>
    if c.result.isSome && c.temp.isNone && c.label.isNone && code.isEmpty then
      some (.choose condition thenValue elseValue)
    else none
  | _, _ => none

/-- The statement for a construct whose last arm has the given statements. -/
def statementOf (c : Construct) (code : Array Stmt) : Stmt :=
  match c.kind with
  | .block => .block code.toList c.label
  | .loop => .loop (c.label.getD 0) code.toList
  | .ifArm condition => .onlyIf condition.expr code.toList c.label
  | .elseArm condition thenCode _ _ =>
    .ifElse condition.expr thenCode.toList code.toList c.label

/-- Whether the end of a construct can be reached, given whether the end of its last arm can. -/
def reachesEnd (c : Construct) (live : Bool) : Bool :=
  match c.kind with
  | .block => live || c.label.isSome
  | .loop => live
  | .ifArm _ => true
  | .elseArm _ _ _ thenLive => live || thenLive || c.label.isSome

/-- Puts the first arm's pending value into a temporary, at the end of its arm. -/
def storeThenValue (temp : Nat) : ConstructKind → ConstructKind
  | .elseArm condition thenCode (some v) thenLive =>
    .elseArm condition (thenCode.push (.assign (.temp temp) v.expr)) none thenLive
  | kind => kind

/-- Whether the kind is the second arm of a conditional. -/
def ConstructKind.isElse : ConstructKind → Bool
  | .elseArm .. => true
  | _ => false

/-- The result of a construct that is not folded, and the construct and state with the values of
its arms put into the result temporary where one is needed. -/
def carryResult (c : Construct) (value : Option Pending) :
    Option Pending × Construct × Rebuild :=
  match c.result with
  | none => (none, c, r)
  | some t =>
    if ConstructKind.isElse c.kind || c.temp.isSome then
      let (temp, r) := r.resultTemp 0 c t
      let c := { c with kind := storeThenValue temp c.kind, temp := some temp }
      let r := match value with
        | some v => r.emit (.assign (.temp temp) v.expr)
        | none => r
      (some (.temp temp t), c, r)
    else (value, c, r)

/-- Whether the kind is the first arm of a conditional. -/
def ConstructKind.isIf : ConstructKind → Bool
  | .ifArm _ => true
  | _ => false

/-- The `end` of a construct. -/
def close : Except Failure Rebuild := do
  match r.constructs with
  | [] => site.refuse .strayEnd
  | c :: outer =>
    let live := r.reach.isLive
    let (value, r) ← r.fallThrough site c.result
    match foldArms? c r.scope.code value with
    | some folded =>
      return { r with scope := c.enclosing, constructs := outer, reach := .live }.push folded
    | none =>
      let (carried, c, r) := r.carryResult c value
      let code := r.scope.code
      let reachable := reachesEnd c live
      let r : Rebuild := { r with
        scope := c.enclosing
        constructs := outer
        reach := if reachable then .live else .dead 0 }
      let r := r.emit (statementOf c code)
      if ConstructKind.isIf c.kind && c.result.isSome then site.refuse .missingElse
      else
        match c.result with
        | some t =>
          if reachable then return r.push (← site.need carried (.noResult t)) else return r
        | none => return r

/-! ## Leaving -/

/-- The `return` instruction. -/
def leave : Except Failure Rebuild :=
  match site.around.type.result with
  | some t => do
    let (v, r) ← r.popTyped site t
    let r := r.settle ((Hazard.evaluating v.uses).and .leaving)
    return (r.emit (.leave (some v.expr))).kill
  | none => .ok ((r.settle .leaving).emit (.leave none)).kill

/-- The result a branch to a construct carries: one to a loop carries none. -/
def carriedType (c : Construct) : Option ValueType :=
  match c.kind with
  | .loop => none
  | _ => c.result

/-- A branch. -/
def branch (depth : Nat) : Except Failure Rebuild := do
  match ← r.target site depth with
  | none => r.leave site
  | some c =>
    let r ← match carriedType c with
      | some t => do
        let (v, r) ← r.popTyped site t
        let r := r.settle ((Hazard.evaluating v.uses).and .leaving)
        let (temp, r) := r.resultTemp depth c t
        pure (r.emit (.assign (.temp temp) v.expr))
      | none => pure (r.settle .leaving)
    let (label, r) := r.labelOf depth c
    return (r.emit (.jump label)).kill

/-- A conditional branch. Pending calls happen whether or not it is taken. -/
def branchIf (depth : Nat) : Except Failure Rebuild := do
  let (condition, r) ← r.popTyped site .i32
  let found ← r.target site depth
  let r := r.settle ((Hazard.evaluating condition.uses).and .leaving)
  match found with
  | none =>
    match site.around.type.result with
    | some t =>
      let v ← r.peekTyped site t
      return r.emit (.leaveIf condition.expr (some v.expr))
    | none => return r.emit (.leaveIf condition.expr none)
  | some c =>
    match carriedType c with
    | some t =>
      let v ← r.peekTyped site t
      let (label, r) := r.labelOf depth c
      let (temp, r) := r.resultTemp depth c t
      return r.emit (.jumpIf condition.expr (some (temp, v.expr)) label)
    | none =>
      let (label, r) := r.labelOf depth c
      return r.emit (.jumpIf condition.expr none label)

/-! ## Other instructions -/

/-- Evaluates a value for its effects, if it has any. -/
def discard (v : Pending) : Rebuild :=
  if v.uses.effects then (r.settle (.evaluating v.uses)).emit (.discard v.expr) else r

/-- A branch table. One without targets is a branch to its default; its index is still
evaluated. -/
def branchTable : Immediate → Except Failure Rebuild
  | .table [] default => do
    let (index, r) ← r.popTyped site .i32
    (r.discard index).branch site default
  | .table targets _ => site.unsupported (.branchTable targets.length)
  | _ => site.refuse .noTable

/-- A call. -/
def call (index : Nat) : Except Failure Rebuild := do
  let t ← site.need (site.around.inModule.functionType? index) (.noFunction index)
  let count := t.params.length
  r.require site count
  let (args, r) ← (r.sequence count).popArgs site t.params
  match t.result with
  | some result => return r.push (.call index args result)
  | none => return (r.settle .effect).emit (.call index (args.map Pending.expr))

/-- An indirect call: it always traps, after the effects of its operands. -/
def callIndirect (typeIndex : Nat) : Except Failure Rebuild := do
  let t ← site.need site.around.inModule.types[typeIndex]? (.noType typeIndex)
  let (callee, r) ← r.popTyped site .i32
  let (args, r) ← r.popArgs site t.params
  let r := r.settle .leaving
  let effects := (args ++ [callee]).filter fun v => v.uses.effects
  let r := effects.foldl (fun r v => r.emit (.discard v.expr)) r
  let r := r.emit (.trap .indirectCall)
  match t.result with
  | some result => return r.push (.zero result)
  | none => return r

/-- A choice between two operands; both are evaluated. -/
def select : Except Failure Rebuild := do
  r.require site 3
  let r := r.spill (fun i _ => i = 1 || i = 2) .none
  let (condition, r) ← r.popTyped site .i32
  let (second, r) ← r.pop site
  let (first, r) ← r.popTyped site second.type
  return r.push (.choose condition first second)

/-- The assignment of a local; `keep` leaves its value on the stack. -/
def assignLocal (index : Nat) (keep : Bool) : Except Failure Rebuild := do
  let t ← site.need site.around.locals[index]? (.noLocal index)
  let (v, r) ← r.popTyped site t
  let r := r.settle ((Hazard.assigning index).and (.evaluating v.uses))
  let r := r.emit (.assign (.var index) v.expr)
  return if keep then r.push (.var index t) else r

/-- The assignment of a global. -/
def assignGlobal (index : Nat) : Except Failure Rebuild := do
  let g ← site.need (site.around.inModule.globalType? index) (.noGlobal index)
  if !g.isMutable then site.refuse (.immutable index)
  else
    let (v, r) ← r.popTyped site g.content
    let r := r.settle ((Hazard.evaluating v.uses).and .writing)
    return r.emit (.assign (.global index) v.expr)

/-- A load. -/
def load (op : Load) (offset : Nat) : Except Failure Rebuild := do
  let (address, r) ← r.popTyped site .i32
  return r.push (.load op address offset)

/-- A store. -/
def store (op : Store) (offset : Nat) : Except Failure Rebuild := do
  r.require site 2
  let r := r.sequence 2
  let (value, r) ← r.popTyped site op.type
  let (address, r) ← r.popTyped site .i32
  return (r.settle .effect).emit (.store op address.expr offset value.expr)

/-- A numeric instruction. Its spelling uses no operand that is not there. -/
def numeric (op : Numeric) : Except Failure Rebuild := do
  let shape := op.shape
  r.require site shape.arity
  let r := r.sequence shape.arity
  let (args, r) ← r.popArgs site (List.replicate shape.arity shape.operand)
  if (C.template op).arity ≤ args.length then return r.push (.numeric op args)
  else .error .abort

/-- An instruction that can be reached. -/
def stepLive (imm : Immediate) : Except Failure Rebuild :=
  match site.op with
  | .nop => .ok r
  | .unreachable => .ok ((r.settle .leaving).emit (.trap .unreachable)).kill
  | .block | .loop | .ifOp => do r.enter site site.op (← site.need imm.block? .noBlockType)
  | .elseOp => r.switchArm site
  | .endOp => r.close site
  | .br => do r.branch site (← site.need imm.depth? .noDepth)
  | .brIf => do r.branchIf site (← site.need imm.depth? .noDepth)
  | .brTable => r.branchTable site imm
  | .returnOp => r.leave site
  | .call => do r.call site (← site.need imm.index? .noIndex)
  | .callIndirect =>
    match imm with
    | .callIndirect typeIndex _ => r.callIndirect site typeIndex
    | _ => site.refuse .noCallIndirect
  | .drop => do
    let (v, r) ← r.pop site
    return r.discard v
  | .select => r.select site
  | .getLocal => do
    let index ← site.need imm.index? .noIndex
    let t ← site.need site.around.locals[index]? (.noLocal index)
    return r.push (.var index t)
  | .setLocal => do r.assignLocal site (← site.need imm.index? .noIndex) false
  | .teeLocal => do r.assignLocal site (← site.need imm.index? .noIndex) true
  | .getGlobal => do
    let index ← site.need imm.index? .noIndex
    let g ← site.need (site.around.inModule.globalType? index) (.noGlobal index)
    return r.push (.global index g.content)
  | .setGlobal => do r.assignGlobal site (← site.need imm.index? .noIndex)
  | .currentMemory => .ok (r.push .memorySize)
  | .growMemory => do
    let (delta, r) ← r.popTyped site .i32
    return r.push (.memoryGrow delta)
  | .const _ => do return r.push (.const (← site.need imm.value? .noConstant))
  | .load op => do r.load site op (← site.need imm.offset? .noMemory)
  | .store op => do r.store site op (← site.need imm.offset? .noMemory)
  | .numeric op => r.numeric site op

/-- An instruction that cannot be reached, when `nested` constructs have been opened since. -/
def stepDead (nested : Nat) : Except Failure Rebuild :=
  if site.op.opensConstruct then .ok { r with reach := .dead (nested + 1) }
  else
    match site.op, nested with
    | .elseOp, 0 => r.switchArm site
    | .endOp, 0 => r.close site
    | .endOp, outer + 1 => .ok { r with reach := .dead outer }
    | _, _ => .ok r

/-- One instruction. -/
def step (around : Surroundings) (i : Instruction) : Except Failure Rebuild :=
  match r.reach with
  | .live => r.stepLive ⟨around, i.op⟩ i.imm
  | .dead nested => r.stepDead ⟨around, i.op⟩ nested

end Rebuild

end WasmToC

import Mathlib.Algebra.Ring.Nat
import WasmToC.Proofs.Lines
import WasmToC.Reconstruct.Function

/-!
# Writing line by line

Reconstruction keeps a tree of statements and one list of operands for each construct. A function
body can also be written line by line, with one stack of operands and one stack of labels for the
whole body. Then the operands of a construct are those above the base of its label, the statements
of a conditional are known by the numbers of its lines, and indentation is a counter. Every access
by an index, every difference and every insertion is checked here, and stops the run where it is out
of range.

What is written is recorded together with the operands that wait at that moment.

## Main definitions

* `Checked` — checked access to lists, and checked differences.
* `Writer` — the state of writing.
* `Writer.step` — one instruction.
* `writeFunction` — the text of one of the module's own functions.
* `Checked.isTight` — whether an operand needs no parentheses, found by counting.
-/

namespace WasmToC

open C (Line Stmt)

/-! ## Checked access -/

namespace Checked

variable {α : Type}

/-- The element at an index. -/
def get (l : List α) (i : Nat) : Except Failure α :=
  match l[i]? with
  | some a => .ok a
  | none => .error .abort

/-- A list with another element at an index. -/
def set (l : List α) (i : Nat) (a : α) : Except Failure (List α) :=
  if i < l.length then .ok (l.set i a) else .error .abort

/-- A list with an element inserted at an index. -/
def insert (l : List α) (i : Nat) (a : α) : Except Failure (List α) :=
  if i ≤ l.length then .ok (l.insertIdx i a) else .error .abort

/-- The elements from an index on. -/
def slice (l : List α) (start : Nat) : Except Failure (List α) :=
  if start ≤ l.length then .ok (l.drop start) else .error .abort

/-- A difference. -/
def sub (a b : Nat) : Except Failure Nat := if b ≤ a then .ok (a - b) else .error .abort

/-- The operands that a template takes, in the order of its text. -/
def operands (args : List α) : C.Template → Except Failure (List α)
  | [] => .ok []
  | .char _ :: rest => operands args rest
  | .hole i :: rest => do
    let a ← get args i
    let others ← operands args rest
    return a :: others

/-- Whether the parenthesis that closes the first open one is the last character, when `d`
parentheses are open. -/
def closesLast : (d : Nat) → List Char → Except Failure Bool
  | _, [] => .ok false
  | d, c :: rest =>
    if c = '(' then closesLast (d + 1) rest
    else if c = ')' then do
      let d ← sub d 1
      if d = 0 then return rest.isEmpty else closesLast d rest
    else closesLast d rest

/-- Whether a text binds tighter than any operator, found by counting parentheses. -/
def isTight (text : List Char) : Except Failure Bool :=
  if text.all C.isNumeralChar then .ok !text.isEmpty
  else
    match text.findIdx? (· = '(') with
    | none => .ok false
    | some start => do
      let inside ← slice text start
      if (text.take start).all C.isWordChar && text.getLast? = some ')' then closesLast 0 inside
      else return false

end Checked

/-! ## The state -/

/-- What a label stands for, with what its kind has to remember. -/
inductive LabelKind where
  /-- The function body. -/
  | body
  /-- A block. -/
  | block
  /-- A loop. -/
  | loop
  /-- The first arm of a conditional, whose line is known. -/
  | ifArm (cond : Pending) (ifLine : Nat)
  /-- The second arm of a conditional, with the lines of both arms. The first arm's value is kept
  while its arm has no lines. -/
  | elseArm (cond : Pending) (ifLine elseLine : Nat) (thenValue : Option Pending) (thenLive : Bool)
  /-- A construct in code that cannot be reached. -/
  | dead

namespace LabelKind

/-- Whether the kind is the function body. -/
def isBody : LabelKind → Bool
  | body => true
  | _ => false

/-- Whether the kind is the second arm of a conditional. -/
def isElse : LabelKind → Bool
  | elseArm .. => true
  | _ => false

/-- Whether the kind is the first arm of a conditional. -/
def isIf : LabelKind → Bool
  | ifArm .. => true
  | _ => false

/-- Whether the kind is a construct in code that cannot be reached. -/
def isDead : LabelKind → Bool
  | dead => true
  | _ => false

end LabelKind

/-- A label. -/
structure Label where
  /-- What it stands for. -/
  kind : LabelKind
  /-- The result type. -/
  result : Option ValueType
  /-- Its number, once it has one. -/
  id : Option Nat := none
  /-- The temporary that carries the result. -/
  temp : Option Nat := none
  /-- The number of operands that wait outside. -/
  base : Nat

/-- A line that has been written. -/
structure Entry where
  /-- The instruction at work. -/
  op : Opcode
  /-- The operands that waited then and were pushed before those that the line evaluates, the first
  one first. -/
  below : List Pending
  /-- The line. -/
  line : Line

/-- The state of writing. -/
structure Writer where
  /-- Operands, the first one first. -/
  stack : List Pending := []
  /-- Labels, the outermost first. -/
  labels : List Label
  /-- Lines, each with its indentation. -/
  lines : List (Nat × Line) := []
  /-- The types of the temporaries in use. -/
  temps : Array ValueType := #[]
  /-- The number of labels in use. -/
  nextLabel : Nat := 0
  /-- The indentation. -/
  depth : Nat := 1
  /-- Whether the next instruction cannot be reached. -/
  dead : Bool := false
  /-- The instruction at work. -/
  op : Opcode := .nop
  /-- What has been written, in this order. -/
  journal : List Entry := []

namespace Writer

variable (site : Site) (w : Writer)

/-- The state before the first instruction. -/
def start (t : FuncType) : Writer :=
  { labels := [{ kind := .body, result := t.result, base := 0 }] }

/-- Writes a line while the operands below a height wait. -/
def emitBelow (height : Nat) (line : Line) : Writer :=
  { w with
    lines := w.lines ++ [(w.depth, line)]
    journal := w.journal ++ [⟨w.op, w.stack.take height, line⟩] }

/-- Writes a line while all operands wait. -/
def emit (line : Line) : Writer := w.emitBelow w.stack.length line

/-- Writes lines while all operands wait. -/
def emitAll (lines : List Line) : Writer := lines.foldl emit w

/-- Writes a statement while all operands wait. -/
def write (s : Stmt) : Writer := w.emit (.run s)

/-- Pushes an operand. -/
def push (v : Pending) : Writer := { w with stack := w.stack ++ [v] }

/-- A new temporary of a type. -/
def newTemp (t : ValueType) : Nat × Writer := (w.temps.size, { w with temps := w.temps.push t })

/-- A new label. Labels are numbers of 32 bits. -/
def newLabel : Except Failure (Nat × Writer) :=
  if w.nextLabel + 1 < 2 ^ 32 then
    .ok (w.nextLabel + 1, { w with nextLabel := w.nextLabel + 1 })
  else .error .abort

/-- The number of a label, which gets one if it has none. -/
def labelId (target : Nat) : Except Failure (Nat × Writer) := do
  let l ← Checked.get w.labels target
  match l.id with
  | some id => return (id, w)
  | none =>
    let (id, w) ← w.newLabel
    let labels ← Checked.set w.labels target { l with id := some id }
    return (id, { w with labels })

/-- The temporary for the result of a construct, which gets one if it has none. -/
def resultTemp (target : Nat) (t : ValueType) : Except Failure (Nat × Writer) := do
  let l ← Checked.get w.labels target
  match l.temp with
  | some temp => return (temp, w)
  | none =>
    let (temp, w) := w.newTemp t
    let labels ← Checked.set w.labels target { l with temp := some temp }
    return (temp, { w with labels })

/-! ## Operands -/

/-- The number of operands that wait outside the innermost construct. -/
def base : Nat := (w.labels.getLast?.map Label.base).getD 0

/-- Checks that there are `count` operands. -/
def require (count : Nat) : Except Failure Unit :=
  if w.stack.length < w.base + count then site.refuse (.operands count) else .ok ()

/-- Takes the last operand. -/
def pop : Except Failure (Pending × Writer) := do
  w.require site 1
  match w.stack.getLast? with
  | some v => return (v, { w with stack := w.stack.dropLast })
  | none => .error .abort

/-- Takes the last operand, which has to have a given type. -/
def popTyped (t : ValueType) : Except Failure (Pending × Writer) := do
  let (v, w) ← w.pop site
  if v.type = t then return (v, w) else site.refuse (.operandType t v.type)

/-- The last operand, which has to have a given type and stays. -/
def peekTyped (t : ValueType) : Except Failure Pending := do
  let (v, _) ← w.popTyped site t
  return v

/-- Takes operands of given types, the last type first, onto those taken already. -/
def popEach : List ValueType → List Pending → Writer → Except Failure (List Pending × Writer)
  | [], taken, w => .ok (taken, w)
  | t :: ts, taken, w => do
    let (v, w) ← w.popTyped site t
    popEach ts (v :: taken) w

/-- Takes operands of given types; they are returned in the order of the types. -/
def popArgs (ts : List ValueType) : Except Failure (List Pending × Writer) :=
  popEach site ts.reverse [] w

/-- Marks the operands below a height that have to be evaluated, from the last one down: whatever is
marked becomes part of the hazard for the operands below it. -/
def mark (stack : List Pending) : (height : Nat) → List Bool → Hazard → Except Failure (List Bool)
  | 0, marked, _ => .ok marked
  | i + 1, marked, h => do
    let v ← Checked.get stack i
    let m ← Checked.get marked i
    if m || h.conflicts v.uses then
      let marked ← Checked.set marked i true
      mark stack i marked (h.and (.evaluating v.uses))
    else mark stack i marked h

/-- Evaluates the operand at an index into a temporary if it is marked, unless its value is the same
whenever it is evaluated. -/
def evaluateAt (marked : List Bool) (i : Nat) : Except Failure Writer := do
  let v ← Checked.get w.stack i
  let m ← Checked.get marked i
  if m && !v.uses.isStable then
    let (t, w) := w.newTemp v.type
    let stack ← Checked.set w.stack i (.temp t v.type)
    return { w with stack }.emitBelow i (.run (.assign (.temp t) v.expr))
  else return w

/-- Evaluates the marked ones of `count` operands from an index on into temporaries. -/
def evaluate (marked : List Bool) : (count i : Nat) → Writer → Except Failure Writer
  | 0, _, w => .ok w
  | count + 1, i, w => do
    let w ← w.evaluateAt marked i
    evaluate marked count (i + 1) w

/-- Evaluates the marked operands, and every operand below that their evaluation, or the hazard,
would disturb. -/
def spill (marked : List Bool) (h : Hazard) : Except Failure Writer := do
  let marked ← mark w.stack w.stack.length marked h
  evaluate marked w.stack.length 0 w

/-- Evaluates the operands that a hazard would disturb. -/
def settle (h : Hazard) : Except Failure Writer :=
  w.spill (List.replicate w.stack.length false) h

/-- Evaluates all operands. -/
def spillAll : Except Failure Writer := w.spill (List.replicate w.stack.length true) .none

/-- Marks `count` operands from an index on that depend on the state. -/
def markStateful (stack : List Pending) : (count i : Nat) → List Bool → Except Failure (List Bool)
  | 0, _, marked => .ok marked
  | count + 1, i, marked => do
    let v ← Checked.get stack i
    let marked ← Checked.set marked i v.uses.dependsOnState
    markStateful stack count (i + 1) marked

/-- Evaluates the last `count` operands in order, but for the very last, if they could observe each
other. -/
def sequence (count : Nat) : Except Failure Writer := do
  w.require site count
  let first ← Checked.sub w.stack.length count
  let operands ← Checked.slice w.stack first
  if operands.any (fun v => v.uses.effects) &&
      1 < (operands.filter fun v => v.uses.dependsOnState).length then
    let last ← Checked.sub w.stack.length 1
    let marked ← markStateful w.stack (last - first) first (List.replicate w.stack.length false)
    w.spill marked .none
  else return w

/-- The rest of the innermost construct cannot be reached. -/
def kill : Writer := { w with dead := true, stack := w.stack.take w.base }

/-! ## Constructs -/

/-- Opens a construct. -/
def openLabel (kind : LabelKind) (result : Option ValueType) (id : Option Nat) : Writer :=
  { w with
    depth := w.depth + 1
    labels := w.labels ++ [{ kind, result, id, base := w.stack.length }] }

/-- A `block`, `loop` or `if`. -/
def enter (op : Opcode) (res : Option ValueType) : Except Failure Writer :=
  match op with
  | .loop => do
    let w ← w.spillAll
    let (id, w) ← w.newLabel
    return (w.emitAll [.label id, .openBlock]).openLabel .loop res (some id)
  | .ifOp => do
    let (cond, w) ← w.popTyped site .i32
    let w ← w.spillAll
    let ifLine := w.lines.length
    return (w.emitAll [.openIf cond.expr]).openLabel (.ifArm cond ifLine) res none
  | _ => do
    let w ← w.spillAll
    return (w.emitAll [.openBlock]).openLabel .block res none

/-- The value that falls through at the end of an arm, if that can be reached. -/
def fallThrough (l : Label) : Except Failure (Option Pending × Writer) :=
  if w.dead then .ok (none, w)
  else
    let found := w.stack.length - l.base
    let expected := if l.result.isSome then 1 else 0
    if found ≠ expected then site.refuse (.leftover found expected)
    else
      match l.result with
      | some t => do
        let (v, w) ← w.popTyped site t
        return (some v, w)
      | none => return (none, w)

/-- What becomes of the value of the first arm: it is kept while the arm has no lines, and goes into
the result temporary otherwise. -/
def keepThen (target : Nat) (l : Label) (isPure : Bool) (value : Option Pending) :
    Except Failure (Option Pending × Writer) :=
  match value, l.result with
  | some v, some t =>
    if isPure && l.temp.isNone then .ok (some v, w)
    else do
      let (temp, w) ← w.resultTemp target t
      return (none, w.write (.assign (.temp temp) v.expr))
  | _, _ => .ok (none, w)

/-- Starts the second arm of a conditional. -/
def startElse (target : Nat) (cond : Pending) (ifLine : Nat) (thenValue : Option Pending)
    (thenLive : Bool) : Except Failure Writer := do
  let l ← Checked.get w.labels target
  let depth ← Checked.sub w.depth 1
  let kind := .elseArm cond ifLine w.lines.length thenValue thenLive
  let w := { w with stack := w.stack.take l.base, depth }.emit .openElse
  let labels ← Checked.set w.labels target { l with kind }
  return { w with depth := w.depth + 1, labels, dead := false }

/-- The `else` of an `if`. -/
def switchArm : Except Failure Writer := do
  let target ← Checked.sub w.labels.length 1
  let l ← Checked.get w.labels target
  match l.kind with
  | .ifArm cond ifLine =>
    let live := !w.dead
    let (value, w) ← w.fallThrough site l
    let isPure := live && w.lines.length = ifLine + 1
    let (thenValue, w) ← w.keepThen target l isPure value
    w.startElse target cond ifLine thenValue live
  | _ => site.refuse .strayElse

/-- The conditional expression for an `if` both of whose arms only compute a value, and the line
where it starts. -/
def foldArms? (l : Label) (value : Option Pending) : Option (Pending × Nat) :=
  match l.kind, value with
  | .elseArm cond ifLine elseLine (some thenValue) _, some elseValue =>
    if l.result.isSome && l.temp.isNone && l.id.isNone && w.lines.length = elseLine + 1 then
      some (.choose cond thenValue elseValue, ifLine)
    else none
  | _, _ => none

/-- Puts the value of the first arm into a temporary, at the end of its arm, if it was kept. The
line of the second arm moves. -/
def storeThenValue (target temp : Nat) : Except Failure Writer := do
  let l ← Checked.get w.labels target
  match l.kind with
  | .elseArm cond ifLine elseLine (some v) thenLive =>
    let line := .run (.assign (.temp temp) v.expr)
    let lines ← Checked.insert w.lines elseLine (w.depth, line)
    let kind := .elseArm cond ifLine (elseLine + 1) none thenLive
    let labels ← Checked.set w.labels target { l with kind }
    return { w with lines, labels, journal := w.journal ++ [⟨w.op, w.stack, line⟩] }
  | _ => return w

/-- The result of a construct that is not folded, with the values of its arms put into the result
temporary where one is needed. -/
def carryResult (target : Nat) (l : Label) (value : Option Pending) :
    Except Failure (Option Pending × Writer) :=
  match l.result with
  | none => .ok (none, w)
  | some t =>
    if l.kind.isElse || l.temp.isSome then do
      let (temp, w) ← w.resultTemp target t
      let w ← w.storeThenValue target temp
      match value with
      | some v => return (some (.temp temp t), w.write (.assign (.temp temp) v.expr))
      | none => return (some (.temp temp t), w)
    else .ok (value, w)

/-- The lines that end a construct: its brace, and its label if it has one and is no loop. -/
def closingLines (l : Label) : List Line :=
  .close :: match l.kind with
    | .loop => []
    | _ => C.labelLine l.id

/-- Whether the end of a construct can be reached, given whether the end of its last arm can. -/
def reachesEnd (l : Label) (live : Bool) : Bool :=
  match l.kind with
  | .loop => live
  | .ifArm .. => true
  | .elseArm _ _ _ _ thenLive => live || thenLive || l.id.isSome
  | _ => live || l.id.isSome

/-- The end of a construct that is not folded. -/
def leaveConstruct (target : Nat) (live : Bool) (carried : Option Pending) :
    Except Failure Writer := do
  let depth ← Checked.sub w.depth 1
  let l ← Checked.get w.labels target
  let w := { w with depth, labels := w.labels.dropLast }.emitAll (closingLines l)
  let reachable := reachesEnd l live
  if l.kind.isIf && l.result.isSome then site.refuse .missingElse
  else
    let w := { w with dead := !reachable }
    match l.result with
    | some t => if reachable then return w.push (← site.need carried (.noResult t)) else return w
    | none => return w

/-- The `end` of a construct. -/
def close : Except Failure Writer := do
  let target ← Checked.sub w.labels.length 1
  let l ← Checked.get w.labels target
  if l.kind.isBody then site.refuse .strayEnd
  else
    let live := !w.dead
    let (value, w) ← w.fallThrough site l
    let w := { w with stack := w.stack.take l.base }
    match w.foldArms? l value with
    | some (folded, ifLine) =>
      let depth ← Checked.sub w.depth 1
      let labels := w.labels.dropLast
      return { w with lines := w.lines.take ifLine, labels, depth, dead := false }.push folded
    | none =>
      let (carried, w) ← w.carryResult target l value
      w.leaveConstruct site target live carried

/-! ## Leaving -/

/-- The index of the label that a branch depth leads to. -/
def target (d : Nat) : Except Failure Nat := do
  if w.labels.length ≤ d then site.refuse (.branchDepth d)
  else
    let last ← Checked.sub w.labels.length 1
    Checked.sub last d

/-- The `return` instruction. -/
def leave : Except Failure Writer :=
  match site.around.type.result with
  | some t => do
    let (v, w) ← w.popTyped site t
    let w ← w.settle ((Hazard.evaluating v.uses).and .leaving)
    return (w.write (.leave (some v.expr))).kill
  | none => do
    let w ← w.settle .leaving
    return (w.write (.leave none)).kill

/-- The result a branch to a label carries: one to a loop carries none. -/
def carriedType (l : Label) : Option ValueType :=
  match l.kind with
  | .loop => none
  | _ => l.result

/-- A jump to a label. -/
def jump (target : Nat) : Except Failure Writer := do
  let (id, w) ← w.labelId target
  return (w.write (.jump id)).kill

/-- A branch. -/
def branch (d : Nat) : Except Failure Writer := do
  let target ← w.target site d
  let l ← Checked.get w.labels target
  if l.kind.isBody then w.leave site
  else
    match carriedType l with
    | some t =>
      let (v, w) ← w.popTyped site t
      let w ← w.settle ((Hazard.evaluating v.uses).and .leaving)
      let (temp, w) ← w.resultTemp target t
      (w.write (.assign (.temp temp) v.expr)).jump target
    | none =>
      let w ← w.settle .leaving
      w.jump target

/-- A conditional branch. -/
def branchIf (d : Nat) : Except Failure Writer := do
  let (cond, w) ← w.popTyped site .i32
  let target ← w.target site d
  let w ← w.settle ((Hazard.evaluating cond.uses).and .leaving)
  let l ← Checked.get w.labels target
  if l.kind.isBody then
    match l.result with
    | some t =>
      let v ← w.peekTyped site t
      return w.write (.leaveIf cond.expr (some v.expr))
    | none => return w.write (.leaveIf cond.expr none)
  else
    match carriedType l with
    | some t =>
      let v ← w.peekTyped site t
      let (id, w) ← w.labelId target
      let (temp, w) ← w.resultTemp target t
      return w.write (.jumpIf cond.expr (some (temp, v.expr)) id)
    | none =>
      let (id, w) ← w.labelId target
      return w.write (.jumpIf cond.expr none id)

/-! ## Other instructions -/

/-- Evaluates a value for its effects, if it has any. -/
def discard (v : Pending) : Except Failure Writer :=
  if v.uses.effects then do
    let w ← w.settle (.evaluating v.uses)
    return w.write (.discard v.expr)
  else .ok w

/-- A branch table. -/
def branchTable : Immediate → Except Failure Writer
  | .table [] default => do
    let (index, w) ← w.popTyped site .i32
    let w ← w.discard index
    w.branch site default
  | .table targets _ => site.unsupported (.branchTable targets.length)
  | _ => site.refuse .noTable

/-- A call. -/
def call (index : Nat) : Except Failure Writer := do
  let t ← site.need (site.around.inModule.functionType? index) (.noFunction index)
  let w ← w.sequence site t.params.length
  let (args, w) ← w.popArgs site t.params
  match t.result with
  | some res => return w.push (.call index args res)
  | none =>
    let w ← w.settle .effect
    return w.write (.call index (args.map Pending.expr))

/-- An indirect call: it always traps, after the effects of its operands. -/
def callIndirect (typeIndex : Nat) : Except Failure Writer := do
  let t ← site.need site.around.inModule.types[typeIndex]? (.noType typeIndex)
  let (callee, w) ← w.popTyped site .i32
  let (args, w) ← w.popArgs site t.params
  let w ← w.settle .leaving
  let effects := (args ++ [callee]).filter fun v => v.uses.effects
  let w := effects.foldl (fun w v => w.write (.discard v.expr)) w
  let w := w.write (.trap .indirectCall)
  match t.result with
  | some res => return w.push (.zero res)
  | none => return w

/-- A choice between two operands; both are evaluated. -/
def select : Except Failure Writer := do
  w.require site 3
  let third ← Checked.sub w.stack.length 3
  let second ← Checked.sub w.stack.length 2
  let marked ← Checked.set (List.replicate w.stack.length false) third true
  let marked ← Checked.set marked second true
  let w ← w.spill marked .none
  let (cond, w) ← w.popTyped site .i32
  let (second, w) ← w.pop site
  let (first, w) ← w.popTyped site second.type
  return w.push (.choose cond first second)

/-- The assignment of a local; `keep` leaves its value on the stack. -/
def assignLocal (index : Nat) (keep : Bool) : Except Failure Writer := do
  let t ← site.need site.around.locals[index]? (.noLocal index)
  let (v, w) ← w.popTyped site t
  let w ← w.settle ((Hazard.assigning index).and (.evaluating v.uses))
  let w := w.write (.assign (.var index) v.expr)
  return if keep then w.push (.var index t) else w

/-- The assignment of a global. -/
def assignGlobal (index : Nat) : Except Failure Writer := do
  let g ← site.need (site.around.inModule.globalType? index) (.noGlobal index)
  if !g.isMutable then site.refuse (.immutable index)
  else
    let (v, w) ← w.popTyped site g.content
    let w ← w.settle ((Hazard.evaluating v.uses).and .writing)
    return w.write (.assign (.global index) v.expr)

/-- A load. -/
def load (op : Load) (off : Nat) : Except Failure Writer := do
  let (addr, w) ← w.popTyped site .i32
  return w.push (.load op addr off)

/-- A store. -/
def store (op : Store) (off : Nat) : Except Failure Writer := do
  let w ← w.sequence site 2
  let (value, w) ← w.popTyped site op.type
  let (addr, w) ← w.popTyped site .i32
  let w ← w.settle .effect
  return w.write (.store op addr.expr off value.expr)

/-- A numeric instruction. Every operand that its spelling takes is looked up. -/
def numeric (op : Numeric) : Except Failure Writer := do
  let shape := op.shape
  let w ← w.sequence site shape.arity
  let (args, w) ← w.popArgs site (List.replicate shape.arity shape.operand)
  let _ ← Checked.operands args (C.template op)
  return w.push (.numeric op args)

/-- An instruction that can be reached. -/
def stepLive (imm : Immediate) : Except Failure Writer :=
  match site.op with
  | .nop => .ok w
  | .unreachable => do
    let w ← w.settle .leaving
    return (w.write (.trap .unreachable)).kill
  | .block | .loop | .ifOp => do w.enter site site.op (← site.need imm.block? .noBlockType)
  | .elseOp => w.switchArm site
  | .endOp => w.close site
  | .br => do w.branch site (← site.need imm.depth? .noDepth)
  | .brIf => do w.branchIf site (← site.need imm.depth? .noDepth)
  | .brTable => w.branchTable site imm
  | .returnOp => w.leave site
  | .call => do w.call site (← site.need imm.index? .noIndex)
  | .callIndirect =>
    match imm with
    | .callIndirect typeIndex _ => w.callIndirect site typeIndex
    | _ => site.refuse .noCallIndirect
  | .drop => do
    let (v, w) ← w.pop site
    w.discard v
  | .select => w.select site
  | .getLocal => do
    let index ← site.need imm.index? .noIndex
    let t ← site.need site.around.locals[index]? (.noLocal index)
    return w.push (.var index t)
  | .setLocal => do w.assignLocal site (← site.need imm.index? .noIndex) false
  | .teeLocal => do w.assignLocal site (← site.need imm.index? .noIndex) true
  | .getGlobal => do
    let index ← site.need imm.index? .noIndex
    let g ← site.need (site.around.inModule.globalType? index) (.noGlobal index)
    return w.push (.global index g.content)
  | .setGlobal => do w.assignGlobal site (← site.need imm.index? .noIndex)
  | .currentMemory => .ok (w.push .memorySize)
  | .growMemory => do
    let (delta, w) ← w.popTyped site .i32
    return w.push (.memoryGrow delta)
  | .const _ => do return w.push (.const (← site.need imm.value? .noConstant))
  | .load op => do w.load site op (← site.need imm.offset? .noMemory)
  | .store op => do w.store site op (← site.need imm.offset? .noMemory)
  | .numeric op => w.numeric site op

/-- An instruction that cannot be reached. The constructs in it have labels of their own, so that
the end of the innermost construct that can be reached is found. -/
def stepDead : Except Failure Writer :=
  let isSkipped := (w.labels.getLast?.map fun l => l.kind.isDead).getD false
  if site.op.opensConstruct then
    .ok { w with labels := w.labels ++ [{ kind := .dead, result := none, base := w.stack.length }] }
  else
    match site.op, isSkipped with
    | .elseOp, false => w.switchArm site
    | .endOp, false => w.close site
    | .endOp, true => .ok { w with labels := w.labels.dropLast }
    | _, _ => .ok w

/-- One instruction. -/
def step (env : Surroundings) (i : Instruction) : Except Failure Writer :=
  let w := { w with op := i.op }
  if w.dead then w.stepDead ⟨env, i.op⟩ else w.stepLive ⟨env, i.op⟩ i.imm

/-- Instructions one after the other. -/
def run (env : Surroundings) : List Instruction → Writer → Except Failure Writer
  | [], w => .ok w
  | i :: rest, w => do
    let w ← w.step env i
    run env rest w

/-- The end of the body: an operand that is left is the function's result. -/
def endBody (env : Surroundings) (w : Writer) : Except Failure Writer :=
  let site : Site := ⟨env, .endOp⟩
  let found := w.stack.length
  if w.labels.length ≠ 1 then do
    let count ← Checked.sub w.labels.length 1
    site.refuse (.stillOpen count)
  else if w.dead then .ok w
  else
    match env.type.result with
    | some t =>
      if found ≠ 1 then site.refuse (.bodyLeftover found 1)
      else do
        let (v, w) ← w.popTyped site t
        return w.write (.leave (some v.expr))
    | none => if found ≠ 0 then site.refuse (.bodyLeftover found 0) else .ok w

/-- The end of the body, as the last instruction. -/
def finish (env : Surroundings) (w : Writer) : Except Failure Writer :=
  endBody env { w with op := .endOp }

end Writer

/-! ## Whole functions -/

/-- The text of a line at its indentation. -/
def C.Line.text (n : C.Naming) (d : Nat) : Line → List String
  | .label l => [C.indented d (C.labelName l ++ ":;")]
  | .openBlock => [C.indented d "\x7b"]
  | .openIf cond => [C.ifLine n d cond]
  | .openElse => [C.indented d "\x7d else \x7b"]
  | .close => [C.indented d "\x7d"]
  | .run s => s.lines n d

/-- The text of one of the module's own functions, given what has been written for its body. -/
def Writer.text (m : Module) (s : C.Symbols) (index : Nat) (f : Function) (t : FuncType)
    (w : Writer) : String :=
  let params := t.params.length
  let locals := f.locals.mapIdx fun i t =>
    C.FunctionDef.declaration t (C.localName params (params + i))
  let temps := w.temps.toList.mapIdx fun i t => C.FunctionDef.declaration t (C.tempName i)
  let head := C.FunctionDef.head s index (m.exportName? .function index).isSome t ++ " \x7b"
  let body := w.lines.flatMap fun p => p.2.text ⟨s, params⟩ p.1
  String.join ((head :: locals ++ temps ++ body ++ ["\x7d"]).map fun line => line ++ "\n")

/-- The text of the module's own function at a position, written line by line. -/
def writeFunction (m : Module) (s : C.Symbols) (pos : Nat) : Except Failure String := do
  let f ← Checked.get m.functions pos
  let index := m.importedFunctions + pos
  match m.types[f.typeIndex]? with
  | none => .error (.error (.invalid (.functionWithoutType index)))
  | some t =>
    let env := surroundings m index f t
    let w ← Writer.run env f.code (Writer.start t)
    let w ← w.finish env
    return w.text m s index f t

end WasmToC

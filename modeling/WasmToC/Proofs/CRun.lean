import WasmToC.Proofs.Lines
import WasmToC.Proofs.World

/-!
# Running emitted C code

The meaning of emitted function bodies, line by line. Names are resolved as C resolves them: first
among the variables of the function, then at file scope. A jump goes to the line that defines its
label, wherever in the body that is.

C leaves open in which order the operands of an operator or a call are evaluated, so evaluation is
a relation that may go on at any operand at any time; only a condition comes before what depends on
it. A statement about a run is a statement about all runs: `Eventually` says that every
run, whatever it chooses, gets to a goal. A configuration without a step is a run that has trapped.

## Main definitions

* `Eventually` — every run reaches a goal.
* `C.Frame` — the variables of a running function.
* `C.Expr.Step` — a step of the evaluation of an expression.
* `C.Line.perform` — what a line does once its operands are values.
* `C.Step` — a step of a function.
-/

namespace WasmToC

/-- Every run gets to a goal, in finitely many steps and without getting stuck before. -/
inductive Eventually {α : Type} (step : α → α → Prop) (goal : α → Prop) : α → Prop
  /-- The goal is reached. -/
  | done {a : α} (h : goal a) : Eventually step goal a
  /-- There is a step, and every step leads to the goal. -/
  | step {a : α} (next : ∃ b, step a b) (all : ∀ b, step a b → Eventually step goal b) :
      Eventually step goal a

namespace C

/-- The variables of a running function, by name. -/
abbrev Frame := String → Option Value

/-- Assigns a variable. -/
def Frame.set (F : Frame) (x : String) (v : Value) : Frame := fun y => if y = x then some v else F y

variable {μ σ : Type} (H : Host μ σ) (n : Naming) (F : Frame)

namespace Naming

/-- The value of a name. -/
def read (w : World μ σ) (x : String) : Option Value :=
  match F x with
  | some v => some v
  | none => (n.symbols.globals.idxOf? x).map w.shared.globals

/-- The assignment of a name. -/
def assign (w : World μ σ) (x : String) (v : Value) : Option (Frame × World μ σ) :=
  match F x with
  | some _ => some (F.set x v, w)
  | none => (n.symbols.globals.idxOf? x).map fun i => (F, w.setGlobal i v)

/-- The function that a name stands for. -/
def callee? (x : String) : Option Nat :=
  match F x with
  | some _ => none
  | none => n.symbols.functions.idxOf? x

/-- The call of a function by name. -/
def call (w : World μ σ) (x : String) (args : List Value) : Option (Value × World μ σ) :=
  (n.callee? F x).bind fun f => w.call H f args

end Naming

/-! ## Expressions -/

mutual

/-- A step of the evaluation of an expression. Where there are several operands, the step may be
one of any operand. -/
inductive Expr.Step : Expr → World μ σ → Expr → World μ σ → Prop
  /-- A zero. -/
  | zero {t : ValueType} {w : World μ σ} : Expr.Step (.zero t) w (.const t.zero) w
  /-- A parameter or local is read. -/
  | var {i : Nat} {w : World μ σ} {v : Value} (h : n.read F w (localName n.params i) = some v) :
      Expr.Step (.var i) w (.const v) w
  /-- A temporary is read. -/
  | temp {i : Nat} {w : World μ σ} {v : Value} (h : n.read F w (tempName i) = some v) :
      Expr.Step (.temp i) w (.const v) w
  /-- A global is read. -/
  | global {i : Nat} {w : World μ σ} {v : Value} (h : n.read F w (n.symbols.global i) = some v) :
      Expr.Step (.global i) w (.const v) w
  /-- The memory size is read. -/
  | memorySize {w : World μ σ} : Expr.Step .memorySize w (.const (w.memorySize H)) w
  /-- The operand of growing the memory. -/
  | growOperand {d d' : Expr} {w w' : World μ σ} (h : Expr.Step d w d' w') :
      Expr.Step (.memoryGrow d) w (.memoryGrow d') w'
  /-- The memory grows. -/
  | grow {d v : Value} {w w' : World μ σ} (h : w.grow H d = some (v, w')) :
      Expr.Step (.memoryGrow (.const d)) w (.const v) w'
  /-- The address of a load. -/
  | loadOperand {op : Load} {a a' : Expr} {off : Nat} {w w' : World μ σ}
      (h : Expr.Step a w a' w') : Expr.Step (.load op a off) w (.load op a' off) w'
  /-- Memory is read. -/
  | load {op : Load} {a v : Value} {off : Nat} {w : World μ σ} (h : w.load H op a off = some v) :
      Expr.Step (.load op (.const a) off) w (.const v) w
  /-- An argument of a call. -/
  | callOperand {f : Nat} {args args' : List Expr} {w w' : World μ σ}
      (h : Expr.StepAny args w args' w') : Expr.Step (.call f args) w (.call f args') w'
  /-- A function is called. -/
  | call {f : Nat} {args : List Value} {v : Value} {w w' : World μ σ}
      (h : n.call H F w (n.symbols.function f) args = some (v, w')) :
      Expr.Step (.call f (args.map .const)) w (.const v) w'
  /-- An operand of a numeric instruction. -/
  | numericOperand {op : Numeric} {args args' : List Expr} {w w' : World μ σ}
      (h : Expr.StepAny args w args' w') : Expr.Step (.numeric op args) w (.numeric op args') w'
  /-- A numeric instruction is computed. -/
  | numeric {op : Numeric} {args : List Value} {w : World μ σ} :
      Expr.Step (.numeric op (args.map .const)) w (.const (H.numeric op args)) w
  /-- The condition of a choice. -/
  | chooseOperand {c c' yes no : Expr} {w w' : World μ σ} (h : Expr.Step c w c' w') :
      Expr.Step (.choose c yes no) w (.choose c' yes no) w'
  /-- A choice is made. -/
  | choose {c : Value} {yes no : Expr} {w : World μ σ} :
      Expr.Step (.choose (.const c) yes no) w (if c.isTrue then yes else no) w

/-- A step of one of several operands. -/
inductive Expr.StepAny : List Expr → World μ σ → List Expr → World μ σ → Prop
  /-- The step is one of the first operand. -/
  | head {e e' : Expr} {es : List Expr} {w w' : World μ σ} (h : Expr.Step e w e' w') :
      Expr.StepAny (e :: es) w (e' :: es) w'
  /-- The step is one of another operand. -/
  | tail {e : Expr} {es es' : List Expr} {w w' : World μ σ} (h : Expr.StepAny es w es' w') :
      Expr.StepAny (e :: es) w (e :: es') w'

end

/-! ## Lines -/

/-- The expressions that a line evaluates first, in any order. -/
def Line.operands : Line → List Expr
  | .openIf cond => [cond]
  | .run (.assign _ value) => [value]
  | .run (.discard value) => [value]
  | .run (.call _ args) => args
  | .run (.store _ addr _ value) => [addr, value]
  | .run (.jumpIf cond _ _) => [cond]
  | .run (.leave (some value)) => [value]
  | .run (.leaveIf cond _) => [cond]
  | _ => []

/-- The line with other operands. -/
def Line.withOperands : Line → List Expr → Line
  | .openIf _, [cond] => .openIf cond
  | .run (.assign place _), [value] => .run (.assign place value)
  | .run (.discard _), [value] => .run (.discard value)
  | .run (.call f _), args => .run (.call f args)
  | .run (.store op _ off _), [addr, value] => .run (.store op addr off value)
  | .run (.jumpIf _ carried l), [cond] => .run (.jumpIf cond carried l)
  | .run (.leave (some _)), [value] => .run (.leave (some value))
  | .run (.leaveIf _ value), [cond] => .run (.leaveIf cond value)
  | line, _ => line

/-- The lines behind the brace that closes the arm or construct that the lines stand in, when
`nested` braces have been opened since. If `orElse`, they may be those of the other arm. -/
def behindClose (orElse : Bool) : (nested : Nat) → List Line → Option (List Line)
  | _, [] => none
  | nested, .openBlock :: k => behindClose orElse (nested + 1) k
  | nested, .openIf _ :: k => behindClose orElse (nested + 1) k
  | 0, .openElse :: k => if orElse then some k else behindClose orElse 0 k
  | 0, .close :: k => some k
  | nested + 1, .close :: k => behindClose orElse nested k
  | nested, _ :: k => behindClose orElse nested k

lemma Nested.behindClose {ls : List Line} (h : Nested ls) (orElse : Bool) (nested : Nat)
    (k : List Line) : behindClose orElse nested (ls ++ k) = behindClose orElse nested k := by
  induction h generalizing nested k with
  | nil | label | run => simp [C.behindClose]
  | append _ _ h h' => simp [h, h']
  | block _ h | onlyIf _ _ h => simp [C.behindClose, h]
  | ifElse _ _ _ h h' => simp [C.behindClose, h, h']

lemma behindClose_flattenAll (orElse : Bool) (nested : Nat) (k : List Line) (ss : List Stmt) :
    behindClose orElse nested (Stmt.flattenAll ss ++ k) = behindClose orElse nested k :=
  (nested_flattenAll ss).behindClose orElse nested k

/-- A function that runs or has returned. -/
inductive Config (μ σ : Type) where
  /-- It is at the first of some lines. -/
  | running (lines : List Line) (frame : Frame) (world : World μ σ)
  /-- It has returned, with a result if it has one. -/
  | returned (value : Option Value) (world : World μ σ)

/-- What a line in front of the lines `k` does when its operands have been evaluated. The whole
body is where the labels are looked for. -/
def Line.perform (whole : List Line) (line : Line) (operands : List Value) (k : List Line)
    (w : World μ σ) : Option (Config μ σ) :=
  match line, operands with
  | .label _, [] | .openBlock, [] | .close, [] => some (.running k F w)
  | .openIf _, [c] =>
    if c.isTrue then some (.running k F w)
    else (behindClose true 0 k).map fun k => .running k F w
  | .openElse, [] => (behindClose false 0 k).map fun k => .running k F w
  | .run (.assign place _), [v] =>
    (n.assign F w (place.text n) v).map fun (F, w) => .running k F w
  | .run (.discard _), [_] => some (.running k F w)
  | .run (.call f _), args =>
    (n.call H F w (n.symbols.function f) args).map fun (_, w) => .running k F w
  | .run (.store op _ off _), [addr, value] =>
    (w.store H op addr off value).map fun w => .running k F w
  | .run (.jump l), [] => (findLabel l whole).map fun k => .running k F w
  | .run (.jumpIf _ carried l), [c] =>
    let taken := match carried with
      | some (t, value) => [.run (.assign (.temp t) value), .run (.jump l)]
      | none => [.run (.jump l)]
    some (.running (if c.isTrue then taken ++ k else k) F w)
  | .run (.leave (some _)), [v] => some (.returned (some v) w)
  | .run (.leave none), [] => some (.returned none w)
  | .run (.leaveIf _ value), [c] =>
    some (.running (if c.isTrue then .run (.leave value) :: k else k) F w)
  | _, _ => none

/-- A step of a function with a given body. -/
inductive Step (whole : List Line) : Config μ σ → Config μ σ → Prop
  /-- An operand of the first line takes a step. -/
  | operand {F : Frame} {line : Line} {k : List Line} {es : List Expr} {w w' : World μ σ}
      (h : Expr.StepAny H n F line.operands w es w') :
      Step whole (.running (line :: k) F w) (.running (line.withOperands es :: k) F w')
  /-- The first line is performed. -/
  | perform {F : Frame} {line : Line} {k : List Line} {vs : List Value} {w : World μ σ}
      {c : Config μ σ} (hvs : line.operands = vs.map .const)
      (h : line.perform H n F whole vs k w = some c) :
      Step whole (.running (line :: k) F w) c
  /-- The end of the body is reached. -/
  | finish {F : Frame} {w : World μ σ} : Step whole (.running [] F w) (.returned none w)

namespace FunctionDef

variable (f : FunctionDef)

/-- The variables of a function, with the values they start with: parameters are the arguments,
locals and temporaries are zero. -/
def bindings (args : List Value) : List (String × Value) :=
  let params := f.type.params.length
  args.mapIdx (fun i v => (localName params i, v)) ++
    f.locals.mapIdx (fun i t => (localName params (params + i), t.zero)) ++
    f.temps.mapIdx (fun i t => (tempName i, t.zero))

/-- A function at its first line. -/
def start (args : List Value) (w : World μ σ) : Config μ σ :=
  .running f.bodyLines (fun x => (f.bindings args).lookup x) w

end FunctionDef

end C

end WasmToC

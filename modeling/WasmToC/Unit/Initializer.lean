import WasmToC.Unit.Declarations

/-!
# The module initializer

The function that sets up memory, globals and tables, in this order, and then runs the
post-instantiation hook.

## Main definitions

* `C.InitExpr` — the value of a global or the first slot of a segment.
* `C.InitStep` — a step of the initializer.
* `initializer` — the steps of a module.
-/

namespace WasmToC

namespace C

/-- The value of an initializer. -/
inductive InitExpr where
  /-- The value of a global. -/
  | global (i : Nat)
  /-- A constant. -/
  | const (v : Value)
  deriving DecidableEq

/-- The text of an initializer. -/
def InitExpr.text (s : Symbols) : InitExpr → String
  | global i => s.global i
  | const v => literal v

/-- A step of the module initializer. -/
inductive InitStep where
  /-- Sets up the memory. -/
  | memory (initial maximum : Nat)
  /-- Relocates the memory by the value of a global. -/
  | memoryBase (global : Nat)
  /-- Sets a global. -/
  | setGlobal (i : Nat) (value : InitExpr)
  /-- Copies functions into a table. -/
  | fillTable (table : Nat) (offset : InitExpr) (functions : List Nat)
  /-- Calls a function. -/
  | call (f : Nat)
  deriving DecidableEq

/-- The lines of a step. -/
def InitStep.lines (s : Symbols) : InitStep → List String
  | memory initial maximum => [s!"wasm_rt_memory_init({initial}u, {maximum}u);"]
  | memoryBase g => ["wasm_rt_memory_base = (uint32_t)" ++ s.global g ++ ";"]
  | setGlobal i value => [assignText (s.global i) (value.text s)]
  | fillTable table offset functions =>
    let references := functions.map fun f => "(wasm_rt_funcref)&" ++ s.function f
    let args := ["&" ++ s.table table, "(uint32_t)" ++ offset.text s, "elements",
      s!"{functions.length}u"]
    ["\x7b",
     "  static const wasm_rt_funcref elements[] = \x7b " ++ ", ".intercalate references ++ " \x7d;",
     "  " ++ callText "wasm_rt_table_init" args ++ ";",
     "\x7d"]
  | call f => [callText (s.function f) [] ++ ";"]

/-- The definition of the module initializer. -/
def initializerLines (s : Symbols) (steps : List InitStep) : List String :=
  ("void " ++ s.initializer ++ "(void) \x7b") ::
    (steps.flatMap fun step => step.lines s).map (indented 1) ++ ["\x7d"]

end C

/-- The largest number of memory pages. -/
def maxPages : Nat := 65536

/-- The export that is called at the end of the initializer. -/
def postInstantiate : String := "__post_instantiate"

/-- The names of an imported global that relocates the memory. -/
def memoryBaseNames : List String := ["__memory_base", "memoryBase"]

/-- Whether an imported global relocates the memory. -/
def isMemoryBase (i : Import) : Bool :=
  match i.desc with
  | .global g => memoryBaseNames.contains i.field && g.content == .i32
  | _ => false

/-- The first imported global that relocates the memory. -/
def memoryBase? (m : Module) : Option Nat := (m.importsOf .global).findIdx? isMemoryBase

/-- An initializer instruction as a C expression. -/
def initExpr (i : Instruction) : Except Failure C.InitExpr :=
  match i.op with
  | .getGlobal =>
    match i.imm.index? with
    | some k => .ok (.global k)
    | none => .error (.error (.invalid .globalWithoutIndex))
  | _ =>
    match i.imm.value? with
    | some v => .ok (.const v)
    | none => .error (.error (.invalid (.notConstant i)))

/-- The step that sets up the memory. -/
def memoryStep (m : Module) (o : Options) : C.InitStep :=
  match m.memoryLimits? with
  | some l => .memory l.initial (l.maximum.getD maxPages)
  | none => .memory o.memoryPages maxPages

/-- The steps that set globals from a given index on. -/
def globalSteps : (index : Nat) → List Global → Except Failure (List C.InitStep)
  | _, [] => .ok []
  | index, g :: rest => do
    let value ← initExpr g.init
    let others ← globalSteps (index + 1) rest
    return .setGlobal index value :: others

/-- The steps that fill tables; a segment without functions has none. -/
def segmentSteps : List Segment → Except Failure (List C.InitStep)
  | [] => .ok []
  | e :: rest =>
    if e.functions.isEmpty then segmentSteps rest
    else do
      let offset ← initExpr e.offset
      let others ← segmentSteps rest
      return .fillTable e.table offset e.functions :: others

/-- The call of the post-instantiation hook, if it takes no parameters. -/
def hookSteps (m : Module) : Traced (List C.InitStep) := do
  match m.exported? postInstantiate .function with
  | none => return []
  | some e =>
    if ((m.functionType? e.index).map fun t => t.params.isEmpty).getD false then
      return [.call e.index]
    else
      Traced.note .warn (postInstantiate ++ " takes parameters and is not called")
      return []

/-- The steps of the module initializer. -/
def initializer (m : Module) (o : Options) : Traced (List C.InitStep) := do
  let base := (memoryBase? m).toList.map C.InitStep.memoryBase
  let globals ← globalSteps m.importedGlobals m.globals
  let segments ← segmentSteps m.segments
  let hook ← hookSteps m
  return memoryStep m o :: base ++ globals ++ segments ++ hook

end WasmToC

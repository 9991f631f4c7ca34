import WasmToC.Reconstruct.Step

/-!
# Whole functions

A function body is rebuilt from its first instruction to its last; what is left on the stack then
is its result.

## Main definitions

* `Rebuild.run` — all instructions of a body.
* `Rebuild.finish` — the end of a body.
* `rebuildFunction` — the C definition of one of the module's own functions.
-/

namespace WasmToC

namespace Rebuild

/-- Instructions one after the other; those that can be reached are logged. -/
def run (around : Surroundings) : List Instruction → Rebuild → Traced Rebuild
  | [], r => pure r
  | i :: rest, r => do
    if r.reach.isLive then Traced.note .trace (s!"function {around.index}: " ++ i.text)
    let r ← r.step around i
    run around rest r

/-- The constructs that are open, reachable or not. -/
def openConstructs (r : Rebuild) : Nat :=
  r.constructs.length + match r.reach with
    | .live => 0
    | .dead nested => nested

/-- The end of the body: an operand that is left is the function's result. -/
def finish (around : Surroundings) (r : Rebuild) : Except Failure Rebuild :=
  let site : Site := ⟨around, .endOp⟩
  let found := r.scope.values.length
  if r.openConstructs ≠ 0 then site.refuse (.stillOpen r.openConstructs)
  else if !r.reach.isLive then .ok r
  else
    match around.type.result with
    | some t =>
      if found ≠ 1 then site.refuse (.bodyLeftover found 1)
      else do
        let (v, r) ← r.popTyped site t
        return r.emit (.leave (some v.expr))
    | none => if found ≠ 0 then site.refuse (.bodyLeftover found 0) else .ok r

end Rebuild

/-- What the instructions of one of the module's own functions depend on. -/
def surroundings (m : Module) (index : Nat) (f : Function) (t : FuncType) : Surroundings :=
  ⟨m, index, t, t.params ++ f.locals⟩

/-- The C definition of a function with a given index and type. -/
def rebuildBody (m : Module) (index : Nat) (f : Function) (t : FuncType) :
    Traced C.FunctionDef := do
  let around := surroundings m index f t
  let r ← Rebuild.run around f.code {}
  let r ← (r.finish around : Except Failure Rebuild)
  Traced.note .debug s!"Translated function {index} ({f.code.length} instructions)"
  return { index
           isExported := (m.exportName? .function index).isSome
           type := t
           locals := f.locals
           temps := r.temps.toList
           body := r.scope.code.toList }

/-- The C definition of the module's own function at a position. There is none past the last
function. -/
def rebuildFunction (m : Module) (position : Nat) : Traced C.FunctionDef := do
  match m.functions[position]? with
  | none => Traced.ofExcept (.error .abort)
  | some f =>
    let index := m.importedFunctions + position
    match m.types[f.typeIndex]? with
    | none => Traced.fail (.invalid (.functionWithoutType index))
    | some t => rebuildBody m index f t

/-- The text of the module's own function at a position. -/
def functionText (m : Module) (s : C.Symbols) (position : Nat) : Traced String := do
  return (← rebuildFunction m position).text s

end WasmToC

import Mathlib.Tactic.Lemma
import WasmToC.Reconstruct.Step

/-!
# Validation

The validation algorithm for function bodies. It goes through the code once, with the types of the
operands that wait and a control frame for each open construct. Behind a branch the rest of a frame
cannot be reached: its operands are forgotten, and whatever is taken from a frame that has none has
an unknown type, which fits everywhere.

The alignment of memory accesses, and whether there is a memory or a table, are not looked at. This
makes more bodies valid than the full algorithm does.

## Main definitions

* `Validation.Frame` — an open construct, with its operands.
* `Validation.step` — one instruction.
* `Validation.run` — instructions one after the other.
* `Validation.accepts` — whether a body is valid.

## Main results

* `Validation.keeps_step` — what neither opens nor ends a construct or an arm only changes
  the operands of the innermost frame.
-/

namespace WasmToC

/-- There is a result if both parts of a sequence have one. -/
lemma bind_eq_some {α β : Type} {x : Option α} {f : α → Option β} {b : β} :
    (x >>= f) = some b ↔ ∃ a, x = some a ∧ f a = some b :=
  Option.bind_eq_some_iff

lemma pure_eq_some {α : Type} {a b : α} : (pure a : Option α) = some b ↔ a = b :=
  Option.some_inj

namespace Validation

/-! ## Frames -/

/-- What a control frame stands for. -/
inductive FrameKind where
  /-- The function body. -/
  | body
  /-- A block. -/
  | block
  /-- A loop. -/
  | loop
  /-- The first arm of a conditional. -/
  | ifArm
  /-- The second arm of a conditional. -/
  | elseArm
  deriving DecidableEq, Repr

/-- A control frame. -/
structure Frame where
  /-- What it stands for. -/
  kind : FrameKind
  /-- The type of its result. -/
  result : Option ValueType
  /-- The types of its operands, last one first; an unknown type is `none`. -/
  operands : List (Option ValueType) := []
  /-- Whether the next instruction cannot be reached. -/
  unreachable : Bool := false
  deriving DecidableEq, Repr

/-- The type that a branch to a frame carries: one to a loop goes to its start and carries none. -/
def Frame.labelType (f : Frame) : Option ValueType := if f.kind = .loop then none else f.result

/-! ## Operands -/

/-- Pushes an operand. -/
def push (t : Option ValueType) : List Frame → List Frame
  | [] => []
  | f :: cs => { f with operands := t :: f.operands } :: cs

/-- Takes the last operand of the innermost frame. -/
def pop : List Frame → Option (Option ValueType × List Frame)
  | [] => none
  | f :: cs =>
    match f.operands with
    | t :: vs => some (t, { f with operands := vs } :: cs)
    | [] => if f.unreachable then some (none, f :: cs) else none

/-- Takes an operand that has to have a given type. -/
def popTyped (t : ValueType) (fs : List Frame) : Option (List Frame) := do
  let (found, fs) ← pop fs
  if found = none ∨ found = some t then return fs else none

/-- Takes operands of given types, the first type first. -/
def popEach : List ValueType → List Frame → Option (List Frame)
  | [], fs => some fs
  | t :: ts, fs => do popEach ts (← popTyped t fs)

/-- Takes a result, if there is one. -/
def popResult (res : Option ValueType) (fs : List Frame) : Option (List Frame) :=
  popEach res.toList fs

/-- Pushes a result, if there is one. -/
def pushResult (res : Option ValueType) (fs : List Frame) : List Frame :=
  match res with
  | some t => push (some t) fs
  | none => fs

/-- The rest of the innermost frame cannot be reached. -/
def cutOff : List Frame → List Frame
  | [] => []
  | f :: cs => { f with operands := [], unreachable := true } :: cs

/-- Takes the innermost frame, in which nothing but its result may be left. -/
def popFrame (fs : List Frame) : Option (Frame × List Frame) :=
  match fs with
  | [] => none
  | f :: cs => do
    let rest ← popResult f.result fs
    if (rest.head?.map Frame.operands) = some [] then return (f, cs) else none

/-! ## Instructions -/

/-- One instruction. -/
def step (env : Surroundings) (i : Instruction) (fs : List Frame) : Option (List Frame) :=
  match i.op with
  | .nop => some fs
  | .unreachable => some (cutOff fs)
  | .block => do return { kind := .block, result := ← i.imm.block? } :: fs
  | .loop => do return { kind := .loop, result := ← i.imm.block? } :: fs
  | .ifOp => do
    let result ← i.imm.block?
    let fs ← popTyped .i32 fs
    return { kind := .ifArm, result } :: fs
  | .elseOp => do
    let (f, cs) ← popFrame fs
    if f.kind = .ifArm then return { kind := .elseArm, result := f.result } :: cs else none
  | .endOp => do
    let (f, cs) ← popFrame fs
    if f.kind = .body ∨ f.kind = .ifArm ∧ f.result.isSome then none
    else return pushResult f.result cs
  | .br => do
    let f ← fs[← i.imm.depth?]?
    return cutOff (← popResult f.labelType fs)
  | .brIf => do
    let depth ← i.imm.depth?
    let fs ← popTyped .i32 fs
    let f ← fs[depth]?
    return pushResult f.labelType (← popResult f.labelType fs)
  | .brTable =>
    match i.imm with
    | .table targets default => do
      let fs ← popTyped .i32 fs
      let f ← fs[default]?
      if targets.all fun d => fs[d]?.map Frame.labelType = some f.labelType then
        return cutOff (← popResult f.labelType fs)
      else none
    | _ => none
  | .returnOp => do return cutOff (← popResult env.type.result fs)
  | .call => do
    let t ← env.inModule.functionType? (← i.imm.index?)
    return pushResult t.result (← popEach t.params.reverse fs)
  | .callIndirect =>
    match i.imm with
    | .callIndirect typeIndex _ => do
      let t ← env.inModule.types[typeIndex]?
      let fs ← popTyped .i32 fs
      return pushResult t.result (← popEach t.params.reverse fs)
    | _ => none
  | .drop => do return (← pop fs).2
  | .select => do
    let fs ← popTyped .i32 fs
    let (second, fs) ← pop fs
    let (first, fs) ← pop fs
    if first = second ∨ first = none ∨ second = none then return push (first.or second) fs else none
  | .getLocal => do return push (some (← env.locals[← i.imm.index?]?)) fs
  | .setLocal => do popTyped (← env.locals[← i.imm.index?]?) fs
  | .teeLocal => do
    let t ← env.locals[← i.imm.index?]?
    return push (some t) (← popTyped t fs)
  | .getGlobal => do
    let g ← env.inModule.globalType? (← i.imm.index?)
    return push (some g.content) fs
  | .setGlobal => do
    let g ← env.inModule.globalType? (← i.imm.index?)
    if g.isMutable then popTyped g.content fs else none
  | .currentMemory => some (push (some .i32) fs)
  | .growMemory => do return push (some .i32) (← popTyped .i32 fs)
  | .const t => do
    let v ← i.imm.value?
    if v.type = t then return push (some t) fs else none
  | .load op => do
    let _ ← i.imm.offset?
    return push (some op.type) (← popTyped .i32 fs)
  | .store op => do
    let _ ← i.imm.offset?
    popTyped .i32 (← popTyped op.type fs)
  | .numeric op => do
    let fs ← popEach (List.replicate op.shape.arity op.shape.operand) fs
    return push (some op.shape.result) fs

/-- Instructions one after the other. -/
def run (env : Surroundings) : List Instruction → List Frame → Option (List Frame)
  | [], fs => some fs
  | i :: code, fs => do run env code (← step env i fs)

/-- Whether a body is valid: its code ends in the frame of the body, which holds its result and
nothing else. -/
def accepts (env : Surroundings) (code : List Instruction) : Bool :=
  match run env code [{ kind := .body, result := env.type.result }] with
  | some [f] => f.kind = .body && (popFrame [f]).isSome
  | _ => false

/-! ## What stays -/

/-- The frames without the operands of the innermost one. -/
def skeleton : List Frame → List Frame
  | [] => []
  | f :: cs => { f with operands := [], unreachable := false } :: cs

variable {env : Surroundings} {i : Instruction} {fs fs' : List Frame}

@[simp] lemma skeleton_push (t : Option ValueType) (fs : List Frame) :
    skeleton (push t fs) = skeleton fs := by
  cases fs <;> rfl

@[simp] lemma skeleton_pushResult (res : Option ValueType) (fs : List Frame) :
    skeleton (pushResult res fs) = skeleton fs := by
  cases res with
  | none => rfl
  | some t => exact skeleton_push _ fs

@[simp] lemma skeleton_cutOff (fs : List Frame) : skeleton (cutOff fs) = skeleton fs := by
  cases fs <;> rfl

lemma skeleton_pop {t : Option ValueType} (h : pop fs = some (t, fs')) :
    skeleton fs' = skeleton fs := by
  cases fs with
  | nil => simp [pop] at h
  | cons f cs =>
    simp only [pop] at h
    split at h
    · simp only [Option.some.injEq, Prod.mk.injEq] at h
      rw [← h.2]
      rfl
    · split at h
      · simp only [Option.some.injEq, Prod.mk.injEq] at h
        rw [← h.2]
      · cases h

/-- A computation, if it has a result, gives frames that differ from others at most in the operands
of the innermost one. -/
def Keeps (fs : List Frame) (x : Option (List Frame)) : Prop :=
  ∀ fs' ∈ x, skeleton fs' = skeleton fs

namespace Keeps

lemma ok (h : skeleton fs' = skeleton fs) : Keeps fs (some fs') := by
  rintro _ ⟨⟩
  exact h

lemma refused : Keeps fs none := by
  rintro _ ⟨⟩

lemma guard {p : Prop} [Decidable p] {x : Option (List Frame)} (h : Keeps fs x) :
    Keeps fs (if p then x else none) := by
  split
  · exact h
  · exact refused

/-- What a computation takes besides frames does not matter. -/
lemma need {α : Type} {x : Option α} {f : α → Option (List Frame)} (h : ∀ a, Keeps fs (f a)) :
    Keeps fs (x >>= f) := by
  intro fs' hfs'
  obtain ⟨a, -, hfs'⟩ := bind_eq_some.mp hfs'
  exact h a fs' hfs'

lemma bind {x : Option (List Frame)} {f : List Frame → Option (List Frame)} (hx : Keeps fs x)
    (h : ∀ fs', Keeps fs' (f fs')) : Keeps fs (x >>= f) := by
  intro fs'' hfs''
  obtain ⟨fs', hfs', hfs''⟩ := bind_eq_some.mp hfs''
  rw [h fs' fs'' hfs'', hx fs' hfs']

lemma pop {f : Option ValueType × List Frame → Option (List Frame)}
    (h : ∀ t fs', Keeps fs' (f (t, fs'))) : Keeps fs (Validation.pop fs >>= f) := by
  intro fs'' hfs''
  obtain ⟨⟨t, fs'⟩, hpop, hfs''⟩ := bind_eq_some.mp hfs''
  rw [h t fs' fs'' hfs'', skeleton_pop hpop]

lemma popTyped {t : ValueType} : Keeps fs (Validation.popTyped t fs) :=
  .pop fun _ _ => .guard (.ok rfl)

lemma popEach {ts : List ValueType} : Keeps fs (Validation.popEach ts fs) := by
  induction ts generalizing fs with
  | nil => exact .ok rfl
  | cons t ts ih => exact .bind .popTyped fun _ => ih

end Keeps

lemma skeleton_drop (h : skeleton fs' = skeleton fs) (n : Nat) :
    skeleton (fs'.drop n) = skeleton (fs.drop n) := by
  cases n with
  | zero => exact h
  | succ n =>
    cases fs <;> cases fs' <;> simp_all [skeleton]

/-- Taking the innermost frame leaves the others as they are. -/
lemma popFrame_eq_some {f : Frame} {cs : List Frame} (h : popFrame fs = some (f, cs)) :
    fs = f :: cs := by
  cases fs with
  | nil => simp [popFrame] at h
  | cons g outer' =>
    simp only [popFrame, bind_eq_some] at h
    obtain ⟨rest, -, h⟩ := h
    split at h
    · cases h
      rfl
    · cases h

/-- **What neither opens nor ends a construct or an arm** only changes the operands of the innermost
frame. -/
theorem keeps_step (hopens : i.op.opensConstruct = false) (helse : i.op ≠ .elseOp)
    (hend : i.op ≠ .endOp) : Keeps fs (step env i fs) := by
  unfold step
  cases hop : i.op with
  | block | loop | ifOp => simp [hop, Opcode.opensConstruct] at hopens
  | elseOp => exact absurd hop helse
  | endOp => exact absurd hop hend
  | nop | unreachable | currentMemory => exact .ok (by simp)
  | br => exact .need fun _ => .need fun _ => .bind .popEach fun _ => .ok (skeleton_cutOff _)
  | brIf =>
    exact .need fun _ => .bind .popTyped fun _ => .need fun _ => .bind .popEach fun _ =>
      .ok (skeleton_pushResult _ _)
  | brTable =>
    cases i.imm with
    | table =>
      exact .bind .popTyped fun _ => .need fun _ =>
        .guard (.bind .popEach fun _ => .ok (skeleton_cutOff _))
    | _ => exact .refused
  | returnOp => exact .bind .popEach fun _ => .ok (skeleton_cutOff _)
  | call =>
    exact .need fun _ => .need fun _ => .bind .popEach fun _ => .ok (skeleton_pushResult _ _)
  | callIndirect =>
    cases i.imm with
    | callIndirect =>
      exact .need fun _ => .bind .popTyped fun _ => .bind .popEach fun _ =>
        .ok (skeleton_pushResult _ _)
    | _ => exact .refused
  | drop => exact .pop fun _ _ => .ok rfl
  | select =>
    exact .bind .popTyped fun _ => .pop fun _ _ => .pop fun _ _ => .guard (.ok (skeleton_push _ _))
  | getLocal | getGlobal => exact .need fun _ => .need fun _ => .ok (skeleton_push _ _)
  | setLocal => exact .need fun _ => .need fun _ => .popTyped
  | teeLocal => exact .need fun _ => .need fun _ => .bind .popTyped fun _ => .ok (skeleton_push _ _)
  | setGlobal => exact .need fun _ => .need fun _ => .guard .popTyped
  | growMemory => exact .bind .popTyped fun _ => .ok (skeleton_push _ _)
  | const => exact .need fun _ => .guard (.ok (skeleton_push _ _))
  | load => exact .need fun _ => .bind .popTyped fun _ => .ok (skeleton_push _ _)
  | store => exact .need fun _ => .bind .popTyped fun _ => .popTyped
  | numeric => exact .bind .popEach fun _ => .ok (skeleton_push _ _)

end Validation

end WasmToC

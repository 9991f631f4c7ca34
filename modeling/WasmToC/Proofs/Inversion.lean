import WasmToC.Proofs.Lines
import WasmToC.Reconstruct.Function

/-!
# What an instruction can do

Everything a successful step of reconstruction can do, stated once for each instruction. The step
functions check their operands and may refuse; here they have not, so that what is left are the
states they lead to.

## Main definitions

* `Rebuild.Leaves`, `Rebuild.Branches`, `Rebuild.BranchesIf` — leaving the
  function or a construct.
* `Rebuild.Acts` — an instruction that is neither a construct nor part of one.
* `Rebuild.Enters`, `Rebuild.Switches`, `Rebuild.Closes` — the start of a
  construct, the change between its arms and its end.

## Main results

* `Rebuild.acts_of_stepLive`, `Rebuild.enters_of_enter`,
  `Rebuild.switches_of_switchArm`, `Rebuild.closes_of_close`.
-/

namespace WasmToC

open Option Site
open C (Line Stmt)

variable {α : Type}

lemma bind_eq_ok {ε β : Type} {x : Except ε α} {f : α → Except ε β} {b : β} :
    (x >>= f) = .ok b ↔ ∃ a, x = .ok a ∧ f a = .ok b := by
  cases x <;> simp [bind, Except.bind]

lemma pure_eq_ok {ε : Type} {a b : α} : (pure a : Except ε α) = .ok b ↔ a = b := by
  simp [pure, Except.pure]

lemma Site.need_eq_ok {site : Site} {part : Option α} {fault : BodyFault} {a : α} :
    site.need part fault = .ok a ↔ part = some a := by
  cases part <;> simp [need, refuse]

namespace Rebuild

variable {site : Site} {r r1 : Rebuild} {c : Construct} {v : Pending} {t : ValueType} {d : Nat}
  {value : Option Pending}

/-! ## Operands -/

@[simp] lemma withValues_values (values : List Pending) :
    (r.withValues values).scope.values = values := rfl

/-- Taking an operand takes the last one. -/
lemma pop_eq_ok :
    r.pop site = .ok (v, r1) ↔ ∃ vs, r.scope.values = v :: vs ∧ r1 = r.withValues vs := by
  unfold pop
  cases r.scope.values with
  | nil => simp [refuse]
  | cons u vs =>
    simp only [Except.ok.injEq, Prod.mk.injEq, List.cons.injEq]
    constructor
    · rintro ⟨rfl, rfl⟩
      exact ⟨vs, ⟨rfl, rfl⟩, rfl⟩
    · rintro ⟨_, ⟨rfl, rfl⟩, rfl⟩
      exact ⟨rfl, rfl⟩

/-- Taking an operand of a type takes the last one, which has that type. -/
lemma popTyped_eq_ok : r.popTyped site t = .ok (v, r1) ↔
      ∃ vs, r.scope.values = v :: vs ∧ v.type = t ∧ r1 = r.withValues vs := by
  simp only [popTyped, bind_eq_ok, Prod.exists, pop_eq_ok]
  constructor
  · rintro ⟨u, r2, ⟨vs, hv, rfl⟩, h⟩
    split at h
    · cases h
      exact ⟨vs, hv, ‹_›, rfl⟩
    · simp [refuse] at h
  · rintro ⟨vs, hv, ht, rfl⟩
    exact ⟨v, _, ⟨vs, hv, rfl⟩, by simp [ht, pure_eq_ok]⟩

/-- The last operand that is looked at is the last one. -/
lemma peekTyped_eq_ok :
    r.peekTyped site t = .ok v ↔ ∃ vs, r.scope.values = v :: vs ∧ v.type = t := by
  simp only [peekTyped, bind_eq_ok, Prod.exists, popTyped_eq_ok, pure_eq_ok]
  constructor
  · rintro ⟨u, _, ⟨vs, hv, ht, rfl⟩, rfl⟩
    exact ⟨vs, hv, ht⟩
  · rintro ⟨vs, hv, ht⟩
    exact ⟨v, _, ⟨vs, hv, ht, rfl⟩, rfl⟩

/-- Taking several operands takes the last ones. -/
lemma popEach_eq_ok {ts : List ValueType} {taken args : List Pending}
    (h : popEach site ts taken r = .ok (args, r1)) :
    ∃ popped vs, r.scope.values = popped ++ vs ∧ popped.map Pending.type = ts ∧
      args = popped.reverse ++ taken ∧ r1 = r.withValues vs := by
  induction ts generalizing r taken with
  | nil =>
    simp only [popEach, Except.ok.injEq, Prod.mk.injEq] at h
    obtain ⟨rfl, rfl⟩ := h
    exact ⟨[], r.scope.values, rfl, rfl, rfl, rfl⟩
  | cons t ts ih =>
    simp only [popEach, bind_eq_ok, Prod.exists, popTyped_eq_ok] at h
    obtain ⟨v, _, ⟨vs, hv, ht, rfl⟩, h⟩ := h
    obtain ⟨popped, rest, hrest, htypes, rfl, rfl⟩ := ih h
    rw [withValues_values] at hrest
    refine ⟨v :: popped, rest, ?_, by simp [ht, htypes], by simp, rfl⟩
    rw [hv, hrest, List.cons_append]

/-- The arguments that are taken are the last operands, the first one first. -/
lemma popArgs_eq_ok {ts : List ValueType} {args : List Pending}
    (h : r.popArgs site ts = .ok (args, r1)) :
    ∃ vs, r.scope.values = args.reverse ++ vs ∧ args.map Pending.type = ts ∧
      r1 = r.withValues vs := by
  obtain ⟨popped, vs, hv, htypes, rfl, rfl⟩ := popEach_eq_ok h
  refine ⟨vs, by simpa using hv, ?_, rfl⟩
  simpa using congrArg List.reverse htypes

lemma require_eq_ok {n : Nat} {u : Unit} :
    r.require site n = .ok u ↔ n ≤ r.scope.values.length := by
  unfold require
  split
  · simp only [refuse, reduceCtorEq, false_iff]
    omega
  · simp only [true_iff]
    omega

/-- A branch leads to an open construct or to the end of the function. -/
lemma target_eq_ok {found : Option Construct} : r.target site d = .ok found ↔
      (∃ c, r.constructs[d]? = some c ∧ found = some c) ∨
        (d = r.constructs.length ∧ found = none) := by
  unfold target
  split
  · rename_i h
    simp only [Except.ok.injEq, List.getElem?_eq_getElem h, Option.some.injEq]
    constructor
    · rintro rfl
      exact .inl ⟨_, rfl, rfl⟩
    · rintro (⟨_, rfl, rfl⟩ | ⟨rfl, -⟩)
      · rfl
      · omega
  · rename_i h
    rw [List.getElem?_eq_none (by omega)]
    split
    · simp_all [eq_comm]
    · simp_all [refuse]

/-! ## What spilling leaves alone -/

/-- Evaluates a value into a new temporary. -/
def save (v : Pending) (r : Rebuild) : Rebuild :=
  (r.newTemp v.type).2.emit (.assign (.temp r.temps.size) v.expr)

/-- Marked operands are saved after those below them, unless that makes no difference. -/
lemma evaluateMarked_cons (v : Pending) (marked : Bool) (vs : List (Pending × Bool)) (r : Rebuild) :
    evaluateMarked ((v, marked) :: vs) r =
      if marked && !v.uses.isStable then
        (.temp (evaluateMarked vs r).2.temps.size v.type :: (evaluateMarked vs r).1,
          (evaluateMarked vs r).2.save v)
      else (v :: (evaluateMarked vs r).1, (evaluateMarked vs r).2) := rfl

/-- Evaluating operands changes code and temporaries only. -/
lemma evaluateMarked_frame (marks : List (Pending × Bool)) (r : Rebuild) :
    (evaluateMarked marks r).2.constructs = r.constructs ∧
      (evaluateMarked marks r).2.reach = r.reach ∧
      (evaluateMarked marks r).2.labels = r.labels := by
  induction marks with
  | nil => exact ⟨rfl, rfl, rfl⟩
  | cons m vs ih =>
    rw [evaluateMarked_cons]
    split
    · exact ih
    · exact ih

/-- The marks that spilling works on. -/
def marksOf (marked : Nat → Pending → Bool) (h : Hazard) (values : List Pending) :
    List (Pending × Bool) :=
  markConflicts h (values.mapIdx fun i v => (v, marked i v))

variable (marked : Nat → Pending → Bool) (h : Hazard)

@[simp] lemma spill_constructs : (r.spill marked h).constructs = r.constructs :=
  (evaluateMarked_frame _ r).1

@[simp] lemma spill_reach : (r.spill marked h).reach = r.reach := (evaluateMarked_frame _ r).2.1

@[simp] lemma spill_labels : (r.spill marked h).labels = r.labels := (evaluateMarked_frame _ r).2.2

@[simp] lemma settle_constructs : (r.settle h).constructs = r.constructs := spill_constructs _ _

@[simp] lemma settle_reach : (r.settle h).reach = r.reach := spill_reach _ _

@[simp] lemma settle_labels : (r.settle h).labels = r.labels := spill_labels _ _

/-! ## Lines -/

/-- The assignments by which marked operands are evaluated, the lowest first. -/
def evaluations : List (Pending × Bool) → Rebuild → List Stmt
  | [], _ => []
  | (v, marked) :: vs, r =>
    evaluations vs r ++
      if marked && !v.uses.isStable then
        [.assign (.temp (evaluateMarked vs r).2.temps.size) v.expr]
      else []

/-- What spilling writes. -/
def spilling (marked : Nat → Pending → Bool) (h : Hazard) (r : Rebuild) : List Line :=
  (evaluations (marksOf marked h r.scope.values) r).map .run

/-- What settling writes. -/
def settling (h : Hazard) (r : Rebuild) : List Line := r.spilling (fun _ _ => false) h

/-- What is written where operands are settled before a statement. -/
def settlingFor (h : Hazard) (s : Stmt) (r : Rebuild) : List Line := r.settling h ++ [.run s]

/-- What is written where operands are put in sequence. -/
def sequencing (n : Nat) (r : Rebuild) : List Line :=
  let operands := r.scope.values.take n
  if operands.any (fun v => v.uses.effects) &&
      1 < (operands.filter fun v => v.uses.dependsOnState).length then
    r.spilling (fun i v => 0 < i && i < n && v.uses.dependsOnState) .none
  else []

/-- What is written where a value is evaluated for its effects. -/
def discarding (v : Pending) (r : Rebuild) : List Line :=
  if v.uses.effects then r.settlingFor (.evaluating v.uses) (.discard v.expr) else []

/-! ## Leaving -/

/-- The state in which a value is evaluated in order to leave. -/
def leavingWith (v : Pending) (vs : List Pending) (r : Rebuild) : Rebuild :=
  (r.withValues vs).settle ((Hazard.evaluating v.uses).and .leaving)

/-- What is written before a value is evaluated in order to leave. -/
def settlingWith (v : Pending) (vs : List Pending) (r : Rebuild) : List Line :=
  (r.withValues vs).settling ((Hazard.evaluating v.uses).and .leaving)

@[simp] lemma leavingWith_constructs (v : Pending) (vs : List Pending) :
    (r.leavingWith v vs).constructs = r.constructs := settle_constructs _

@[simp] lemma leavingWith_labels (v : Pending) (vs : List Pending) :
    (r.leavingWith v vs).labels = r.labels := settle_labels _

lemma getElem?_leavingWith (v : Pending) (vs : List Pending)
    (hc : r.constructs[d]? = some c) : (r.leavingWith v vs).constructs[d]? = some c := by
  rwa [leavingWith_constructs]

/-- A value goes into the result temporary of the construct at a depth. -/
def carryTo (d : Nat) (c : Construct) (t : ValueType) (v : Pending) (r : Rebuild) : Rebuild :=
  (r.resultTemp d c t).2.emit (.assign (.temp (r.resultTemp d c t).1) v.expr)

/-- The line that puts a value into the result temporary of the construct at a depth. -/
def carryingTo (d : Nat) (c : Construct) (t : ValueType) (v : Pending) (r : Rebuild) : List Line :=
  [.run (.assign (.temp (r.resultTemp d c t).1) v.expr)]

/-- Control goes to the construct at a depth. -/
def jumpTo (d : Nat) (c : Construct) (r : Rebuild) : Rebuild :=
  ((r.labelOf d c).2.emit (.jump (r.labelOf d c).1)).kill

/-- The line of a jump to the construct at a depth. -/
def jumpingTo (d : Nat) (c : Construct) (r : Rebuild) : List Line :=
  [.run (.jump (r.labelOf d c).1)]

/-- The function returns. -/
inductive Leaves (env : Surroundings) (r : Rebuild) : List Line → Rebuild → Prop
  /-- It returns the last operand. -/
  | value {t : ValueType} {v : Pending} {vs : List Pending}
      (hres : env.type.result = some t) (hvs : r.scope.values = v :: vs)
      (htyped : v.type = t) :
      Leaves env r (r.settlingWith v vs ++ [.run (.leave (some v.expr))])
        ((r.leavingWith v vs).emit (.leave (some v.expr))).kill
  /-- It returns no value. -/
  | plain (hres : env.type.result = none) : Leaves env r (r.settlingFor .leaving (.leave none))
        ((r.settle .leaving).emit (.leave none)).kill

/-- Control goes to the construct at a depth, or the function returns. -/
inductive Branches (env : Surroundings) (d : Nat) (r : Rebuild) :
    List Line → Rebuild → Prop
  /-- The branch leads to the end of the function. -/
  | leave {es : List Line} {r1 : Rebuild} (hdepth : d = r.constructs.length)
      (h : Leaves env r es r1) : Branches env d r es r1
  /-- The branch takes the last operand along. -/
  | value {c : Construct} {t : ValueType} {v : Pending} {vs : List Pending}
      (hc : r.constructs[d]? = some c) (ht : carriedType c = some t)
      (hvs : r.scope.values = v :: vs) (htyped : v.type = t) :
      Branches env d r (r.settlingWith v vs ++ (carryingTo d c t v (r.leavingWith v vs) ++
          jumpingTo d c (carryTo d c t v (r.leavingWith v vs))))
        (jumpTo d c (carryTo d c t v (r.leavingWith v vs)))
  /-- The branch takes no value along. -/
  | plain {c : Construct} (hc : r.constructs[d]? = some c) (ht : carriedType c = none) :
      Branches env d r (r.settling .leaving ++ jumpingTo d c (r.settle .leaving))
        (jumpTo d c (r.settle .leaving))

/-- A conditional branch to the construct at a depth, with a value. -/
def jumpIfWith (d : Nat) (c : Construct) (t : ValueType) (cond v : Pending)
    (r : Rebuild) : Rebuild :=
  let (label, r) := r.labelOf d c
  let (temp, r) := r.resultTemp d c t
  r.emit (.jumpIf cond.expr (some (temp, v.expr)) label)

/-- A conditional branch to the construct at a depth, without a value. -/
def jumpIf (d : Nat) (c : Construct) (cond : Pending) (r : Rebuild) : Rebuild :=
  let (label, r) := r.labelOf d c
  r.emit (.jumpIf cond.expr none label)

/-- The line of a conditional branch with a value. -/
def jumpingIfWith (d : Nat) (c : Construct) (t : ValueType) (cond v : Pending)
    (r : Rebuild) : List Line :=
  [.run (.jumpIf cond.expr
    (some (((r.labelOf d c).2.resultTemp d c t).1, v.expr)) (r.labelOf d c).1)]

/-- The line of a conditional branch without a value. -/
def jumpingIf (d : Nat) (c : Construct) (cond : Pending) (r : Rebuild) : List Line :=
  [.run (.jumpIf cond.expr none (r.labelOf d c).1)]

/-- Control goes to the construct at a depth, or the function returns, if a condition holds. -/
inductive BranchesIf (env : Surroundings) (d : Nat) (cond : Pending)
    (r : Rebuild) : List Line → Rebuild → Prop
  /-- The function returns the last operand. -/
  | leaveWith {t : ValueType} {v : Pending} {vs : List Pending}
      (hdepth : d = r.constructs.length) (hres : env.type.result = some t)
      (hvs : r.scope.values = v :: vs) (htyped : v.type = t) :
      BranchesIf env d cond r [.run (.leaveIf cond.expr (some v.expr))]
        (r.emit (.leaveIf cond.expr (some v.expr)))
  /-- The function returns no value. -/
  | leave (hdepth : d = r.constructs.length) (hres : env.type.result = none) :
      BranchesIf env d cond r [.run (.leaveIf cond.expr none)] (r.emit (.leaveIf cond.expr none))
  /-- The branch takes the last operand along. -/
  | value {c : Construct} {t : ValueType} {v : Pending} {vs : List Pending}
      (hc : r.constructs[d]? = some c) (ht : carriedType c = some t)
      (hvs : r.scope.values = v :: vs) (htyped : v.type = t) :
      BranchesIf env d cond r (jumpingIfWith d c t cond v r) (jumpIfWith d c t cond v r)
  /-- The branch takes no value along. -/
  | plain {c : Construct} (hc : r.constructs[d]? = some c) (ht : carriedType c = none) :
      BranchesIf env d cond r (jumpingIf d c cond r) (jumpIf d c cond r)

/-- What `return` does. -/
lemma leaves_of_leave (h : r.leave site = .ok r1) : ∃ es, Leaves site.around r es r1 := by
  unfold leave at h
  cases hres : site.around.type.result with
  | none =>
    simp only [hres] at h
    cases h
    exact ⟨_, .plain hres⟩
  | some t =>
    simp only [hres, bind_eq_ok, Prod.exists, popTyped_eq_ok, pure_eq_ok] at h
    obtain ⟨v, _, ⟨vs, hv, ht, rfl⟩, rfl⟩ := h
    exact ⟨_, .value hres hv ht⟩

/-- What a branch does. -/
lemma branches_of_branch (h : r.branch site d = .ok r1) : ∃ es, Branches site.around d r es r1 := by
  simp only [branch, bind_eq_ok, target_eq_ok] at h
  obtain ⟨found, ⟨c, hc, rfl⟩ | ⟨hd, rfl⟩, h⟩ := h
  · simp only at h
    cases ht : carriedType c with
    | none =>
      simp only [ht, bind_eq_ok, pure_eq_ok, exists_eq_left'] at h
      subst h
      exact ⟨_, .plain hc ht⟩
    | some t =>
      simp only [ht, bind_eq_ok, pure_eq_ok, Prod.exists, popTyped_eq_ok] at h
      obtain ⟨v, _, ⟨vs, hv, htyped, rfl⟩, _, rfl, rfl⟩ := h
      exact ⟨_, .value hc ht hv htyped⟩
  · obtain ⟨es, h⟩ := leaves_of_leave h
    exact ⟨es, .leave hd h⟩

/-- What a conditional branch does. -/
lemma branchesIf_of_branchIf (h : r.branchIf site d = .ok r1) :
    ∃ cond vs es, r.scope.values = cond :: vs ∧ cond.type = .i32 ∧
      BranchesIf site.around d cond (r.leavingWith cond vs) es r1 := by
  simp only [branchIf, bind_eq_ok, Prod.exists, popTyped_eq_ok, target_eq_ok] at h
  obtain ⟨cond, _, ⟨vs, hv, htyped, rfl⟩, found, hfound, h⟩ := h
  have hcs : (r.leavingWith cond vs).constructs = (r.withValues vs).constructs :=
    settle_constructs _
  obtain ⟨c, hc, rfl⟩ | ⟨hd, rfl⟩ := hfound
  · simp only at h
    rw [← hcs] at hc
    cases ht : carriedType c with
    | none =>
      simp only [ht] at h
      cases h
      exact ⟨cond, vs, _, hv, htyped, .plain hc ht⟩
    | some t =>
      simp only [ht, bind_eq_ok, peekTyped_eq_ok, pure_eq_ok] at h
      obtain ⟨v, ⟨rest, hv', ht'⟩, rfl⟩ := h
      exact ⟨cond, vs, _, hv, htyped, .value hc ht hv' ht'⟩
  · simp only at h
    rw [← hcs] at hd
    cases hres : site.around.type.result with
    | none =>
      simp only [hres] at h
      cases h
      exact ⟨cond, vs, _, hv, htyped, .leave hd hres⟩
    | some t =>
      simp only [hres, bind_eq_ok, peekTyped_eq_ok, pure_eq_ok] at h
      obtain ⟨v, ⟨rest, hv', ht'⟩, rfl⟩ := h
      exact ⟨cond, vs, _, hv, htyped, .leaveWith hd hres hv' ht'⟩

/-! ## Instructions that are not part of a construct -/

/-- Effects of the operands of an indirect call, which then traps. -/
def trapIndirect (operands : List Pending) (r : Rebuild) : Rebuild :=
  ((operands.filter fun v => v.uses.effects).foldl (fun r v => r.emit (.discard v.expr)) r).emit
    (.trap .indirectCall)

/-- What all lines of an indirect call keep is kept. -/
lemma trapIndirect_keeps {P : Rebuild → Prop} {operands : List Pending} {r : Rebuild} (h : P r)
    (hoperand : ∀ v ∈ operands, ∀ r, P r → P (r.emit (.discard v.expr)))
    (htrap : ∀ r, P r → P (r.emit (.trap .indirectCall))) : P (trapIndirect operands r) := by
  refine htrap _ ?_
  have heffects : ∀ v ∈ operands.filter fun v => v.uses.effects, v ∈ operands :=
    fun v hv => (List.mem_filter.mp hv).1
  generalize operands.filter _ = effects at heffects ⊢
  induction effects generalizing r with
  | nil => exact h
  | cons v effects ih =>
    obtain ⟨hv, heffects⟩ := List.forall_mem_cons.mp heffects
    exact ih (hoperand v hv r h) heffects

/-- The lines of an indirect call, which evaluates its operands for their effects and traps. -/
def trappingIndirect (operands : List Pending) : List Line :=
  (operands.filter fun v => v.uses.effects).map (fun v => .run (.discard v.expr)) ++
    [.run (.trap .indirectCall)]

/-- What an instruction that is neither a construct nor part of one does: the lines it writes, and
the state it leads to. -/
inductive Acts (env : Surroundings) (i : Instruction) (r : Rebuild) :
    List Line → Rebuild → Prop
  /-- Nothing happens. -/
  | nop (hop : i.op = .nop) : Acts env i r [] r
  /-- A trap. -/
  | unreachable (hop : i.op = .unreachable) :
      Acts env i r (r.settlingFor .leaving (.trap .unreachable))
        ((r.settle .leaving).emit (.trap .unreachable)).kill
  /-- A branch. -/
  | br {d : Nat} {es : List Line} {r1 : Rebuild} (hop : i.op = .br)
      (himm : i.imm.depth? = some d) (h : Branches env d r es r1) : Acts env i r es r1
  /-- A conditional branch. -/
  | brIf {d : Nat} {cond : Pending} {vs : List Pending} {es : List Line}
      {r1 : Rebuild} (hop : i.op = .brIf) (himm : i.imm.depth? = some d)
      (hvs : r.scope.values = cond :: vs)
      (h : BranchesIf env d cond (r.leavingWith cond vs) es r1)
      (htyped : cond.type = .i32) :
      Acts env i r (r.settlingWith cond vs ++ es) r1
  /-- A branch table without targets. -/
  | brTable {d : Nat} {index : Pending} {vs : List Pending} {es : List Line}
      {r1 : Rebuild} (hop : i.op = .brTable) (himm : i.imm = .table [] d)
      (hvs : r.scope.values = index :: vs)
      (h : Branches env d ((r.withValues vs).discard index) es r1) :
      Acts env i r ((r.withValues vs).discarding index ++ es) r1
  /-- A return. -/
  | returnOp {es : List Line} {r1 : Rebuild} (hop : i.op = .returnOp)
      (h : Leaves env r es r1) : Acts env i r es r1
  /-- A call with a result. -/
  | call {f : Nat} {t : FuncType} {result : ValueType} {args vs : List Pending}
      (hop : i.op = .call) (himm : i.imm.index? = some f)
      (htype : env.inModule.functionType? f = some t) (hres : t.result = some result)
      (hvs : (r.sequence t.params.length).scope.values = args.reverse ++ vs)
      (hcount : args.length = t.params.length)
      (henough : t.params.length ≤ r.scope.values.length)
      (htypes : args.map Pending.type = t.params) :
      Acts env i r (r.sequencing t.params.length)
        (((r.sequence t.params.length).withValues vs).push (.call f args result))
  /-- A call without a result. -/
  | callPlain {f : Nat} {t : FuncType} {args vs : List Pending}
      (hop : i.op = .call) (himm : i.imm.index? = some f)
      (htype : env.inModule.functionType? f = some t) (hres : t.result = none)
      (hvs : (r.sequence t.params.length).scope.values = args.reverse ++ vs)
      (hcount : args.length = t.params.length)
      (henough : t.params.length ≤ r.scope.values.length)
      (htypes : args.map Pending.type = t.params) :
      Acts env i r
        (r.sequencing t.params.length ++ ((r.sequence t.params.length).withValues vs).settlingFor
          .effect (.call f (args.map Pending.expr)))
        ((((r.sequence t.params.length).withValues vs).settle .effect).emit
          (.call f (args.map Pending.expr)))
  /-- An indirect call with a result. -/
  | callIndirect {typeIndex : Nat} {reserved : Bool} {result : ValueType} {callee : Pending}
      {args vs : List Pending} (hop : i.op = .callIndirect)
      (himm : i.imm = .callIndirect typeIndex reserved)
      (hvs : r.scope.values = callee :: (args.reverse ++ vs)) :
      Acts env i r ((r.withValues vs).settling .leaving ++ trappingIndirect (args ++ [callee]))
        ((trapIndirect (args ++ [callee]) ((r.withValues vs).settle .leaving)).push (.zero result))
  /-- An indirect call without a result. -/
  | callIndirectPlain {typeIndex : Nat} {reserved : Bool} {callee : Pending}
      {args vs : List Pending} (hop : i.op = .callIndirect)
      (himm : i.imm = .callIndirect typeIndex reserved)
      (hvs : r.scope.values = callee :: (args.reverse ++ vs)) :
      Acts env i r ((r.withValues vs).settling .leaving ++ trappingIndirect (args ++ [callee]))
        (trapIndirect (args ++ [callee]) ((r.withValues vs).settle .leaving))
  /-- An operand is dropped. -/
  | drop {v : Pending} {vs : List Pending} (hop : i.op = .drop) (hvs : r.scope.values = v :: vs) :
      Acts env i r ((r.withValues vs).discarding v) ((r.withValues vs).discard v)
  /-- A choice. -/
  | select {cond second first : Pending} {vs : List Pending} (hop : i.op = .select)
      (hvs : (r.spill (fun i _ => i = 1 || i = 2) .none).scope.values =
        cond :: second :: first :: vs)
      (htyped : cond.type = .i32) (hsame : second.type = first.type) :
      Acts env i r (r.spilling (fun i _ => i = 1 || i = 2) .none)
        (((r.spill (fun i _ => i = 1 || i = 2) .none).withValues vs).push
          (.choose cond first second))
  /-- A local is read. -/
  | getLocal {index : Nat} {t : ValueType} (hop : i.op = .getLocal)
      (himm : i.imm.index? = some index) (htype : env.locals[index]? = some t) :
      Acts env i r [] (r.push (.var index t))
  /-- A local is assigned. -/
  | setLocal {index : Nat} {t : ValueType} {v : Pending} {vs : List Pending}
      (hop : i.op = .setLocal) (himm : i.imm.index? = some index)
      (htype : env.locals[index]? = some t) (hvs : r.scope.values = v :: vs)
      (htyped : v.type = t) :
      Acts env i r
        ((r.withValues vs).settlingFor ((Hazard.assigning index).and (.evaluating v.uses))
          (.assign (.var index) v.expr))
        (((r.withValues vs).settle
          ((Hazard.assigning index).and (.evaluating v.uses))).emit (.assign (.var index) v.expr))
  /-- A local is assigned and read. -/
  | teeLocal {index : Nat} {t : ValueType} {v : Pending} {vs : List Pending}
      (hop : i.op = .teeLocal) (himm : i.imm.index? = some index)
      (htype : env.locals[index]? = some t) (hvs : r.scope.values = v :: vs)
      (htyped : v.type = t) :
      Acts env i r
        ((r.withValues vs).settlingFor ((Hazard.assigning index).and (.evaluating v.uses))
          (.assign (.var index) v.expr))
        ((((r.withValues vs).settle ((Hazard.assigning index).and (.evaluating v.uses))).emit
            (.assign (.var index) v.expr)).push (.var index t))
  /-- A global is read. -/
  | getGlobal {index : Nat} {g : GlobalType} (hop : i.op = .getGlobal)
      (himm : i.imm.index? = some index)
      (htype : env.inModule.globalType? index = some g) :
      Acts env i r [] (r.push (.global index g.content))
  /-- A global is assigned. -/
  | setGlobal {index : Nat} {g : GlobalType} {v : Pending} {vs : List Pending}
      (hop : i.op = .setGlobal) (himm : i.imm.index? = some index)
      (htype : env.inModule.globalType? index = some g)
      (hvs : r.scope.values = v :: vs) (htyped : v.type = g.content) :
      Acts env i r ((r.withValues vs).settlingFor ((Hazard.evaluating v.uses).and .writing)
          (.assign (.global index) v.expr))
        (((r.withValues vs).settle ((Hazard.evaluating v.uses).and .writing)).emit
          (.assign (.global index) v.expr))
  /-- The memory size is read. -/
  | currentMemory (hop : i.op = .currentMemory) : Acts env i r [] (r.push .memorySize)
  /-- The memory grows. -/
  | growMemory {delta : Pending} {vs : List Pending} (hop : i.op = .growMemory)
      (hvs : r.scope.values = delta :: vs) (htyped : delta.type = .i32) :
      Acts env i r [] ((r.withValues vs).push (.memoryGrow delta))
  /-- A constant. -/
  | const {t : ValueType} {v : Value} (hop : i.op = .const t) (himm : i.imm.value? = some v) :
      Acts env i r [] (r.push (.const v))
  /-- A load. -/
  | load {op : Load} {off : Nat} {addr : Pending} {vs : List Pending}
      (hop : i.op = .load op) (himm : i.imm.offset? = some off)
      (hvs : r.scope.values = addr :: vs) (htyped : addr.type = .i32) :
      Acts env i r [] ((r.withValues vs).push (.load op addr off))
  /-- A store. -/
  | store {op : Store} {off : Nat} {value addr : Pending} {vs : List Pending}
      (hop : i.op = .store op) (himm : i.imm.offset? = some off)
      (hvs : (r.sequence 2).scope.values = value :: addr :: vs)
      (henough : 2 ≤ r.scope.values.length) (htyped : value.type = op.type)
      (haddress : addr.type = .i32) :
      Acts env i r (r.sequencing 2 ++ ((r.sequence 2).withValues vs).settlingFor .effect
          (.store op addr.expr off value.expr))
        ((((r.sequence 2).withValues vs).settle .effect).emit (.store op addr.expr off value.expr))
  /-- A numeric instruction. -/
  | numeric {op : Numeric} {args vs : List Pending} (hop : i.op = .numeric op)
      (hvs : (r.sequence op.shape.arity).scope.values = args.reverse ++ vs)
      (hcount : args.length = op.shape.arity)
      (henough : op.shape.arity ≤ r.scope.values.length)
      (htypes : args.map Pending.type = List.replicate op.shape.arity op.shape.operand) :
      Acts env i r (r.sequencing op.shape.arity)
        (((r.sequence op.shape.arity).withValues vs).push (.numeric op args))

/-- Whether an opcode is neither a construct nor part of one. -/
def isPlain : Opcode → Bool
  | .block | .loop | .ifOp | .elseOp | .endOp => false
  | _ => true

variable {env : Surroundings} {i : Instruction}

/-- What a call does. -/
lemma acts_of_call {f : Nat} (hop : i.op = .call)
    (himm : i.imm.index? = some f) (h : r.call ⟨env, i.op⟩ f = .ok r1) :
    ∃ es, Acts env i r es r1 := by
  simp only [call, bind_eq_ok, need_eq_ok, Prod.exists] at h
  obtain ⟨t, htype, _, hreq, args, _, hargs, h⟩ := h
  rw [require_eq_ok] at hreq
  obtain ⟨vs, hv, htypes, rfl⟩ := popArgs_eq_ok hargs
  have hlen : args.length = t.params.length := by simp [← htypes]
  cases hres : t.result with
  | none =>
    simp only [hres] at h
    cases h
    exact ⟨_, .callPlain hop himm htype hres hv hlen hreq htypes⟩
  | some res =>
    simp only [hres] at h
    cases h
    exact ⟨_, .call hop himm htype hres hv hlen hreq htypes⟩

/-- What an indirect call does. -/
lemma acts_of_callIndirect {typeIndex : Nat}
    {reserved : Bool} (hop : i.op = .callIndirect) (himm : i.imm = .callIndirect typeIndex reserved)
    (h : r.callIndirect ⟨env, i.op⟩ typeIndex = .ok r1) : ∃ es, Acts env i r es r1 := by
  simp only [callIndirect, bind_eq_ok, need_eq_ok, Prod.exists, popTyped_eq_ok] at h
  obtain ⟨t, -, callee, _, ⟨rest, hv, -, rfl⟩, args, _, hargs, h⟩ := h
  obtain ⟨vs, hrest, -, rfl⟩ := popArgs_eq_ok hargs
  rw [withValues_values] at hrest
  rw [hrest] at hv
  cases hres : t.result with
  | none =>
    simp only [hres] at h
    cases h
    exact ⟨_, .callIndirectPlain hop himm hv⟩
  | some res =>
    simp only [hres] at h
    cases h
    exact ⟨_, .callIndirect hop himm hv⟩

/-- What a choice does. -/
lemma acts_of_select (hop : i.op = .select)
    (h : r.select ⟨env, i.op⟩ = .ok r1) : ∃ es, Acts env i r es r1 := by
  simp only [select, bind_eq_ok, Prod.exists, popTyped_eq_ok, pop_eq_ok, pure_eq_ok] at h
  obtain ⟨_, -, cond, _, ⟨rest, hv, ht, rfl⟩, second, _, ⟨rest', hv', rfl⟩, first, _,
    ⟨vs, hv'', hsame, rfl⟩, rfl⟩ := h
  rw [withValues_values] at hv' hv''
  rw [hv', hv''] at hv
  exact ⟨_, .select hop hv ht hsame.symm⟩

/-- What the assignment of a local does. -/
lemma acts_of_assignLocal {index : Nat} (keep : Bool)
    (hop : i.op = if keep then .teeLocal else .setLocal) (himm : i.imm.index? = some index)
    (h : r.assignLocal ⟨env, i.op⟩ index keep = .ok r1) : ∃ es, Acts env i r es r1 := by
  simp only [assignLocal, bind_eq_ok, need_eq_ok, Prod.exists, popTyped_eq_ok, pure_eq_ok] at h
  obtain ⟨t, htype, v, _, ⟨vs, hv, ht, rfl⟩, rfl⟩ := h
  cases keep with
  | false => exact ⟨_, .setLocal hop himm htype hv ht⟩
  | true => exact ⟨_, .teeLocal hop himm htype hv ht⟩

/-- What the assignment of a global does. -/
lemma acts_of_assignGlobal {index : Nat}
    (hop : i.op = .setGlobal) (himm : i.imm.index? = some index)
    (h : r.assignGlobal ⟨env, i.op⟩ index = .ok r1) : ∃ es, Acts env i r es r1 := by
  simp only [assignGlobal, bind_eq_ok, need_eq_ok] at h
  obtain ⟨g, htype, h⟩ := h
  split at h
  · simp [refuse] at h
  · simp only [bind_eq_ok, Prod.exists, popTyped_eq_ok, pure_eq_ok] at h
    obtain ⟨v, _, ⟨vs, hv, ht, rfl⟩, rfl⟩ := h
    exact ⟨_, .setGlobal hop himm htype hv ht⟩

/-- What a store does. -/
lemma acts_of_store {op : Store} {off : Nat}
    (hop : i.op = .store op) (himm : i.imm.offset? = some off)
    (h : r.store ⟨env, i.op⟩ op off = .ok r1) : ∃ es, Acts env i r es r1 := by
  simp only [store, bind_eq_ok, Prod.exists, popTyped_eq_ok, pure_eq_ok] at h
  obtain ⟨_, hreq, value, _, ⟨rest, hv, ht, rfl⟩, addr, _, ⟨vs, hv', ht', rfl⟩, rfl⟩ := h
  rw [require_eq_ok] at hreq
  rw [withValues_values] at hv'
  rw [hv'] at hv
  exact ⟨_, .store hop himm hv hreq ht ht'⟩

/-- What a numeric instruction does. -/
lemma acts_of_numeric {op : Numeric}
    (hop : i.op = .numeric op) (h : r.numeric ⟨env, i.op⟩ op = .ok r1) :
    ∃ es, Acts env i r es r1 := by
  simp only [numeric, bind_eq_ok, Prod.exists] at h
  obtain ⟨_, hreq, args, _, hargs, h⟩ := h
  rw [require_eq_ok] at hreq
  obtain ⟨vs, hv, htypes, rfl⟩ := popArgs_eq_ok hargs
  have hlen : args.length = op.shape.arity := by simpa using congrArg List.length htypes
  split at h
  · cases h
    exact ⟨_, .numeric hop hv hlen hreq htypes⟩
  · cases h

/-- **What an instruction does that can be reached and is not part of a construct.** -/
theorem acts_of_stepLive (hi : isPlain i.op)
    (h : r.stepLive ⟨env, i.op⟩ i.imm = .ok r1) : ∃ es, Acts env i r es r1 := by
  unfold stepLive at h
  split at h
  case h_1 hop =>
    cases h
    exact ⟨_, .nop hop⟩
  case h_2 hop =>
    cases h
    exact ⟨_, .unreachable hop⟩
  case h_3 hop => simp [isPlain, show i.op = .block from hop] at hi
  case h_4 hop => simp [isPlain, show i.op = .loop from hop] at hi
  case h_5 hop => simp [isPlain, show i.op = .ifOp from hop] at hi
  case h_6 hop => simp [isPlain, show i.op = .elseOp from hop] at hi
  case h_7 hop => simp [isPlain, show i.op = .endOp from hop] at hi
  case h_8 hop =>
    obtain ⟨d, himm, h⟩ := bind_eq_ok.mp h
    obtain ⟨es, h⟩ := branches_of_branch h
    exact ⟨es, .br hop (need_eq_ok.mp himm) h⟩
  case h_9 hop =>
    obtain ⟨d, himm, h⟩ := bind_eq_ok.mp h
    obtain ⟨cond, vs, es, hv, ht, h⟩ := branchesIf_of_branchIf h
    exact ⟨_, .brIf hop (need_eq_ok.mp himm) hv h ht⟩
  case h_10 hop =>
    unfold branchTable at h
    split at h
    · rename_i d himm
      simp only [bind_eq_ok, Prod.exists, popTyped_eq_ok] at h
      obtain ⟨index, _, ⟨vs, hv, -, rfl⟩, h⟩ := h
      obtain ⟨es, h⟩ := branches_of_branch h
      exact ⟨_, .brTable hop himm hv h⟩
    · simp [unsupported] at h
    · simp [refuse] at h
  case h_11 hop =>
    obtain ⟨es, h⟩ := leaves_of_leave h
    exact ⟨es, .returnOp hop h⟩
  case h_12 hop =>
    obtain ⟨f, himm, h⟩ := bind_eq_ok.mp h
    exact acts_of_call hop (need_eq_ok.mp himm) h
  case h_13 hop =>
    split at h
    · exact acts_of_callIndirect hop ‹_› h
    · simp [refuse] at h
  case h_14 hop =>
    simp only [bind_eq_ok, Prod.exists, pop_eq_ok, pure_eq_ok] at h
    obtain ⟨v, _, ⟨vs, hv, rfl⟩, rfl⟩ := h
    exact ⟨_, .drop hop hv⟩
  case h_15 hop => exact acts_of_select hop h
  case h_16 hop =>
    simp only [bind_eq_ok, need_eq_ok, pure_eq_ok] at h
    obtain ⟨index, himm, t, htype, rfl⟩ := h
    exact ⟨_, .getLocal hop himm htype⟩
  case h_17 hop =>
    obtain ⟨index, himm, h⟩ := bind_eq_ok.mp h
    exact acts_of_assignLocal false hop (need_eq_ok.mp himm) h
  case h_18 hop =>
    obtain ⟨index, himm, h⟩ := bind_eq_ok.mp h
    exact acts_of_assignLocal true hop (need_eq_ok.mp himm) h
  case h_19 hop =>
    simp only [bind_eq_ok, need_eq_ok, pure_eq_ok] at h
    obtain ⟨index, himm, g, htype, rfl⟩ := h
    exact ⟨_, .getGlobal hop himm htype⟩
  case h_20 hop =>
    obtain ⟨index, himm, h⟩ := bind_eq_ok.mp h
    exact acts_of_assignGlobal hop (need_eq_ok.mp himm) h
  case h_21 hop =>
    cases h
    exact ⟨_, .currentMemory hop⟩
  case h_22 hop =>
    simp only [bind_eq_ok, Prod.exists, popTyped_eq_ok, pure_eq_ok] at h
    obtain ⟨delta, _, ⟨vs, hv, ht, rfl⟩, rfl⟩ := h
    exact ⟨_, .growMemory hop hv ht⟩
  case h_23 t hop =>
    simp only [bind_eq_ok, need_eq_ok, pure_eq_ok] at h
    obtain ⟨v, himm, rfl⟩ := h
    exact ⟨_, .const hop himm⟩
  case h_24 op hop =>
    simp only [load, bind_eq_ok, need_eq_ok, Prod.exists, popTyped_eq_ok, pure_eq_ok] at h
    obtain ⟨off, himm, addr, _, ⟨vs, hv, ht, rfl⟩, rfl⟩ := h
    exact ⟨_, .load hop himm hv ht⟩
  case h_25 op hop =>
    obtain ⟨off, himm, h⟩ := bind_eq_ok.mp h
    exact acts_of_store hop (need_eq_ok.mp himm) h
  case h_26 op hop => exact acts_of_numeric hop h

/-! ## Constructs -/

/-- Opens a loop, whose label is new. -/
def openLoop (res : Option ValueType) (r : Rebuild) : Rebuild :=
  { r with labels := r.labels + 1 }.openConstruct .loop res (some (r.labels + 1))

/-- What is written where all operands are evaluated before lines. -/
def spillingAllFor (ls : List Line) (r : Rebuild) : List Line :=
  r.spilling (fun _ _ => true) .none ++ ls

/-- What the start of a construct does. -/
inductive Enters (r : Rebuild) (result : Option ValueType) :
    Opcode → List Line → Rebuild → Prop
  /-- A block. -/
  | block : Enters r result .block (r.spillingAllFor [.openBlock])
      (r.spillAll.openConstruct .block result none)
  /-- A loop. -/
  | loop : Enters r result .loop
      (r.spillingAllFor [.label (r.spillAll.labels + 1), .openBlock]) (openLoop result r.spillAll)
  /-- A conditional. -/
  | ifOp {cond : Pending} {vs : List Pending}
      (hvs : r.scope.values = cond :: vs) (htyped : cond.type = .i32) :
      Enters r result .ifOp ((r.withValues vs).spillingAllFor [.openIf cond.expr])
        ((r.withValues vs).spillAll.openConstruct (.ifArm cond) result none)

/-- What the start of a construct does. -/
lemma enters_of_enter {op : Opcode} {res : Option ValueType} (hop : op.opensConstruct)
    (h : r.enter site op res = .ok r1) : ∃ es, Enters r res op es r1 := by
  cases op <;> simp only [Opcode.opensConstruct, Bool.false_eq_true] at hop
  · cases h
    exact ⟨_, .block⟩
  · cases h
    exact ⟨_, .loop⟩
  · simp only [enter, bind_eq_ok, Prod.exists, popTyped_eq_ok, pure_eq_ok] at h
    obtain ⟨cond, _, ⟨vs, hv, ht, rfl⟩, rfl⟩ := h
    exact ⟨_, .ifOp hv ht⟩

/-- What falls through at the end of an arm. -/
inductive FallsThrough (r : Rebuild) (result : Option ValueType) :
    Option Pending → Rebuild → Prop
  /-- A value. -/
  | value {t : ValueType} {v : Pending} (hlive : r.reach = .live) (hres : result = some t)
      (hvs : r.scope.values = [v]) (htyped : v.type = t) :
      FallsThrough r result (some v) (r.withValues [])
  /-- No value. -/
  | plain (hlive : r.reach = .live) (hres : result = none) (hvs : r.scope.values = []) :
      FallsThrough r result none r
  /-- Nothing, as the end cannot be reached. -/
  | dead {nested : Nat} (hdead : r.reach = .dead nested) : FallsThrough r result none r

/-- What falls through at the end of an arm. -/
lemma fallsThrough_of_fallThrough {res : Option ValueType}
    (h : r.fallThrough site res = .ok (value, r1)) : FallsThrough r res value r1 := by
  unfold fallThrough at h
  cases hr : r.reach with
  | dead nested =>
    simp only [hr, Reach.isLive, Bool.false_eq_true, if_false] at h
    cases h
    exact .dead hr
  | live =>
    simp only [hr, Reach.isLive, if_true] at h
    cases res with
    | none =>
      simp only [takeResult, isSome_none, Bool.false_eq_true, if_false] at h
      split at h
      · simp [refuse] at h
      · rename_i hn
        cases h
        exact .plain hr rfl (by simpa using hn)
    | some t =>
      simp only [takeResult, isSome_some, if_true] at h
      split at h
      · simp [refuse] at h
      · rename_i hn
        simp only [bind_eq_ok, Prod.exists, popTyped_eq_ok, pure_eq_ok, Prod.mk.injEq] at h
        obtain ⟨v, _, ⟨vs, hv, ht, rfl⟩, rfl, rfl⟩ := h
        have hb : vs = [] := by simpa [hv] using hn
        subst hb
        exact .value hr rfl hv ht

/-- Ends the first arm of a conditional and starts the second. -/
def toElse (c : Construct) (cs : List Construct) (cond : Pending)
    (thenValue : Option Pending) (temp : Option Nat) (live : Bool) (r : Rebuild) : Rebuild :=
  { r with
    scope := {}
    constructs :=
      { c with kind := .elseArm cond r.scope.code thenValue live, temp } :: cs
    reach := .live }

/-- What `else` does in the first arm of a conditional. -/
inductive SwitchesIn (c : Construct) (cs : List Construct) (cond : Pending) (r : Rebuild) :
    List Line → Rebuild → Prop
  /-- The first arm only computes a value, which is kept. -/
  | keep {v : Pending} {t : ValueType} (hlive : r.reach = .live) (hres : c.result = some t)
      (hvs : r.scope.values = [v]) (hcode : r.scope.code = #[]) (htemp : c.temp = none)
      (htyped : v.type = t) :
      SwitchesIn c cs cond r [.openElse] (toElse c cs cond (some v) none true r)
  /-- The value of the first arm goes into the result temporary. -/
  | store {v : Pending} {t : ValueType} (hlive : r.reach = .live) (hres : c.result = some t)
      (hvs : r.scope.values = [v]) (htyped : v.type = t) :
      SwitchesIn c cs cond r (carryingTo 0 c t v (r.withValues []) ++ [.openElse])
        (toElse c cs cond none (some ((r.withValues []).resultTemp 0 c t).1) true
          (carryTo 0 c t v (r.withValues [])))
  /-- The first arm has no value. -/
  | plain (hvs : r.reach = .live → c.result = none ∧ r.scope.values = []) :
      SwitchesIn c cs cond r [.openElse] (toElse c cs cond none c.temp r.reach.isLive r)

/-- What `else` does. -/
def Switches (r : Rebuild) (es : List Line) (r1 : Rebuild) : Prop :=
  ∃ c cs cond, r.constructs = c :: cs ∧ c.kind = .ifArm cond ∧ SwitchesIn c cs cond r es r1

/-- What `else` does. -/
lemma switches_of_switchArm (h : r.switchArm site = .ok r1) : ∃ es, Switches r es r1 := by
  unfold switchArm at h
  split at h
  · simp [refuse] at h
  · rename_i c cs hcs
    split at h
    · rename_i cond hkind
      simp only [bind_eq_ok, Prod.exists, pure_eq_ok] at h
      obtain ⟨value, r2, hfall, rfl⟩ := h
      suffices hin : ∃ es, SwitchesIn c cs cond r es _ from
        hin.imp fun _ hin => ⟨c, cs, cond, hcs, hkind, hin⟩
      cases fallsThrough_of_fallThrough hfall with
      | plain _ hres hvs => exact ⟨_, .plain fun _ => ⟨hres, hvs⟩⟩
      | dead hd => exact ⟨_, .plain fun hl => by simp [hd] at hl⟩
      | @value t v hl hres hvs htyped =>
        obtain ⟨kind, result, label, temp, enclosing⟩ := c
        subst hres
        simp only [hl, Reach.isLive, Bool.true_and]
        split
        · rename_i hpure
          simp only [Bool.and_eq_true, Array.isEmpty_iff, isNone_iff_eq_none] at hpure
          obtain ⟨hcode, rfl⟩ := hpure
          exact ⟨_, .keep hl rfl hvs hcode rfl htyped⟩
        · exact ⟨_, .store hl rfl hvs htyped⟩
    · simp [refuse] at h

/-- Ends a construct with the statement made of it. -/
def leaveConstruct (c : Construct) (cs : List Construct) (reachable : Bool)
    (r : Rebuild) : Rebuild :=
  { r with
    scope := c.enclosing
    constructs := cs
    reach := if reachable then .live else .dead 0 }.emit (statementOf c r.scope.code)

/-- A construct whose result is in a temporary. -/
def carrying (temp : Nat) (c : Construct) : Construct :=
  { c with kind := storeThenValue temp c.kind, temp := some temp }

/-- The lines that end a construct. -/
def closingLines (c : Construct) : List Line :=
  .close :: match c.kind with
    | .loop => []
    | _ => C.labelLine c.label

/-- The line that puts the value of the first arm into a temporary, if it was kept. -/
def storingThen (temp : Nat) : ConstructKind → List Line
  | .elseArm _ _ (some v) _ => [.run (.assign (.temp temp) v.expr)]
  | _ => []

/-- What the `end` of a construct does. -/
inductive ClosesIn (c : Construct) (cs : List Construct) (r : Rebuild) :
    List Line → Rebuild → Prop
  /-- Both arms only compute a value. -/
  | folded {cond thenValue v : Pending} {thenCode : Array Stmt} {thenLive : Bool} {t : ValueType}
      (hkind : c.kind = .elseArm cond thenCode (some thenValue) thenLive)
      (hlive : r.reach = .live) (hres : c.result = some t) (hvs : r.scope.values = [v])
      (hcode : r.scope.code = #[]) (hlabel : c.label = none) (htyped : v.type = t) :
      ClosesIn c cs r [] ({ r with scope := c.enclosing, constructs := cs, reach := .live }.push
          (.choose cond thenValue v))
  /-- The construct has no result. -/
  | plain (hres : c.result = none) (hvs : r.reach = .live → r.scope.values = []) :
      ClosesIn c cs r (closingLines c) (leaveConstruct c cs (reachesEnd c r.reach.isLive) r)
  /-- The result is the value of the only arm. -/
  | direct {v : Pending} {t : ValueType} (hkind : c.kind = .block ∨ c.kind = .loop)
      (hlive : r.reach = .live) (hres : c.result = some t) (hvs : r.scope.values = [v])
      (htemp : c.temp = none) (htyped : v.type = t) :
      ClosesIn c cs r (closingLines c) ((leaveConstruct c cs true r).push v)
  /-- The end cannot be reached, and there is no result. -/
  | unreached {nested : Nat} (hkind : c.kind = .block ∨ c.kind = .loop)
      (hdead : r.reach = .dead nested) (hend : reachesEnd c false = false) :
      ClosesIn c cs r (closingLines c) (leaveConstruct c cs false r)
  /-- The value of the last arm goes into the result temporary. -/
  | store {v : Pending} {t : ValueType} (hkind : ∀ cond, c.kind ≠ .ifArm cond)
      (hlive : r.reach = .live) (hres : c.result = some t) (hvs : r.scope.values = [v])
      (hcarried : ConstructKind.isElse c.kind ∨ c.temp.isSome) (htyped : v.type = t) :
      ClosesIn c cs r (storingThen ((r.withValues []).resultTemp 0 c t).1 c.kind ++
          (carryingTo 0 c t v (r.withValues []) ++ closingLines c))
        ((leaveConstruct (carrying ((r.withValues []).resultTemp 0 c t).1 c) cs true
        (carryTo 0 c t v (r.withValues []))).push (.temp ((r.withValues []).resultTemp 0 c t).1 t))
  /-- The end of the last arm cannot be reached, but the end of the construct can. -/
  | carried {nested : Nat} {t : ValueType} (hkind : ∀ cond, c.kind ≠ .ifArm cond)
      (hdead : r.reach = .dead nested) (hres : c.result = some t)
      (hcarried : ConstructKind.isElse c.kind ∨ c.temp.isSome)
      (hend : reachesEnd (carrying (r.resultTemp 0 c t).1 c) false = true) :
      ClosesIn c cs r (storingThen (r.resultTemp 0 c t).1 c.kind ++ closingLines c)
        ((leaveConstruct (carrying (r.resultTemp 0 c t).1 c) cs true
          (r.resultTemp 0 c t).2).push (.temp (r.resultTemp 0 c t).1 t))
  /-- The end of the construct cannot be reached. -/
  | carriedUnreached {nested : Nat} {t : ValueType} (hkind : ∀ cond, c.kind ≠ .ifArm cond)
      (hdead : r.reach = .dead nested) (hres : c.result = some t)
      (hcarried : ConstructKind.isElse c.kind ∨ c.temp.isSome)
      (hend : reachesEnd (carrying (r.resultTemp 0 c t).1 c) false = false) :
      ClosesIn c cs r (storingThen (r.resultTemp 0 c t).1 c.kind ++ closingLines c)
        (leaveConstruct (carrying (r.resultTemp 0 c t).1 c) cs false (r.resultTemp 0 c t).2)

/-- What the `end` of the innermost construct does. -/
def Closes (r : Rebuild) (es : List Line) (r1 : Rebuild) : Prop :=
  ∃ c cs, r.constructs = c :: cs ∧ ClosesIn c cs r es r1

/-- There is one innermost construct. -/
lemma Closes.innermost {cs : List Construct} {es : List Line} (h : Closes r es r1)
    (hcs : r.constructs = c :: cs) : ClosesIn c cs r es r1 := by
  obtain ⟨c', outer', hcs', h⟩ := h
  obtain ⟨rfl, rfl⟩ := List.cons.inj (hcs.symm.trans hcs')
  exact h

lemma reach_of_switches {es : List Line} (h : Switches r es r1) : r1.reach = .live := by
  obtain ⟨c, cs, cond, -, -, h⟩ := h
  cases h <;> rfl

lemma Switches.innermost {cs : List Construct} {es : List Line} (h : Switches r es r1)
    (hcs : r.constructs = c :: cs) :
    ∃ cond, c.kind = .ifArm cond ∧ SwitchesIn c cs cond r es r1 := by
  obtain ⟨c', outer', cond, hcs', hkind, h⟩ := h
  obtain ⟨rfl, rfl⟩ := List.cons.inj (hcs.symm.trans hcs')
  exact ⟨cond, hkind, h⟩

lemma reachesEnd_true (c : Construct) : reachesEnd c true = true := by
  unfold reachesEnd
  split <;> simp

/-- Where arms are folded, both only compute a value. -/
lemma foldArms?_eq_some {code : Array Stmt} {folded : Pending}
    (h : foldArms? c code value = some folded) :
    ∃ cond thenCode thenValue thenLive v,
      c.kind = .elseArm cond thenCode (some thenValue) thenLive ∧ value = some v ∧
        c.label = none ∧ code = #[] ∧ folded = .choose cond thenValue v := by
  unfold foldArms? at h
  split at h
  · rename_i cond thenCode thenValue thenLive v hkind
    split at h
    · rename_i hcond
      simp only [Bool.and_eq_true, Array.isEmpty_iff, isNone_iff_eq_none] at hcond
      exact ⟨cond, thenCode, thenValue, thenLive, v, hkind, rfl, hcond.1.2, hcond.2,
        by simpa using h.symm⟩
    · cases h
  · cases h

lemma isIf_storeThenValue (temp : Nat) (kind : ConstructKind) :
    ConstructKind.isIf (storeThenValue temp kind) = ConstructKind.isIf kind := by
  unfold storeThenValue
  split <;> rfl

lemma ne_ifArm_of_isIf {kind : ConstructKind} (h : ConstructKind.isIf kind = false)
    (cond : Pending) : kind ≠ .ifArm cond := by
  rintro rfl
  cases h

lemma block_or_loop {kind : ConstructKind} (hif : ConstructKind.isIf kind = false)
    (helse : ConstructKind.isElse kind = false) : kind = .block ∨ kind = .loop := by
  cases kind with
  | block => exact .inl rfl
  | loop => exact .inr rfl
  | ifArm => cases hif
  | elseArm => cases helse

/-- The value of the last arm goes into the result temporary. -/
lemma carryResult_some (hres : c.result = some t)
    (hcarried : (ConstructKind.isElse c.kind || c.temp.isSome) = true) (v : Pending) :
    r.carryResult c (some v) = (some (.temp (r.resultTemp 0 c t).1 t),
      carrying (r.resultTemp 0 c t).1 c, carryTo 0 c t v r) := by
  simp [carryResult, hres, hcarried, carrying, carryTo]

/-- The result temporary has the result, although the last arm has no value. -/
lemma carryResult_none (hres : c.result = some t)
    (hcarried : (ConstructKind.isElse c.kind || c.temp.isSome) = true) :
    r.carryResult c none = (some (.temp (r.resultTemp 0 c t).1 t),
      carrying (r.resultTemp 0 c t).1 c, (r.resultTemp 0 c t).2) := by
  simp [carryResult, hres, hcarried, carrying]

/-- What the `end` of a construct with a result does when its arms are not folded. -/
lemma closes_of_carryResult (site : Site) {cs : List Construct} {r2 : Rebuild}
    (hres : c.result = some t) (hfalls : FallsThrough r c.result value r2)
    (hif : ConstructKind.isIf (r2.carryResult c value).2.1.kind = false)
    (h : (if reachesEnd (r2.carryResult c value).2.1 r.reach.isLive then do
        let v ← site.need (r2.carryResult c value).1 (.noResult t)
        pure ((leaveConstruct (r2.carryResult c value).2.1 cs true
          (r2.carryResult c value).2.2).push v)
      else pure (leaveConstruct (r2.carryResult c value).2.1 cs false
        (r2.carryResult c value).2.2)) = .ok r1) : ∃ es, ClosesIn c cs r es r1 := by
  cases hcarried : ConstructKind.isElse c.kind || c.temp.isSome with
  | false =>
    have hcarry : r2.carryResult c value = (value, c, r2) := by
      simp [carryResult, hres, hcarried]
    rw [hcarry] at h hif
    rw [Bool.or_eq_false_iff] at hcarried
    have hkind := block_or_loop hif hcarried.1
    have htemp : c.temp = none := by simpa using hcarried.2
    cases hfalls with
    | value hl hsome hvs htyped =>
      obtain rfl := Option.some.inj (hsome.symm.trans hres)
      simp only [hl, Reach.isLive, reachesEnd_true, if_true, need, bind_eq_ok, pure_eq_ok,
        Except.ok.injEq, exists_eq_left'] at h
      subst h
      exact ⟨_, .direct hkind hl hres hvs htemp htyped⟩
    | plain _ hnone _ => simp [hres] at hnone
    | dead hd =>
      simp only [hd, Reach.isLive, need, refuse] at h
      split at h
      · simp [bind, Except.bind] at h
      · rename_i hend
        cases h
        exact ⟨_, .unreached hkind hd (by simpa using hend)⟩
  | true =>
    have hor : ConstructKind.isElse c.kind ∨ c.temp.isSome := by simpa using hcarried
    cases hfalls with
    | plain _ hnone _ => simp [hres] at hnone
    | @value t v hl hsome hvs htyped =>
      obtain rfl := Option.some.inj (hsome.symm.trans hres)
      rw [carryResult_some hres hcarried] at h hif
      simp only [hl, Reach.isLive, reachesEnd_true, if_true, need, bind_eq_ok, pure_eq_ok,
        Except.ok.injEq, exists_eq_left'] at h
      simp only [carrying, isIf_storeThenValue] at hif
      subst h
      exact ⟨_, .store (ne_ifArm_of_isIf hif) hl hres hvs hor htyped⟩
    | dead hd =>
      rw [carryResult_none hres hcarried] at h hif
      simp only [carrying, isIf_storeThenValue] at hif
      simp only [hd, Reach.isLive, need] at h
      split at h
      · rename_i hend
        simp only [bind_eq_ok, pure_eq_ok, Except.ok.injEq, exists_eq_left'] at h
        subst h
        exact ⟨_, .carried (ne_ifArm_of_isIf hif) hd hres hor hend⟩
      · rename_i hend
        cases h
        exact ⟨_, .carriedUnreached (ne_ifArm_of_isIf hif) hd hres hor (by simpa using hend)⟩

lemma carryResult_result (r : Rebuild) (c : Construct) (value : Option Pending) :
    (r.carryResult c value).2.1.result = c.result := by
  unfold carryResult
  split
  · rfl
  · split <;> rfl

/-- What the `end` of a construct does. -/
lemma closes_of_close (h : r.close site = .ok r1) : ∃ es, Closes r es r1 := by
  unfold close at h
  split at h
  · simp [refuse] at h
  · rename_i c cs hcs
    simp only [bind_eq_ok, Prod.exists] at h
    obtain ⟨value, r2, hfall, h⟩ := h
    have hfalls := fallsThrough_of_fallThrough hfall
    suffices hin : ∃ es, ClosesIn c cs r es r1 from hin.imp fun _ hin => ⟨c, cs, hcs, hin⟩
    split at h
    · rename_i folded hfold
      obtain ⟨cond, thenCode, thenValue, thenLive, v, hkind, rfl, hlabel, hcode, rfl⟩ :=
        foldArms?_eq_some hfold
      cases hfalls with
      | value hl hres hvs htyped =>
        cases h
        exact ⟨_, .folded hkind hl hres hvs hcode hlabel htyped⟩
    · simp only [carryResult_result] at h
      split at h
      · simp [refuse] at h
      · rename_i hif
        cases hres : c.result with
        | none =>
          simp only [hres, carryResult, pure_eq_ok] at h
          cases hfalls with
          | value _ hsome _ => simp [hres] at hsome
          | plain _ _ hvs =>
            subst h
            exact ⟨_, .plain hres fun _ => hvs⟩
          | dead hd =>
            subst h
            exact ⟨_, .plain hres fun hl => by simp [hd] at hl⟩
        | some t =>
          simp only [hres, isSome_some, Bool.and_true, Bool.not_eq_true] at hif
          refine closes_of_carryResult site hres hfalls hif ?_
          simp only [hres] at h
          split at h
          · rename_i hend
            rw [if_pos hend]
            exact h
          · rename_i hend
            rw [if_neg hend]
            exact h

end Rebuild

end WasmToC

import Mathlib.Algebra.Order.Group.Multiset
import Mathlib.Tactic.Abel
import WasmToC.Proofs.Bodies
import WasmToC.Proofs.Printing

/-!
# Calls are neither lost nor made twice

While a body is rebuilt, a call or growing of the memory is a part of one expression: an operand
that waits, or one that a line shows. An instruction moves operands into lines. It may drop one only
if it makes no call, and the same holds of copying it. So the calls of the state change by those
that instructions add, one for each `call` and `grow_memory` that can be reached, and those of the
finished body are all of them.

## Main definitions

* `C.Expr.calls`, `C.Line.calls` — the calls that the text of expressions and lines shows, from left
  to right.
* `Rebuild.calls` — the calls of a state, in its operands and lines.
* `Rebuild.Accounted` — the invariant: what can be dropped makes no calls.

## Main results

* `Rebuild.Accounted.calls_steps` — one instruction adds the call that it issues.
* `Rebuild.Accounted.calls_run` — so do several instructions.
* `Rebuilt.calls_body` — the calls of a finished body are those that its instructions issue.
-/

namespace WasmToC

open List Pending

variable {d e : C.Expr} {line : C.Line} {t : FuncType}

namespace C

/-! ## Expressions -/

/-- The positions of the operands that a template shows, from left to right. -/
def Template.holes : Template → List Nat
  | [] => []
  | .char _ :: rest => holes rest
  | .hole i :: rest => i :: holes rest

/-- The template of a numeric instruction shows each operand once, in order. -/
lemma holes_template (op : Numeric) : (template op).holes = List.range op.shape.arity := by
  have hchars {cs : List Char} {n : Nat} (h : (Template.parse cs).holes = List.range n) :
      (Template.parse (String.ofList cs).toList).holes = List.range n := by
    rwa [String.toList_ofList]
  cases op <;> exact hchars rfl

namespace Expr

mutual

/-- The calls, and the growings of the memory, that the text of an expression shows, from left to
right. -/
def calls : Expr → List Expr
  | .memoryGrow delta => .memoryGrow delta :: delta.calls
  | .load _ addr _ => addr.calls
  | .call f args => .call f args :: (callsOf args).flatten
  | .numeric op args => (template op).holes.flatMap fun i => ((callsOf args)[i]?).getD []
  | .choose cond yes no => cond.calls ++ (yes.calls ++ no.calls)
  | .const _ | .zero _ | .var _ | .temp _ | .global _ | .memorySize => []

/-- The calls of several expressions, each for itself. -/
def callsOf : List Expr → List (List Expr)
  | [] => []
  | e :: es => e.calls :: callsOf es

end

lemma callsOf_eq_map (es : List Expr) : callsOf es = es.map calls := by
  induction es with
  | nil => rfl
  | cons e es ih => rw [callsOf, ih, map_cons]

lemma calls_call (f : Nat) (args : List Expr) :
    (Expr.call f args).calls = .call f args :: args.flatMap calls := by
  rw [calls, callsOf_eq_map, flatMap_def]

lemma flatMap_range_getD {α : Type} (ls : List (List α)) :
    ((List.range ls.length).flatMap fun i => (ls[i]?).getD []) = ls.flatten := by
  rw [flatMap_def]
  congr 1
  refine ext_getElem (by simp) fun i hi _ => ?_
  have hlt : i < ls.length := by simpa using hi
  simp [getElem?_eq_getElem hlt]

/-- A numeric instruction with all its operands shows the calls of each of them. -/
lemma calls_numeric {op : Numeric} {args : List Expr} (h : args.length = op.shape.arity) :
    (Expr.numeric op args).calls = args.flatMap calls := by
  have hlen : (callsOf args).length = op.shape.arity := by
    rw [callsOf_eq_map, length_map, h]
  rw [calls, holes_template, ← hlen, flatMap_range_getD, callsOf_eq_map, flatMap_def]

/-- An expression without effects shows no calls. -/
lemma calls_of_not_effects (h : e.effects = false) : e.calls = [] := by
  induction e using Expr.induct with
  | const | zero | var | temp | global | memorySize => rfl
  | memoryGrow delta => simp [effects_eq, isEffect] at h
  | call f args => simp [effects_eq, isEffect] at h
  | load op addr off ih =>
    exact ih (effects_operand h (by simp [operands]))
  | numeric op args ih =>
    rw [calls, callsOf_eq_map, flatMap_eq_nil_iff]
    intro i _
    rw [getElem?_map]
    cases hi : args[i]? with
    | none => rfl
    | some a => exact ih a (mem_of_getElem? hi) (effects_operand h (mem_of_getElem? hi))
  | choose cond yes no ihc ihy ihn =>
    rw [calls, ihc (effects_operand h (by simp [operands])),
      ihy (effects_operand h (by simp [operands])), ihn (effects_operand h (by simp [operands]))]
    rfl

end Expr

/-! ## Lines -/

/-- The expressions that a line shows, from left to right. The call of a function without a result
is one, too. -/
def Line.shown : Line → List Expr
  | .run (.call f args) => [.call f args]
  | line => line.exprs

/-- The calls that a line shows. -/
def Line.calls (line : Line) : List Expr := line.shown.flatMap Expr.calls

lemma Line.calls_one (h : line.shown = [e]) : line.calls = e.calls := by
  rw [calls, h, flatMap_singleton]

lemma Line.calls_two (h : line.shown = [d, e]) : line.calls = d.calls ++ e.calls := by
  rw [calls, h, flatMap_cons, flatMap_singleton]

/-- The calls of expressions, in any order. -/
def callsIn (es : List Expr) : Multiset Expr := (es.flatMap Expr.calls : List Expr)

@[simp] lemma callsIn_nil : callsIn [] = 0 := rfl

@[simp] lemma callsIn_cons (e : Expr) (es : List Expr) :
    callsIn (e :: es) = e.calls + callsIn es := by
  simp [callsIn]

@[simp] lemma callsIn_append (es fs : List Expr) :
    callsIn (es ++ fs) = callsIn es + callsIn fs := by
  simp [callsIn]

/-- The calls of lines, in any order. -/
def lineCalls (k : List Line) : Multiset Expr := (k.flatMap Line.calls : List Expr)

@[simp] lemma lineCalls_append (k k1 : List Line) :
    lineCalls (k ++ k1) = lineCalls k + lineCalls k1 := by
  simp [lineCalls]

lemma lineCalls_none (h : line.shown = []) : lineCalls [line] = 0 := by
  simp [lineCalls, Line.calls, h]

lemma lineCalls_one (h : line.shown = [e]) : lineCalls [line] = e.calls := by
  rw [lineCalls, flatMap_singleton, Line.calls_one h]

lemma lineCalls_two (h : line.shown = [d, e]) : lineCalls [line] = d.calls + e.calls := by
  rw [lineCalls, flatMap_singleton, Line.calls_two h, ← Multiset.coe_add]

end C

open C (Expr Line lineCalls lineCalls_append lineCalls_none lineCalls_one lineCalls_two)

/-! ## Operands -/

namespace Pending

/-- The calls of operands. -/
def calls (values : List Pending) : Multiset Expr := C.callsIn (values.map expr)

@[simp] lemma calls_nil : calls [] = 0 := rfl

@[simp] lemma calls_cons (v : Pending) (values : List Pending) :
    calls (v :: values) = v.expr.calls + calls values := C.callsIn_cons _ _

@[simp] lemma calls_append (us vs : List Pending) : calls (us ++ vs) = calls us + calls vs := by
  simp [calls]

@[simp] lemma calls_reverse (values : List Pending) : calls values.reverse = calls values :=
  Multiset.coe_eq_coe.mpr (((reverse_perm values).map expr).flatMap_right _)

/-- A choice makes the calls of its operands. -/
lemma calls_choose (cond yes no : Pending) :
    ((choose cond yes no).expr.calls : Multiset Expr) = calls [cond, yes, no] := by
  show ((cond.expr.calls ++ (yes.expr.calls ++ no.expr.calls) : List Expr) : Multiset Expr) = _
  simp

/-- An operand without effects makes no calls. -/
lemma Sound.calls_eq_nil {v : Pending} (h : v.Sound) (hv : v.uses.effects = false) :
    v.expr.calls = [] :=
  Expr.calls_of_not_effects (h.not_effects hv)

/-- Neither do several ones. -/
lemma calls_eq_zero {values : List Pending} (hsound : ∀ v ∈ values, v.Sound)
    (hvs : ∀ v ∈ values, v.uses.effects = false) : calls values = 0 := by
  induction values with
  | nil => rfl
  | cons v values ih =>
    obtain ⟨hv, hsound⟩ := forall_mem_cons.mp hsound
    obtain ⟨hquiet, hvs⟩ := forall_mem_cons.mp hvs
    rw [calls_cons, hv.calls_eq_nil hquiet, ih hsound hvs]
    rfl

end Pending

/-- The value that a kind of construct keeps of a first arm. -/
def ConstructKind.kept? : ConstructKind → Option Pending
  | .elseArm _ _ thenValue _ => thenValue
  | .block | .loop | .ifArm _ => none

namespace Rebuild

variable {args : List Pending} {c : Construct} {code : List Instruction} {depth f : Nat}
  {cond : Pending} {op : Opcode} {outer : List Construct} {env : Surroundings} {i : Instruction}
  {r r1 : Rebuild} {v : Pending} {vs : List Pending} {es : List Line} {new : Multiset Expr}

/-! ## Spilling -/

/-- Evaluating operands moves their calls into lines. -/
lemma calls_evaluations (marks : List (Pending × Bool)) (r : Rebuild) :
    Pending.calls (evaluateMarked marks r).1 + lineCalls ((evaluations marks r).map .run) =
      Pending.calls (marks.map Prod.fst) := by
  induction marks with
  | nil => rfl
  | cons mark marks ih =>
    obtain ⟨v, marked⟩ := mark
    rw [evaluateMarked_cons, evaluations, map_append, lineCalls_append, map_cons, calls_cons, ← ih]
    split
    · rw [map_singleton, lineCalls_one rfl, calls_cons]
      show (0 : Multiset Expr) + _ + _ = _
      abel
    · rw [calls_cons, map_nil]
      show _ + (_ + (0 : Multiset Expr)) = _
      abel

/-- **Spilling neither loses calls nor makes new ones.** -/
theorem calls_spilling (marked : Nat → Pending → Bool) (h : Hazard) :
    Pending.calls (r.spill marked h).scope.values + lineCalls (r.spilling marked h) =
      Pending.calls r.scope.values := by
  have hmoved := calls_evaluations (marksOf marked h r.scope.values) r
  rwa [map_fst_marksOf] at hmoved

lemma calls_settling (h : Hazard) :
    Pending.calls (r.settle h).scope.values + lineCalls (r.settling h) =
      Pending.calls r.scope.values :=
  calls_spilling _ h

lemma calls_sequencing (n : Nat) :
    Pending.calls (r.sequence n).scope.values + lineCalls (r.sequencing n) =
      Pending.calls r.scope.values := by
  unfold sequence sequencing
  dsimp only
  split
  · exact calls_spilling _ _
  · exact add_zero _

/-- What is written before a statement makes the calls of the operands that are settled. -/
lemma calls_settlingFor (h : Hazard) (s : C.Stmt) :
    Pending.calls (r.settle h).scope.values + lineCalls (r.settlingFor h s) =
      lineCalls [.run s] + Pending.calls r.scope.values := by
  rw [settlingFor, lineCalls_append, ← add_assoc, calls_settling, add_comm]

/-- Where operands are put in sequence, those that are taken and what is written make the calls of
all. -/
lemma calls_taken (taken : List Pending) (n : Nat)
    (hvs : (r.sequence n).scope.values = taken ++ vs) :
    Pending.calls taken + (Pending.calls vs + lineCalls (r.sequencing n)) =
      Pending.calls r.scope.values := by
  rw [← calls_sequencing n, hvs, calls_append, add_assoc]

namespace Tidy

variable (h : r.Tidy env)
include h

/-- **Where control leaves, no pending operand makes a call.** -/
theorem calls_settle_values {hz : Hazard} (hreads : hz.readsState = true) :
    Pending.calls (r.settle hz).scope.values = 0 := by
  refine calls_eq_zero (fun v hv => ((h.settle hz).admits_value hv).sound) ?_
  intro v hv
  have hclear := not_conflicts_of_mem_settle hv
  exact (Hazard.conflicts_eq_false.mp hclear).2.2 hreads

lemma calls_leaving : lineCalls (r.settling .leaving) = Pending.calls r.scope.values := by
  rw [← calls_settling .leaving, h.calls_settle_values rfl, zero_add]

/-- Where a value is evaluated in order to leave, no other one makes a call. -/
lemma calls_leavingWith (hvs : r.scope.values = v :: vs) :
    Pending.calls (r.leavingWith v vs).scope.values = 0 :=
  (h.uncons hvs).2.calls_settle_values (Hazard.readsState_and_leaving _)

lemma calls_settlingWith (hvs : r.scope.values = v :: vs) :
    lineCalls (r.settlingWith v vs) + v.expr.calls = Pending.calls r.scope.values := by
  have hmoved := calls_settling (r := r.withValues vs) ((Hazard.evaluating v.uses).and .leaving)
  rw [← leavingWith, h.calls_leavingWith hvs, zero_add] at hmoved
  rw [settlingWith, hmoved, hvs, calls_cons, add_comm]
  rfl

end Tidy

lemma calls_push (v : Pending) :
    Pending.calls (r.push v).scope.values = v.expr.calls + Pending.calls r.scope.values :=
  calls_cons _ _

/-- A value that is thrown away is evaluated, unless it makes no calls. -/
lemma calls_discarding (hv : v.Sound) :
    Pending.calls (r.discard v).scope.values + lineCalls (r.discarding v) =
      v.expr.calls + Pending.calls r.scope.values := by
  unfold discard discarding
  split
  · exact (calls_settlingFor _ _).trans (by rw [lineCalls_one rfl])
  · rename_i hquiet
    rw [hv.calls_eq_nil (by simpa using hquiet)]
    exact add_comm _ _

/-- The operands of an indirect call are evaluated for their effects, or have none. -/
lemma calls_trappingIndirect {operands : List Pending} (hsound : ∀ v ∈ operands, v.Sound) :
    lineCalls (trappingIndirect operands) = Pending.calls operands := by
  rw [trappingIndirect, lineCalls_append, lineCalls_none rfl, add_zero]
  induction operands with
  | nil => rfl
  | cons v operands ih =>
    obtain ⟨hv, hsound⟩ := forall_mem_cons.mp hsound
    rw [filter_cons, calls_cons, ← ih hsound]
    split
    · rw [map_cons, ← singleton_append, lineCalls_append, lineCalls_one rfl]
    · rename_i hquiet
      rw [hv.calls_eq_nil (by simpa using hquiet)]
      exact (zero_add _).symm

lemma values_trapIndirect (operands : List Pending) :
    (trapIndirect operands r).scope.values = r.scope.values :=
  trapIndirect_keeps (P := fun r1 => r1.scope.values = r.scope.values) rfl (fun _ _ _ h => h)
    fun _ h => h

/-! ## Instructions that are not part of a construct -/

lemma Tidy.calls_leaves (h : r.Tidy env) (hl : Leaves env r es r1) :
    Pending.calls r1.scope.values + lineCalls es = Pending.calls r.scope.values := by
  cases hl with
  | value _ hvs =>
    rw [lineCalls_append, lineCalls_one rfl, h.calls_settlingWith hvs]
    exact zero_add _
  | plain =>
    rw [settlingFor, lineCalls_append, lineCalls_none rfl, add_zero, h.calls_leaving]
    exact zero_add _

lemma Tidy.calls_branches (h : r.Tidy env) (hb : Branches env depth r es r1) :
    Pending.calls r1.scope.values + lineCalls es = Pending.calls r.scope.values := by
  cases hb with
  | leave _ hl => exact h.calls_leaves hl
  | value _ _ hvs =>
    rw [lineCalls_append, lineCalls_append, carryingTo, jumpingTo, lineCalls_one rfl,
      lineCalls_none rfl, add_zero, h.calls_settlingWith hvs]
    exact zero_add _
  | plain =>
    rw [lineCalls_append, jumpingTo, lineCalls_none rfl, add_zero, h.calls_leaving]
    exact zero_add _

/-- A conditional branch copies a value only if it makes no calls. -/
lemma calls_branchesIf (hquiet : Pending.calls r.scope.values = 0)
    (hb : BranchesIf env depth cond r es r1) :
    Pending.calls r1.scope.values + lineCalls es = cond.expr.calls := by
  have hcopy {v : Pending} {vs : List Pending} (hvs : r.scope.values = v :: vs) :
      (v.expr.calls : Multiset Expr) = 0 := by
    rw [hvs, calls_cons] at hquiet
    exact Multiset.le_zero.mp (hquiet ▸ Multiset.le_add_right _ _)
  have hscope : r1.scope.values = r.scope.values := by
    cases hb with
    | leaveWith | leave => rfl
    | value => simp [jumpIfWith, emit, scope_resultTemp, scope_labelOf]
    | plain => simp [jumpIf, emit, scope_labelOf]
  rw [hscope, hquiet, zero_add]
  cases hb with
  | leaveWith hd hres hvs | value hc ht hvs =>
    exact (lineCalls_two rfl).trans (by rw [hcopy hvs, add_zero])
  | leave | plain => exact lineCalls_one rfl

/-- **The call that an instruction adds**: that of a `call` or `grow_memory` that can be reached,
with the operands that it finds. -/
def issued (env : Surroundings) (r : Rebuild) (i : Instruction) : Option Expr :=
  match r.reach, i.op with
  | .live, .call => do
    let f ← i.imm.index?
    let t ← env.inModule.functionType? f
    let args := ((r.sequence t.params.length).scope.values.take t.params.length).reverse
    return .call f (args.map expr)
  | .live, .growMemory => r.scope.values.head?.map fun delta => .memoryGrow delta.expr
  | _, _ => none

lemma issued_call (hlive : r.reach = .live) (hop : i.op = .call) (himm : i.imm.index? = some f)
    (htype : env.inModule.functionType? f = some t)
    (hvs : (r.sequence t.params.length).scope.values = args.reverse ++ vs)
    (hn : args.length = t.params.length) :
    issued env r i = some (.call f (args.map expr)) := by
  have htake : (r.sequence t.params.length).scope.values.take t.params.length = args.reverse := by
    rw [hvs, ← hn, ← length_reverse, take_left]
  simp only [issued, hlive, hop, himm, htype, Option.bind_eq_bind, Option.bind_some, htake,
    reverse_reverse]
  rfl

lemma issued_growMemory {delta : Pending} (hlive : r.reach = .live) (hop : i.op = .growMemory)
    (hvs : r.scope.values = delta :: vs) :
    issued env r i = some (.memoryGrow delta.expr) := by
  simp [issued, hlive, hop, hvs]

/-- No other instruction adds a call. -/
lemma issued_of_ne (hcall : i.op ≠ .call) (hgrow : i.op ≠ .growMemory) : issued env r i = none := by
  unfold issued
  split
  · exact absurd ‹_› hcall
  · exact absurd ‹_› hgrow
  · rfl

lemma issued_of_not_live (hd : r.reach ≠ .live) : issued env r i = none := by
  unfold issued
  split
  · exact absurd ‹_› hd
  · exact absurd ‹_› hd
  · rfl

/-- The operands of a call become a part of it. -/
lemma calls_callArgs {n : Nat} (hvs : (r.sequence n).scope.values = args.reverse ++ vs) :
    ((Expr.call f (args.map expr)).calls : Multiset Expr) +
        (Pending.calls vs + lineCalls (r.sequencing n)) =
      [Expr.call f (args.map expr)] + Pending.calls r.scope.values := by
  rw [← calls_taken _ n hvs, calls_reverse, Expr.calls_call, ← singleton_append,
    ← Multiset.coe_add, add_assoc]
  rfl

/-- The operands of an indirect call are evaluated for their effects. -/
lemma Tidy.calls_callIndirect (h : r.Tidy env) {callee : Pending}
    (hvs : r.scope.values = callee :: (args.reverse ++ vs)) :
    Pending.calls ((r.withValues vs).settle .leaving).scope.values +
        lineCalls ((r.withValues vs).settling .leaving ++ trappingIndirect (args ++ [callee])) =
      Pending.calls r.scope.values := by
  have hsound : ∀ v ∈ args ++ [callee], v.Sound := by
    intro v hv
    exact (h.admits_value (by rw [hvs]; grind)).sound
  rw [lineCalls_append, calls_trappingIndirect hsound, ← add_assoc, calls_settling, hvs]
  simp only [withValues_values, calls_append, calls_cons, calls_nil, calls_reverse]
  abel

/-- An instruction that is no part of a construct and no call only moves calls. -/
lemma Tidy.calls_moves (h : r.Tidy env) (ha : Acts env i r es r1) (hcall : i.op ≠ .call)
    (hgrow : i.op ≠ .growMemory) :
    Pending.calls r1.scope.values + lineCalls es = Pending.calls r.scope.values := by
  cases ha with
  | nop => exact add_zero _
  | unreachable =>
    rw [settlingFor, lineCalls_append, lineCalls_none rfl, add_zero, h.calls_leaving]
    exact zero_add _
  | br _ _ hb => exact h.calls_branches hb
  | brIf _ _ hvs hb =>
    rw [lineCalls_append, add_left_comm, calls_branchesIf (h.calls_leavingWith hvs) hb,
      h.calls_settlingWith hvs]
  | @brTable depth index vs es r1 _ _ hvs hb =>
    have hindex : index.Sound := (h.admits_value (by simp [hvs])).sound
    rw [lineCalls_append, add_left_comm, ((h.uncons hvs).2.discard index).calls_branches hb,
      add_comm, calls_discarding hindex, hvs, calls_cons]
    rfl
  | returnOp _ hl => exact h.calls_leaves hl
  | call hop | callPlain hop => exact absurd hop hcall
  | growMemory hop => exact absurd hop hgrow
  | callIndirect _ _ hvs =>
    rw [calls_push, values_trapIndirect, add_assoc, h.calls_callIndirect hvs]
    exact zero_add _
  | callIndirectPlain _ _ hvs =>
    rw [values_trapIndirect, h.calls_callIndirect hvs]
  | @drop v vs _ hvs =>
    have hv : v.Sound := (h.admits_value (by simp [hvs])).sound
    rw [calls_discarding hv, hvs, calls_cons]
    rfl
  | @select cond second first vs _ hvs =>
    rw [← calls_spilling (r := r) (fun i _ => i = 1 || i = 2) .none, hvs, calls_push]
    simp only [withValues_values, calls_cons, calls_choose, calls_nil]
    abel
  | getLocal | currentMemory | const | getGlobal =>
    rw [calls_push]
    exact (add_zero _).trans (zero_add _)
  | setLocal hop himm htype hvs | setGlobal hop himm htype hvs =>
    refine (calls_settlingFor _ _).trans ?_
    rw [lineCalls_one rfl, hvs]
    exact (calls_cons _ _).symm
  | teeLocal _ _ _ hvs =>
    rw [calls_push, add_assoc]
    refine ((zero_add _).trans (calls_settlingFor _ _)).trans ?_
    rw [lineCalls_one rfl, hvs]
    exact (calls_cons _ _).symm
  | load _ _ hvs =>
    rw [hvs, calls_push]
    exact add_zero _
  | @store op off value addr vs _ _ hvs =>
    rw [lineCalls_append, add_left_comm, ← calls_taken [value, addr] 2 hvs]
    refine (congrArg _ (calls_settlingFor _ _)).trans ?_
    rw [lineCalls_two rfl, withValues_values]
    simp only [calls_cons, calls_nil]
    abel
  | @numeric op args vs _ hvs hn =>
    rw [← calls_taken _ _ hvs, calls_reverse, ← add_assoc, calls_push]
    show ((Expr.numeric op (args.map Pending.expr)).calls : Multiset Expr) + _ + _ = _
    rw [Expr.calls_numeric (by simpa using hn)]
    rfl

/-- **What an instruction that is no part of a construct does to the calls.** -/
theorem Tidy.calls_acts (h : r.Tidy env) (hl : r.reach = .live) (ha : Acts env i r es r1) :
    Pending.calls r1.scope.values + lineCalls es =
      (issued env r i).toList + Pending.calls r.scope.values := by
  by_cases hother : i.op ≠ .call ∧ i.op ≠ .growMemory
  · rw [issued_of_ne hother.1 hother.2, h.calls_moves ha hother.1 hother.2]
    exact (zero_add _).symm
  cases ha with
  | call hop himm htype _ hvs hn =>
    rw [issued_call hl hop himm htype hvs hn, calls_push, add_assoc]
    exact calls_callArgs hvs
  | callPlain hop himm htype _ hvs hn =>
    rw [issued_call hl hop himm htype hvs hn, lineCalls_append, add_left_comm,
      Option.toList_some, ← calls_callArgs hvs]
    refine (congrArg _ (calls_settlingFor _ _)).trans ?_
    rw [lineCalls_one rfl, withValues_values]
    abel
  | @growMemory delta vs hop hvs =>
    rw [issued_growMemory hl hop hvs, hvs, calls_push]
    show ((Expr.memoryGrow delta.expr :: delta.expr.calls : List Expr) : Multiset Expr) + _ + 0 = _
    rw [← singleton_append, ← Multiset.coe_add, add_zero, add_assoc]
    rfl
  | _ hop => simp [hop] at hother

/-! ## States -/

/-- The operands that wait outside the innermost scope: those of the scopes around, and the values
that are kept of first arms. -/
def held (cs : List Construct) : List Pending :=
  cs.flatMap fun c => c.kind.kept?.toList ++ c.enclosing.values

/-- The calls of a state. -/
def calls (r : Rebuild) : Multiset Expr :=
  Pending.calls (r.scope.values ++ held r.constructs) + lineCalls r.lines

/-- What is added to operands and lines is added to the calls. -/
lemma calls_of_perm (hls : r1.lines.Perm (r.lines ++ es))
    (hwaiting : Pending.calls (r1.scope.values ++ held r1.constructs) + lineCalls es =
      new + Pending.calls (r.scope.values ++ held r.constructs)) : r1.calls = new + r.calls := by
  have hperm : lineCalls r1.lines = lineCalls es + lineCalls r.lines := by
    rw [add_comm, ← lineCalls_append]
    exact Multiset.coe_eq_coe.mpr (hls.flatMap_right _)
  rw [calls, hperm, ← add_assoc, hwaiting, add_assoc, calls]

/-- What only moves operands into lines moves calls. -/
lemma calls_of_lines (hls : r1.lines.Perm (r.lines ++ es))
    (hwaiting : Pending.calls (r1.scope.values ++ held r1.constructs) + lineCalls es =
      Pending.calls (r.scope.values ++ held r.constructs)) : r1.calls = r.calls := by
  rw [calls_of_perm hls (hwaiting.trans (zero_add _).symm), zero_add]

/-- The line for the value of the first arm makes the calls of what was kept. -/
lemma calls_storingThen (temp : Nat) (kind : ConstructKind) :
    lineCalls (storingThen temp kind) = Pending.calls kind.kept?.toList := by
  unfold storingThen
  split
  · exact (lineCalls_one rfl).trans (add_zero _).symm
  · rename_i hnone
    cases kind with
    | block | loop | ifArm => rfl
    | elseArm cond thenCode thenValue thenLive =>
      cases thenValue with
      | none => rfl
      | some v => exact absurd rfl (hnone _ _ v _)

lemma calls_closingLines (c : Construct) : lineCalls (closingLines c) = 0 := by
  unfold closingLines
  cases c.label <;> split <;> rfl

lemma held_cons (c : Construct) (cs : List Construct) :
    held (c :: cs) = c.kind.kept?.toList ++ (c.enclosing.values ++ held cs) := by
  simp [held]

lemma calls_spillingAllFor (k : List Line) :
    Pending.calls (r.spillAll.scope.values ++ held r.spillAll.constructs) +
        lineCalls (r.spillingAllFor k) =
      lineCalls k + Pending.calls (r.scope.values ++ held r.constructs) := by
  rw [spillAll, spill_constructs, spillingAllFor, lineCalls_append, calls_append, calls_append,
    ← calls_spilling (r := r) (fun _ _ => true) .none]
  abel

/-- The start of a construct neither loses calls nor makes new ones. -/
lemma calls_enters {res : Option ValueType} (he : Enters r res op es r1) : r1.calls = r.calls := by
  obtain ⟨c, hopens⟩ := lines_of_enters he
  refine calls_of_lines (.of_eq hopens.lines) ?_
  cases he with
  | block => exact (calls_spillingAllFor [.openBlock]).trans (zero_add _)
  | loop => exact (calls_spillingAllFor [.label _, .openBlock]).trans (zero_add _)
  | @ifOp cond vs hvs =>
    refine (calls_spillingAllFor [.openIf cond.expr]).trans ?_
    rw [lineCalls_one rfl, hvs]
    exact (calls_cons _ _).symm

/-! ## The invariant -/

/-- Nothing that makes a call can be dropped. -/
structure Accounted (env : Surroundings) (r : Rebuild) : Prop where
  /-- Pending expressions are in order. -/
  tidy : r.Tidy env
  /-- Where nothing can be reached, operands have no effects. -/
  dead : ∀ nested, r.reach = .dead nested → ∀ v ∈ r.scope.values, v.uses.effects = false

lemma accounted_empty : Accounted env {} :=
  ⟨tidy_empty, fun _ _ _ hv => absurd hv not_mem_nil⟩

namespace Accounted

/-- Where nothing can be reached, no operand makes a call. -/
lemma calls_values (h : r.Accounted env) {nested : Nat} (hd : r.reach = .dead nested) :
    Pending.calls r.scope.values = 0 :=
  calls_eq_zero (fun _ hv => (h.tidy.admits_value hv).sound) (h.dead nested hd)

/-- Operands that have to be gone where they can be reached make no calls elsewhere. -/
lemma calls_values_of_live (h : r.Accounted env) (hvs : r.reach = .live → r.scope.values = []) :
    Pending.calls r.scope.values = 0 := by
  cases hr : r.reach with
  | live => rw [hvs hr, calls_nil]
  | dead nested => exact h.calls_values hr

/-- The change between arms neither loses calls nor makes new ones. -/
lemma calls_switches (h : r.Accounted env) (hs : Switches r es r1) : r1.calls = r.calls := by
  obtain ⟨-, -, -, -, -, -, -, -, -, -, -, hls⟩ := lines_of_switches hs
  refine calls_of_lines (.of_eq hls) ?_
  obtain ⟨c, outer, cond, hcs, hkind, hs⟩ := hs
  rw [hcs, held_cons, hkind]
  cases hs with
  | keep _ _ hvs =>
    rw [hvs]
    exact add_zero _
  | @store v t _ _ hvs =>
    rw [hvs, lineCalls_append, carryingTo, lineCalls_one rfl, lineCalls_none rfl, add_zero,
      add_comm]
    exact (calls_cons _ _).symm
  | plain hvs =>
    rw [calls_append r.scope.values, h.calls_values_of_live fun hl => (hvs hl).2]
    exact (add_comm _ _).trans rfl

/-- **The end of a construct neither loses calls nor makes new ones.** -/
theorem calls_closes (h : r.Accounted env) (hc : Closes r es r1) : r1.calls = r.calls := by
  obtain ⟨c, hcs, hends⟩ := lines_of_closes h.tidy hc
  have hin := hc.innermost hcs
  generalize houter : r1.constructs = outer at hcs hin
  -- unless arms are folded, the operands around the construct wait again, below its result
  have hmoves (new : List Line) (pushed : List Pending) (hes : es = new ++ closingLines c)
      (hvs : r1.scope.values = pushed ++ c.enclosing.values)
      (hcalls : Pending.calls pushed + lineCalls new =
        Pending.calls r.scope.values + Pending.calls c.kind.kept?.toList) :
      r1.calls = r.calls := by
    refine calls_of_lines (hends.perm (by simp [hes, closingLines])) ?_
    rw [hes, hvs, houter, hcs, held_cons, lineCalls_append, calls_closingLines, add_zero]
    simp only [calls_append]
    rw [add_right_comm, add_right_comm (Pending.calls pushed), hcalls, add_assoc, add_assoc]
  have hblock (hkind : c.kind = .block ∨ c.kind = .loop) : c.kind.kept? = none := by
    rcases hkind with hkind | hkind <;> rw [hkind] <;> rfl
  cases hin with
  | @folded cond thenValue v thenCode thenLive t hkind _ _ hvs =>
    cases hends with
    | closed _ _ _ hes => simp [closingLines] at hes
    | folded hkind' _ hlines =>
      rw [hkind] at hkind'
      cases hkind'
      have hcond : lineCalls [.openIf cond.expr, .openElse] = cond.expr.calls :=
        (lineCalls_append [.openIf cond.expr] _).trans
          (by rw [lineCalls_one rfl, lineCalls_none rfl, add_zero])
      rw [calls, calls, hlines, hcs, held_cons, hkind, hvs, lineCalls_append, hcond]
      show Pending.calls (choose cond thenValue v :: (c.enclosing.values ++ held outer)) + _ =
        Pending.calls (v :: thenValue :: (c.enclosing.values ++ held outer)) + _
      simp only [calls_cons, calls_choose, calls_nil]
      abel
  | plain hres hvs =>
    have hkept : c.kind.kept? = none := by
      cases hkind : c.kind with
      | block | loop | ifArm => rfl
      | elseArm cond thenCode thenValue thenLive =>
        cases thenValue with
        | none => rfl
        | some v =>
          have hsome := (h.tidy.kept (by simp [hcs]) hkind).2
          simp [hres] at hsome
    exact hmoves [] [] rfl rfl (by rw [h.calls_values_of_live hvs, hkept]; rfl)
  | @direct v t hkind _ _ hvs =>
    exact hmoves [] [v] rfl rfl (by rw [hvs, hblock hkind]; rfl)
  | unreached hkind hd =>
    exact hmoves [] [] rfl rfl (by rw [h.calls_values hd, hblock hkind]; rfl)
  | @store v t _ _ _ hvs =>
    refine hmoves _ [_] (append_assoc ..).symm rfl ?_
    rw [hvs, lineCalls_append, calls_storingThen, carryingTo, lineCalls_one rfl, calls_cons,
      calls_cons]
    show 0 + 0 + _ = _ + 0 + _
    abel
  | carried _ hd =>
    refine hmoves _ [_] rfl rfl ?_
    rw [h.calls_values hd, calls_storingThen]
    rfl
  | carriedUnreached _ hd =>
    refine hmoves _ [] rfl rfl ?_
    rw [h.calls_values hd, calls_storingThen]
    rfl

/-- **Every instruction keeps the invariant.** -/
theorem steps (h : r.Accounted env) (hstep : Steps env i r es r1) : r1.Accounted env := by
  refine ⟨h.tidy.steps hstep, ?_⟩
  intro nested hd
  cases hstep with
  | acts hl _ ha =>
    rcases live_or_killed_of_acts hl ha with hlive' | ⟨-, hvs⟩
    · simp [hd] at hlive'
    · simp [hvs]
  | enters hl _ he => simp [(reach_of_enters he).trans hl] at hd
  | switches _ _ hs =>
    rw [reach_of_switches hs] at hd
    cases hd
  | closes _ _ hc =>
    obtain ⟨c, outer, hcs, hc⟩ := hc
    cases hc with
    | folded | direct | store | carried => cases hd
    | plain | unreached | carriedUnreached =>
      -- behind a construct there are the operands that waited around it
      intro v hv
      exact Footprint.not_effects_of_isStable ((h.tidy.constructs c (by simp [hcs])).stable v hv)
  | skips hdead' => exact h.dead _ hdead'

/-- **One instruction adds the call that it issues.** -/
theorem calls_steps (h : r.Accounted env) (hstep : Steps env i r es r1) :
    r1.calls = (issued env r i).toList + r.calls := by
  cases hstep with
  | acts hl _ ha =>
    obtain ⟨ss, hgrows, -⟩ := writes_of_acts ha
    have hheld : held r1.constructs = held r.constructs := by
      rw [held, flatMap_def, hgrows.map_constructs fun c c' hk henclosing => ?_]
      · rfl
      · rw [hk, henclosing]
    refine calls_of_perm (.of_eq (lines_of_acts h.tidy ha)) ?_
    rw [hheld, calls_append, calls_append, add_right_comm, h.tidy.calls_acts hl ha, add_assoc]
  | enters _ _ he =>
    have hop : i.op ≠ .call ∧ i.op ≠ .growMemory := by
      constructor <;>
        · intro hop
          rw [hop] at he
          cases he
    rw [issued_of_ne hop.1 hop.2, calls_enters he]
    exact (zero_add _).symm
  | switches hop _ hs =>
    rw [issued_of_ne (by simp [hop]) (by simp [hop]), h.calls_switches hs]
    exact (zero_add _).symm
  | closes hop _ hc =>
    rw [issued_of_ne (by simp [hop]) (by simp [hop]), h.calls_closes hc]
    exact (zero_add _).symm
  | skips hd =>
    rw [issued_of_not_live (by simp [hd])]
    exact (zero_add _).symm

end Accounted

/-! ## Whole bodies -/

/-- The instructions of a body, each with the state it is read in. -/
def visits (env : Surroundings) : List Instruction → Rebuild → List (Rebuild × Instruction)
  | [], _ => []
  | i :: code, r =>
    (r, i) :: match r.step env i with
      | .ok r1 => visits env code r1
      | .error _ => []

lemma visits_cons (hstep : r.step env i = .ok r1) :
    visits env (i :: code) r = (r, i) :: visits env code r1 := by
  rw [visits, hstep]

/-- The calls that the instructions of a body issue. -/
def issuedBy (env : Surroundings) (code : List Instruction) (r : Rebuild) : List Expr :=
  (visits env code r).filterMap fun visit => issued env visit.1 visit.2

/-- **Several instructions add the calls that they issue.** -/
theorem Accounted.calls_run (h : r.Accounted env) (hrun : (run env code r).outcome = .ok r1) :
    r1.Accounted env ∧ r1.calls = issuedBy env code r + r.calls := by
  induction code generalizing r with
  | nil =>
    obtain rfl : r = r1 := by simpa [run] using hrun
    exact ⟨h, (zero_add _).symm⟩
  | cons i code ih =>
    obtain ⟨r2, hstep, hr⟩ := run_cons_eq_ok.mp hrun
    obtain ⟨es, hss⟩ := steps_of_step hstep
    obtain ⟨hlast, hcalls⟩ := ih (h.steps hss) hr
    refine ⟨hlast, ?_⟩
    have hissued : issuedBy env (i :: code) r =
        (issued env r i).toList ++ issuedBy env code r2 := by
      rw [issuedBy, visits_cons hstep, filterMap_cons]
      cases issued env r i <;> rfl
    rw [hcalls, h.calls_steps hss, hissued, ← Multiset.coe_add]
    abel

/-- The end of a body neither loses calls nor makes new ones, and no operand makes a call then. -/
lemma Accounted.calls_finishes (h : r.Accounted env) (hf : Finishes env r r1) :
    r1.calls = r.calls ∧ Pending.calls r1.scope.values = 0 := by
  cases hf with
  | unreached hd => exact ⟨rfl, h.calls_values hd⟩
  | @value t v _ _ hvs =>
    have hls : ((r.withValues []).emit (.leave (some v.expr))).lines =
        r.lines ++ [.run (.leave (some v.expr))] := by
      rw [lines_eq, body_emit rfl, ← append_assoc, lines_eq]
      rfl
    refine ⟨calls_of_lines (.of_eq hls) ?_, rfl⟩
    rw [hvs, lineCalls_one rfl, add_comm]
    exact (calls_cons _ _).symm
  | plain _ _ hvs => exact ⟨rfl, by rw [hvs, calls_nil]⟩

/-- Every instruction of a body is read, in order. -/
lemma map_snd_visits (hrun : (run env code r).outcome = .ok r1) :
    (visits env code r).map Prod.snd = code := by
  induction code generalizing r with
  | nil => rfl
  | cons i code ih =>
    obtain ⟨r2, hstep, hr⟩ := run_cons_eq_ok.mp hrun
    rw [visits_cons hstep, map_cons, ih hr]

/-- Every instruction of a body is translated in the state it is read in. -/
lemma exists_step_of_mem_visits {visit : Rebuild × Instruction}
    (hrun : (run env code r).outcome = .ok r1) (hvisit : visit ∈ visits env code r) :
    ∃ r2, visit.1.step env visit.2 = .ok r2 := by
  induction code generalizing r with
  | nil => cases hvisit
  | cons i code ih =>
    obtain ⟨r2, hstep, hr⟩ := run_cons_eq_ok.mp hrun
    rw [visits_cons hstep] at hvisit
    rcases mem_cons.mp hvisit with rfl | hvisit
    · exact ⟨r2, hstep⟩
    · exact ih hr hvisit

/-- A `call` that can be reached issues a call of the function that it names. -/
lemma exists_issued_call (hlive : r.reach = .live) (hop : i.op = .call)
    (hstep : r.step env i = .ok r1) :
    ∃ f args, i.imm.index? = some f ∧ issued env r i = some (.call f args) := by
  simp only [step, hlive, stepLive, hop, bind_eq_ok, Site.need_eq_ok] at hstep
  obtain ⟨f, himm, hcall⟩ := hstep
  simp only [call, bind_eq_ok, Site.need_eq_ok, Prod.exists] at hcall
  obtain ⟨t, htype, _, -, args, _, hargs, -⟩ := hcall
  obtain ⟨vs, hvs, htypes, -⟩ := popArgs_eq_ok hargs
  exact ⟨f, _, himm, issued_call hlive hop himm htype hvs (by simp [← htypes])⟩

/-- A `grow_memory` that can be reached issues a growing of the memory. -/
lemma exists_issued_growMemory (hlive : r.reach = .live) (hop : i.op = .growMemory)
    (hstep : r.step env i = .ok r1) : ∃ delta, issued env r i = some (.memoryGrow delta) := by
  simp only [step, hlive, stepLive, hop, bind_eq_ok, Prod.exists, popTyped_eq_ok] at hstep
  obtain ⟨delta, _, ⟨vs, hvs, -⟩, -⟩ := hstep
  exact ⟨delta.expr, issued_growMemory hlive hop hvs⟩

end Rebuild

/-- **The calls of a finished body are those that its instructions issue.** -/
theorem Rebuilt.calls_body {m : Module} {pos : Nat} {f : C.FunctionDef} {fn : Function}
    {r r1 : Rebuild} (h : Rebuilt m pos f fn t r r1) :
    (f.bodyLines.flatMap Line.calls).Perm
      (Rebuild.issuedBy (surroundings m (m.importedFunctions + pos) fn t) fn.code {}) := by
  obtain ⟨hlast, hrun⟩ := Rebuild.accounted_empty.calls_run h.run
  obtain ⟨hfinish, hquiet⟩ := hlast.calls_finishes h.finishes
  have hempty : Rebuild.calls {} = 0 := rfl
  have hlines : r1.lines = f.bodyLines := by
    rw [Rebuild.lines_eq, h.constructs, Rebuild.body, ← h.body]
    rfl
  rw [Rebuild.calls, h.constructs, calls_append, hquiet, hlines, hrun, hempty, add_zero] at hfinish
  exact Multiset.coe_eq_coe.mp ((zero_add _).symm.trans hfinish)

end WasmToC

import WasmToC.Proofs.ArmsAndEnds

/-!
# Reconstruction and writing in lockstep

Writing line by line follows reconstruction instruction by instruction, in code that can be reached
and in code that cannot: it accepts and refuses the same code, for the same reasons, and no access
is out of range. So the text of a function can be written either way.

## Main results

* `Mirrors.step` — one instruction.
* `Mirrors.run` — all instructions.
* `follows_writeFunction` — the text of a function.
-/

namespace WasmToC

open List
open C (Line Stmt)
open Rebuild

variable {T : Turn} {stops : Prop} {r r1 : Rebuild} {w : Writer} {env : Surroundings}

/-! ## One instruction -/

/-- Whatever instruction comes next, it has not written anything yet. -/
lemma Mirrors.next (h : Mirrors T r w) (op' : Opcode) :
    Mirrors ⟨T.result, op', w⟩ r { w with op := op' } :=
  { h with
    op := rfl
    writes := ⟨[], by simp, by simp [List.Subperm.refl], by simp, by simp⟩ }

/-- **An instruction that can be reached.** -/
theorem Active.stepLive (h : Active T r w) (htidy : r.Tidy env)
    (hroom : r.labels + 1 < 2 ^ 32 ∨ stops)
    (site : Site) (hop : site.op = T.op) (hres : site.around.type.result = T.result)
    (imm : Immediate) :
    Follows stops (Mirrors T) (r.stepLive site imm) (w.stepLive site imm) := by
  unfold Rebuild.stepLive Writer.stepLive
  cases hopcode : site.op with
  | nop => exact .ok h.toMirrors
  | unreachable =>
    obtain ⟨w1, hw1, h1⟩ := h.settle_write .leaving (s := .trap .unreachable) rfl
      (Hazard.covers_leaving rfl rfl rfl (by simp [Stmt.exprs]))
    exact .bind_right hw1 (.ok h1.kill)
  | block | loop | ifOp => exact .of_need site _ fun type => h.enter hroom site _ type
  | elseOp => exact h.toMirrors.switchArm htidy h.flat site
  | endOp => exact h.toMirrors.close htidy h.flat site
  | br => exact .of_need site _ fun d => h.branch htidy hroom site d
  | brIf => exact .of_need site _ fun d => h.branchIf htidy hroom hres d
  | brTable => exact h.branchTable htidy hroom site imm
  | returnOp => exact h.leave site
  | call => exact .of_need site _ fun index => h.call site index
  | callIndirect =>
    cases imm with
    | callIndirect typeIndex _ => exact h.callIndirect (hop.symm.trans hopcode) site typeIndex
    | _ => exact .refuse site _
  | drop =>
    refine (h.pop site).take fun v vs w1 _ hv h1 => ?_
    obtain ⟨w2, hw2, h2⟩ := h1.discard hv
    exact .ok_right hw2 h2.toMirrors
  | select => exact h.select site
  | getLocal => exact .of_need site _ fun index => .of_need site _ fun t => .ok (h.push _)
  | setLocal => exact .of_need site _ fun index => h.assignLocal site index false
  | teeLocal => exact .of_need site _ fun index => h.assignLocal site index true
  | getGlobal => exact .of_need site _ fun index => .of_need site _ fun g => .ok (h.push _)
  | setGlobal => exact .of_need site _ fun index => h.assignGlobal site index
  | currentMemory => exact .ok (h.push _)
  | growMemory =>
    exact (h.popTyped site .i32).take fun _ _ _ _ _ h1 => .ok (h1.push _)
  | const _ => exact .of_need site _ fun value => .ok (h.push _)
  | load op => exact .of_need site _ fun off => h.load site op off
  | store op => exact .of_need site _ fun off => h.store site op off
  | numeric op => exact h.numeric site op

/-- The number of constructs in code that cannot be reached. -/
lemma Mirrors.skip (h : Mirrors T r w) {nested : Nat} {labels : List Label}
    (hd : r.reach.isLive = false)
    (hlabels : labels = (labelsFor T.result r.constructs).reverse ++
      List.replicate nested { kind := .dead, result := none, base := w.stack.length }) :
    Mirrors T { r with reach := .dead nested } { w with labels } where
  __ := h
  labels := by
    rw [hlabels, h.stack, length_reverse]
    rfl
  dead := by rw [h.dead, hd]; rfl

/-- **An instruction that cannot be reached.** -/
theorem Mirrors.stepDead (h : Mirrors T r w) (htidy : r.Tidy env) {nested : Nat}
    (hdead : r.reach = .dead nested) (site : Site) :
    Follows stops (Mirrors T) (r.stepDead site nested) (w.stepDead site) := by
  have hnot : r.reach.isLive = false := by rw [hdead]; rfl
  have hlabels : w.labels = (labelsFor T.result r.constructs).reverse ++
      List.replicate nested { kind := .dead, result := none, base := w.stack.length } := by
    rw [h.labels, skipped, hdead, h.stack, length_reverse]
  have hskipped : (w.labels.getLast?.map fun l => l.kind.isDead).getD false =
    decide (0 < nested) := by
    rw [hlabels]
    cases nested with
    | zero =>
      rw [replicate_zero, append_nil, getLast?_reverse]
      cases r.constructs with
      | nil => rfl
      | cons c cs =>
        simp only [labelsFor, head?_cons, labelFor, labelKind]
        cases c.kind <;> rfl
    | succ nested =>
      rw [replicate_succ', ← append_assoc, getLast?_concat]
      rfl
  unfold Rebuild.stepDead Writer.stepDead
  rw [hskipped]
  by_cases hopens : site.op.opensConstruct = true
  · rw [if_pos hopens, if_pos hopens]
    refine .ok (h.skip hnot ?_)
    rw [hlabels, append_assoc, replicate_succ']
  · rw [if_neg hopens, if_neg hopens]
    cases nested with
    | zero =>
      have hflat : r.Flat := .inr hdead
      cases site.op with
      | elseOp => exact h.switchArm htidy hflat site
      | endOp => exact h.close htidy hflat site
      | _ => exact .ok h
    | succ nested =>
      cases site.op with
      | endOp =>
        refine .ok (h.skip hnot ?_)
        rw [hlabels, replicate_succ', ← append_assoc, dropLast_concat]
      | _ => exact .ok h

/-- **One instruction.** -/
theorem Mirrors.step {env : Surroundings} (h : Mirrors T r w) (htidy : r.Tidy env)
    (hroom : r.labels + 1 < 2 ^ 32 ∨ stops) (hres : env.type.result = T.result)
    (i : Instruction) :
    Follows stops (Mirrors ⟨T.result, i.op, w⟩) (r.step env i) (w.step env i) := by
  have hnext := h.next i.op
  cases hreach : r.reach with
  | live =>
    have hl : w.dead = false := by rw [h.dead, hreach]; rfl
    have hstep : w.step env i = { w with op := i.op }.stepLive ⟨env, i.op⟩ i.imm := by
      simp [Writer.step, hl]
    rw [Rebuild.step, hreach, hstep]
    exact (hnext.active hreach htidy).stepLive htidy hroom ⟨env, i.op⟩ rfl hres i.imm
  | dead nested =>
    have hd : w.dead = true := by rw [h.dead, hreach]; rfl
    have hstep : w.step env i = { w with op := i.op }.stepDead ⟨env, i.op⟩ := by
      simp [Writer.step, hd]
    rw [Rebuild.step, hreach, hstep]
    exact hnext.stepDead htidy hreach ⟨env, i.op⟩

/-! ## Labels -/

namespace Rebuild

variable {env : Surroundings} {i : Instruction} {es : List Line}

/-- **An instruction gives out at most one label.** -/
theorem labels_of_acts (h : Acts env i r es r1) : r1.labels ≤ r.labels + 1 := by
  rcases constructs_of_acts h with ⟨-, -, hlabels⟩ | ⟨d, -, haims⟩
  · omega
  · generalize r1.constructs = cs1 at haims
    generalize r1.labels = labels1 at haims
    cases haims with
    | body => exact Nat.le_succ _
    | construct => omega

lemma labels_of_enters {res : Option ValueType} {op : Opcode} (h : Enters r res op es r1) :
    r1.labels ≤ r.labels + 1 := by
  cases h <;> simp [openConstruct, openLoop, spillAll, withValues]

lemma labels_of_steps (h : Steps env i r es r1) : r1.labels ≤ r.labels + 1 := by
  cases h with
  | acts _ _ h => exact labels_of_acts h
  | enters _ _ h => exact labels_of_enters h
  | switches _ _ h => exact labels_of_switches h ▸ Nat.le_succ _
  | closes _ _ h => exact labels_of_closes h ▸ Nat.le_succ _
  | skips => exact Nat.le_succ _

end Rebuild

/-! ## All instructions -/

/-- **All instructions**: the states that both sides come to show the same, whatever the code.

**Proof sketch.** Induction on the code, with `Mirrors.step` for each instruction. An instruction
gives out at most one label, so there is one for every instruction that is left. -/
theorem Mirrors.run (env : Surroundings) (h : Mirrors T r w) (htidy : r.Tidy env)
    (hres : env.type.result = T.result) (code : List Instruction)
    (hroom : r.labels + code.length < 2 ^ 32 ∨ stops) :
    Follows stops (fun r1 w1 => r1.Tidy env ∧ ∃ op past, Mirrors ⟨T.result, op, past⟩ r1 w1)
      (Rebuild.run env code r).outcome (Writer.run env code w) := by
  induction code generalizing T r w with
  | nil => exact .ok ⟨htidy, T.op, T.past, h⟩
  | cons i code ih =>
    rw [length_cons] at hroom
    rw [outcome_run_cons]
    refine (h.step htidy (hroom.imp_left (by omega)) hres i).with_eq.bind ?_
    rintro r1 w1 ⟨hstep, h1⟩
    obtain ⟨es, hss⟩ := steps_of_step hstep
    have hlabels := labels_of_steps hss
    exact ih (T := ⟨T.result, i.op, w⟩) h1 (htidy.steps hss) hres (hroom.imp_left (by omega))

/-- At the start nothing is written. -/
lemma mirrors_start (t : FuncType) :
    Mirrors ⟨t.result, .nop, Writer.start t⟩ {} (Writer.start t) where
  labels := rfl
  lines := rfl
  temps := rfl
  nextLabel := rfl
  depth := rfl
  dead := rfl
  op := rfl
  writes := ⟨[], by simp, by simp [List.Subperm.refl], by simp, by simp⟩
  stack := rfl

/-! ## Whole functions -/

/-- The number of open constructs, reachable or not, is that of labels but for the body's. -/
lemma Shows.length_labels_eq (h : Shows T r w) : w.labels.length = r.openConstructs + 1 := by
  rw [h.labels, length_append, length_reverse, length_labelsFor, skipped, openConstructs]
  cases r.reach with
  | live => rfl
  | dead nested => simp only [length_replicate, Nat.add_right_comm]

/-- **The end of a body.** -/
theorem Mirrors.finish (env : Surroundings) (h : Mirrors T r w) (htidy : r.Tidy env) :
    Follows stops (fun r1 w1 => r1.constructs = [] ∧ Mirrors ⟨T.result, .endOp, w⟩ r1 w1)
      (r.finish env) (w.finish env) := by
  unfold Writer.finish
  have hnext := h.next .endOp
  generalize { w with op := .endOp } = w' at hnext
  unfold Rebuild.finish Writer.endBody
  rw [hnext.length_labels_eq, hnext.dead]
  by_cases hopen : r.openConstructs = 0
  · have hcs : r.constructs = [] := by
      rw [openConstructs] at hopen
      exact length_eq_zero_iff.mp (by omega)
    have hoperands : r.operands = r.scope.values := by simp [Rebuild.operands, hcs, outside]
    have hstack : w'.stack.length = r.scope.values.length := by
      rw [hnext.stack, length_reverse, hoperands]
    simp only [hstack]
    rw [if_neg (not_not_intro hopen), if_neg (by omega : ¬ r.openConstructs + 1 ≠ 1)]
    cases hr : r.reach with
    | dead nested => exact .ok ⟨hcs, hnext⟩
    | live =>
      have hactive := hnext.active hr htidy
      simp only [Reach.isLive, Bool.not_true, Bool.false_eq_true, if_false]
      cases env.type.result with
      | none =>
        by_cases hn : r.scope.values.length = 0
        · simp only [hn, ne_eq, not_true_eq_false, if_false]
          exact .ok ⟨hcs, hnext⟩
        · simp only [hn, ne_eq, not_false_eq_true, if_true]
          exact .refuse _ _
      | some t =>
        by_cases hn : r.scope.values.length = 1
        · simp only [hn, ne_eq, not_true_eq_false, if_false]
          refine (hactive.popTyped _ t).take fun v vs w1 hvs _ h1 => ?_
          have hempty : (r.withValues vs).operands = [] := by
            simpa [Rebuild.operands, Rebuild.withValues, hcs, outside, hvs] using hn
          refine .ok ⟨hcs, h1.toMirrors.write rfl fun _ v hv => ?_⟩
          rw [hempty] at hv
          cases hv
        · simp only [hn, ne_eq, not_false_eq_true, if_true]
          exact .refuse _ _
  · simp only
    rw [if_pos hopen, if_pos (by omega)]
    refine .bind_right (Checked.sub_ok (Nat.le_add_left 1 _)) ?_
    exact .refuse _ _

/-- The lines of a state without open constructs are those of its statements. -/
lemma Mirrors.text_eq (h : Mirrors T r w) (hcs : r.constructs = []) (m : Module)
    (s : C.Symbols) (index : Nat) (f : Function) (t : FuncType) :
    w.text m s index f t =
      ({ index
         isExported := (m.exportName? .function index).isSome
         type := t
         locals := f.locals
         temps := r.temps.toList
         body := r.scope.code.toList } : C.FunctionDef).text s := by
  have hbody (n : C.Naming) : (w.lines.flatMap fun p => p.2.text n p.1) =
      Stmt.allLines n 1 r.scope.code.toList := by
    rw [h.lines, listing, hcs, ← C.layout_body, C.layout_eq]
    rfl
  rw [Writer.text, hbody, h.temps]
  rfl

/-- **The text of a function can be written line by line**, without any access that is out of range,
as long as there are fewer instructions than numbers for labels. -/
theorem follows_writeFunction (m : Module) (s : C.Symbols) {pos : Nat} {f : Function}
    (hf : m.functions[pos]? = some f) (hcode : f.code.length < 2 ^ 32) :
    Follows False Eq (functionText m s pos).outcome (writeFunction m s pos) := by
  refine .bind_right (Checked.get_ok hf) ?_
  cases ht : m.types[f.typeIndex]? with
  | none =>
    have hnone : (functionText m s pos).outcome =
        .error (.error (.invalid (.functionWithoutType (m.importedFunctions + pos)))) := by
      simp only [functionText, rebuildFunction, hf, ht, Traced.outcome_bind, Traced.outcome_fail]
      rfl
    rw [hnone]
    exact .error _
  | some t =>
    have hrun := (mirrors_start t).run (surroundings m (m.importedFunctions + pos) f t)
      tidy_empty rfl f.code (.inl (by simpa using hcode) : _ ∨ False)
    have hmap {α β γ : Type} (x : Except Failure α) (g : α → Except Failure β) (k : β → γ) :
        (x.bind g).map k = x >>= fun a => g a >>= fun b => .ok (k b) := by
      cases x with
      | error => rfl
      | ok a =>
        change (g a).map k = g a >>= fun b => .ok (k b)
        cases g a <;> rfl
    rw [outcome_functionText s hf ht, hmap]
    refine hrun.bind ?_
    rintro r w ⟨htidy, op, past, h⟩
    refine (h.finish (surroundings m (m.importedFunctions + pos) f t) htidy).bind ?_
    rintro r1 w1 ⟨hcs, h1⟩
    exact .ok (h1.text_eq hcs m s (m.importedFunctions + pos) f t).symm

end WasmToC

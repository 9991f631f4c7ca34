import WasmToC.Proofs.WholeStack

/-!
# Single instructions, line by line

Writing line by line does the same as reconstruction for every instruction that leaves a construct,
works on operands or opens a construct: both accept and refuse the same operands, for the same
reasons, and show the same state afterwards. Before every statement the operands that it would
disturb are settled by a hazard that covers it, so every line is safe.

## Main results

* `Active.leave`, `Active.branch`, `Active.branchIf`,
  `Active.branchTable` — leaving.
* `Active.call`, `Active.callIndirect`, `Active.select`,
  `Active.assignLocal`, `Active.assignGlobal`, `Active.load`,
  `Active.store`, `Active.numeric` — operands.
* `Active.enter` — the start of a construct.
-/

namespace WasmToC

open List Checked
open C (Line Stmt)
open Rebuild

variable {T : Turn} {stops : Prop} {r : Rebuild} {w : Writer} {site : Site} {env : Surroundings}

/-! ## Leaving -/

namespace Hazard

variable {h : Hazard}

/-- A hazard that knows of leaving covers a statement by which control leaves. -/
lemma covers_leaving {s : Stmt} (hassigned : (Line.run s).assigned? = Option.none)
    (hchange : (Line.run s).isChange = false) (hreads : h.readsState = true)
    (hexprs : ∀ x ∈ s.exprs, h.Knows x) : h.Covers (.run s) := by
  refine covers_of_knows (fun i hi => ?_) (fun hc => ?_) (fun _ => hreads) hexprs
  · rw [hassigned] at hi
    cases hi
  · rw [hchange] at hc
    cases hc

end Hazard

/-- The label of the function body is found. -/
lemma Shows.get_body (h : Shows T r w) (hflat : r.Flat) {d target : Nat}
    (htarget : target + d = r.constructs.length) (hnone : r.constructs[d]? = none) :
    get w.labels target = .ok { kind := .body, result := T.result, base := 0 } := by
  rw [List.getElem?_eq_none_iff] at hnone
  obtain rfl : target = r.constructs.length - r.constructs.length := by omega
  refine get_ok ?_
  rw [h.getElem?_labels hflat (Nat.le_refl _), getElem?_labelsFor_length]

@[simp] lemma isBody_labelFor (c : Construct) (cs : List Construct) :
    (labelFor c cs).kind.isBody = false := by
  simp only [labelFor, labelKind]
  cases c.kind <;> rfl

/-- A branch to a construct and one to its label carry the same. -/
@[simp] lemma carriedType_labelFor (c : Construct) (cs : List Construct) :
    Writer.carriedType (labelFor c cs) = Rebuild.carriedType c := by
  simp only [Writer.carriedType, Rebuild.carriedType, labelFor, labelKind]
  cases c.kind <;> rfl

variable (h : Active T r w)
include h

/-- The `return` instruction. -/
lemma Active.leave (site : Site) : Follows stops (Mirrors T) (r.leave site) (w.leave site) := by
  unfold Rebuild.leave Writer.leave
  cases site.around.type.result with
  | none =>
    obtain ⟨w1, hw1, h1⟩ := h.settle_write .leaving (s := .leave none) rfl
      (Hazard.covers_leaving rfl rfl rfl (by simp [Stmt.exprs]))
    exact .bind_right hw1 (.ok h1.kill)
  | some t =>
    refine (h.popTyped site t).take fun v vs w1 _ hv h1 => ?_
    have hknows := (Hazard.knows_evaluating hv).and_left .leaving
    obtain ⟨w2, hw2, h2⟩ := h1.settle_write ((Hazard.evaluating v.uses).and .leaving)
      (s := .leave (some v.expr)) rfl
      (Hazard.covers_leaving rfl rfl (Hazard.readsState_and_leaving _) (by simpa [Stmt.exprs]))
    exact .bind_right hw2 (.ok h2.kill)

/-- Both sides find what a branch leads to. -/
lemma Active.target (site : Site) (d : Nat) :
    Follows stops (fun found target => target + d = r.constructs.length ∧ found = r.constructs[d]?)
      (r.target site d) (w.target site d) := by
  unfold Rebuild.target Writer.target
  rw [h.length_labels h.flat]
  by_cases hlt : d < r.constructs.length
  · rw [dif_pos hlt, if_neg (by omega)]
    refine .bind_right (sub_ok (by omega)) ?_
    rw [sub_ok (by omega)]
    exact .ok ⟨by omega, (getElem?_eq_getElem hlt).symm⟩
  · rw [dif_neg hlt]
    by_cases heq : d = r.constructs.length
    · rw [if_pos heq, if_neg (by omega)]
      refine .bind_right (sub_ok (by omega)) ?_
      rw [sub_ok (by omega)]
      exact .ok ⟨by omega, (getElem?_eq_none (by omega)).symm⟩
    · rw [if_neg heq, if_pos (by omega)]
      exact .refuse site _

/-- A jump to a construct. -/
lemma Active.jump (hclear : r.IsClear .leaving) {d target : Nat}
    (htarget : target + d = r.constructs.length) {c c' : Construct}
    (hc : r.constructs[d]? = some c') (hlabel : c'.label = c.label)
    (hloop : c'.kind = .loop → c'.label.isSome = true) (hroom : r.labels + 1 < 2 ^ 32 ∨ stops) :
    Follows stops (Mirrors T) (.ok (jumpTo d c r)) (w.jump target) := by
  have hclear1 : (r.labelOf d c).2.IsClear .leaving := by
    rwa [Rebuild.IsClear, operands_labelOf hc]
  refine h.labelId htarget hc hlabel hloop hroom fun w1 h1 => ?_
  exact .ok (h1.write_clear hclear1 rfl
    (Hazard.covers_leaving rfl rfl rfl (by simp [Stmt.exprs]))).kill

/-- A value goes into the result temporary of a construct. -/
lemma Active.carryTo {hazard : Hazard} (hclear : r.IsClear hazard)
    {d target : Nat} (htarget : target + d = r.constructs.length) {c : Construct}
    (hc : r.constructs[d]? = some c) (t : ValueType) {v : Pending} (hv : hazard.Knows v.expr) :
    ∃ w1, w.resultTemp target t = .ok ((r.resultTemp d c t).1, w1) ∧ Active T (carryTo d c t v r)
        (w1.write (.assign (.temp (r.resultTemp d c t).1) v.expr)) := by
  obtain ⟨w1, hw1, h1⟩ := h.resultTemp htarget hc rfl t
  have hclear1 : (r.resultTemp d c t).2.IsClear hazard := by
    rwa [Rebuild.IsClear, operands_resultTemp t hc]
  exact ⟨w1, hw1, h1.write_clear hclear1 rfl (Hazard.covers_assign_temp _ hv)⟩

/-- A branch. -/
lemma Active.branch (htidy : r.Tidy env) (hroom : r.labels + 1 < 2 ^ 32 ∨ stops)
    (site : Site) (d : Nat) :
    Follows stops (Mirrors T) (r.branch site d) (w.branch site d) := by
  unfold Rebuild.branch Writer.branch
  refine (h.target site d).bind ?_
  rintro found target ⟨htarget, rfl⟩
  cases hc : r.constructs[d]? with
  | none =>
    refine .bind_right (h.get_body h.flat htarget hc) ?_
    exact h.leave site
  | some c =>
    have hloop : c.kind = .loop → c.label.isSome = true := fun hk =>
      ((htidy.constructs c (mem_of_getElem? hc)).loop hk).1
    refine .bind_right (h.get_label h.flat htarget hc) ?_
    simp only [isBody_labelFor, Bool.false_eq_true, if_false, carriedType_labelFor]
    cases Rebuild.carriedType c with
    | none =>
      obtain ⟨w1, hw1, h1⟩ := h.settle .leaving
      refine .bind_right hw1 ?_
      exact h1.jump (h.isClear_settle .leaving) (by rwa [settle_constructs])
        (by rwa [settle_constructs]) rfl hloop (by rwa [settle_labels])
    | some t =>
      refine (h.popTyped site t).take fun v vs w1 _ hv h1 => ?_
      simp only
      generalize hhazard : (Hazard.evaluating v.uses).and .leaving = hz
      obtain ⟨w2, hw2, h2⟩ := h1.settle hz
      refine .bind_right hw2 ?_
      have hclear := h1.isClear_settle hz
      have hcs : ((r.withValues vs).settle hz).constructs = r.constructs :=
        settle_constructs hz
      have hc2 : ((r.withValues vs).settle hz).constructs[d]? = some c := by rw [hcs, hc]
      have hknows := (Hazard.knows_evaluating hv).and_left .leaving
      rw [hhazard] at hknows
      obtain ⟨w3, hw3, h3⟩ := h2.carryTo hclear (by rw [hcs, htarget]) hc2 t hknows
      refine .bind_right hw3 ?_
      have hclear3 : (Rebuild.carryTo d c t v ((r.withValues vs).settle hz)).IsClear .leaving := by
        rw [← hhazard] at hclear ⊢
        intro x hx
        refine hclear.right rfl x ?_
        rwa [← operands_resultTemp t (hhazard ▸ hc2)]
      have hlen : (((r.withValues vs).settle hz).resultTemp d c t).2.constructs.length =
          r.constructs.length := by rw [length_constructs_resultTemp, hcs]
      refine h3.jump hclear3 (htarget.trans hlen.symm) (getElem?_resultTemp t hc2 rfl) rfl hloop ?_
      change (((r.withValues vs).settle hz).resultTemp d c t).2.labels + 1 < 2 ^ 32 ∨ stops
      rw [labels_resultTemp, settle_labels]
      exact hroom

/-- A conditional branch. -/
lemma Active.branchIf (htidy : r.Tidy env)
    (hroom : r.labels + 1 < 2 ^ 32 ∨ stops) (hres : site.around.type.result = T.result) (d : Nat) :
    Follows stops (Mirrors T) (r.branchIf site d) (w.branchIf site d) := by
  unfold Rebuild.branchIf Writer.branchIf
  refine (h.popTyped site .i32).take fun cond vs w1 _ hsound h1 => ?_
  refine (h1.target site d).bind ?_
  rintro found target ⟨htarget, rfl⟩
  have hcs := settle_constructs (r := r.withValues vs) ((Hazard.evaluating cond.uses).and .leaving)
  have hlabels := settle_labels (r := r.withValues vs) ((Hazard.evaluating cond.uses).and .leaving)
  have hcond := (Hazard.knows_evaluating hsound).and_left .leaving
  obtain ⟨w2, hw2, h2⟩ := h1.settle ((Hazard.evaluating cond.uses).and .leaving)
  refine .bind_right hw2 ?_
  have hclear := h1.isClear_settle ((Hazard.evaluating cond.uses).and .leaving)
  simp only
  generalize (r.withValues vs).settle ((Hazard.evaluating cond.uses).and .leaving) = r2
    at h2 hclear hcs hlabels ⊢
  -- a value that is carried along has no effects, as operands are settled for leaving
  have hcarried : ∀ v ∈ r2.scope.values,
      ((Hazard.evaluating cond.uses).and .leaving).Knows v.expr := by
    intro v hv
    have hno := hclear v (mem_append_left _ hv)
    have heffects := (Hazard.conflicts_eq_false.mp hno).2.2 (Hazard.readsState_and_leaving _)
    exact (Hazard.knows_leaving (h2.sound v hv) heffects).and_right _
  change target + d = r.constructs.length at htarget
  change r2.constructs = r.constructs at hcs
  change r2.labels = r.labels at hlabels
  rw [← hcs] at htarget
  rw [← hlabels] at hroom
  generalize hc : (r.withValues vs).constructs[d]? = found
  change r.constructs[d]? = found at hc
  cases found with
  | none =>
    refine .bind_right (h2.get_body h2.flat htarget (by rw [hcs, hc])) ?_
    simp only [LabelKind.isBody, if_true, hres]
    cases T.result with
    | none =>
      exact .ok (h2.write_clear hclear rfl (Hazard.covers_leaving rfl rfl
        (Hazard.readsState_and_leaving _) (by simpa [Stmt.exprs] using hcond))).toMirrors
    | some t =>
      refine (h2.peekTyped site t).bind ?_
      rintro _ v ⟨rfl, hmem⟩
      exact .ok (h2.write_clear hclear rfl (Hazard.covers_leaving rfl rfl
        (Hazard.readsState_and_leaving _)
        (by simpa [Stmt.exprs] using ⟨hcond, hcarried v hmem⟩))).toMirrors
  | some c =>
    have hloop : c.kind = .loop → c.label.isSome = true := fun hk =>
      ((htidy.constructs c (mem_of_getElem? hc)).loop hk).1
    have hc2 : r2.constructs[d]? = some c := by rw [hcs, hc]
    refine .bind_right (h2.get_label h2.flat htarget hc2) ?_
    simp only [isBody_labelFor, Bool.false_eq_true, if_false, carriedType_labelFor]
    have hclear3 : (r2.labelOf d c).2.IsClear ((Hazard.evaluating cond.uses).and .leaving) := by
      rwa [Rebuild.IsClear, operands_labelOf hc2]
    cases Rebuild.carriedType c with
    | none =>
      refine h2.labelId htarget hc2 rfl hloop hroom fun w3 h3 => ?_
      exact .ok (h3.write_clear hclear3 rfl (Hazard.covers_leaving rfl rfl
        (Hazard.readsState_and_leaving _) (by simpa [Stmt.exprs] using hcond))).toMirrors
    | some t =>
      refine (h2.peekTyped site t).bind ?_
      rintro _ v ⟨rfl, hmem⟩
      refine h2.labelId htarget hc2 rfl hloop hroom fun w3 h3 => ?_
      have hc3 := getElem?_labelOf hc2
      obtain ⟨w4, hw4, h4⟩ := h3.resultTemp (by rwa [length_constructs_labelOf]) hc3 rfl t (c := c)
      have hclear4 : ((r2.labelOf d c).2.resultTemp d c t).2.IsClear
          ((Hazard.evaluating cond.uses).and .leaving) := by
        rwa [Rebuild.IsClear, operands_resultTemp t hc3]
      refine .bind_right hw4 (.ok (h4.write_clear hclear4 rfl (Hazard.covers_leaving rfl rfl
        (Hazard.readsState_and_leaving _)
        (by simpa [Stmt.exprs] using ⟨hcond, hcarried v hmem⟩))).toMirrors)

/-! ## Other instructions -/

/-- The evaluation of a value for its effects. -/
lemma Active.discard {v : Pending} (hv : v.Sound) :
    ∃ w1, w.discard v = .ok w1 ∧ Active T (r.discard v) w1 := by
  unfold Rebuild.discard Writer.discard
  split
  · obtain ⟨w1, hw1, h1⟩ := h.settle_write (.evaluating v.uses) (s := .discard v.expr) rfl
      (Hazard.covers_of_knows (fun i hi => by cases hi) (fun hc => by cases hc)
        (fun hl => by cases hl)
        (by simpa [Line.exprs, Stmt.exprs] using Hazard.knows_evaluating hv))
    refine ⟨_, ?_, h1⟩
    rw [hw1]
    rfl
  · exact ⟨w, rfl, h⟩

/-- A branch table. -/
lemma Active.branchTable (htidy : r.Tidy env)
    (hroom : r.labels + 1 < 2 ^ 32 ∨ stops) (site : Site) (imm : Immediate) :
    Follows stops (Mirrors T) (r.branchTable site imm) (w.branchTable site imm) := by
  unfold Rebuild.branchTable Writer.branchTable
  cases imm with
  | table targets default =>
    cases targets with
    | cons target targets => exact .error _
    | nil =>
    refine (h.popTyped site .i32).take fun v vs w1 hvs hv h1 => ?_
    obtain ⟨w2, hw2, h2⟩ := h1.discard hv
    have htidy1 := (htidy.uncons hvs).2.discard v
    exact .bind_right hw2 (h2.branch htidy1 (by rwa [(frame_discard v).2]) site _)
  | _ => exact .error _

/-- A call. -/
lemma Active.call (site : Site) (index : Nat) :
    Follows stops (Mirrors T) (r.call site index) (w.call site index) := by
  unfold Rebuild.call Writer.call
  refine .of_need site _ fun t => ?_
  refine (h.sequence site t.params.length).bind ?_
  rintro _ w1 ⟨-, h1⟩
  refine (h1.popArgs site t.params).bind ?_
  rintro ⟨_, r2⟩ ⟨args, w2⟩ ⟨rfl, -, h2⟩
  cases t.result with
  | some type => exact .ok (h2.push _)
  | none =>
    obtain ⟨w3, hw3, h3⟩ := h2.settle_write .effect (s := .call index (args.map Pending.expr)) rfl
      (Hazard.covers_of_knows (fun i hi => by cases hi) (fun _ => rfl) (fun _ => rfl)
        (fun x _ => Hazard.knows_effect x))
    exact .bind_right hw3 (.ok h3.toMirrors)

omit h in
/-- The effects of the operands of an indirect call, and the trap. -/
lemma Active.trapIndirect (h : Active T r w) (hop : T.op = .callIndirect)
    (operands : List Pending) :
    Active T (trapIndirect operands r)
      (((operands.filter fun v => v.uses.effects).foldl (fun w v => w.write (.discard v.expr))
        w).write (.trap .indirectCall)) := by
  refine Active.write ?_ rfl fun hne => absurd hop hne
  generalize operands.filter _ = effects
  induction effects generalizing r w with
  | nil => exact h
  | cons v effects ih => exact ih (h.write rfl fun hne => absurd hop hne)

/-- An indirect call. -/
lemma Active.callIndirect (hop : T.op = .callIndirect) (site : Site) (typeIndex : Nat) :
    Follows stops (Mirrors T) (r.callIndirect site typeIndex) (w.callIndirect site typeIndex) := by
  unfold Rebuild.callIndirect Writer.callIndirect
  refine .of_need site _ fun t => ?_
  refine (h.popTyped site .i32).take fun callee vs w1 _ _ h1 => ?_
  refine (h1.popArgs site t.params).bind ?_
  rintro ⟨_, r2⟩ ⟨args, w2⟩ ⟨rfl, -, h2⟩
  obtain ⟨w3, hw3, h3⟩ := h2.settle .leaving
  refine .bind_right hw3 ?_
  have htrap := h3.trapIndirect hop (args ++ [callee])
  cases t.result with
  | some type => exact .ok (htrap.push _)
  | none => exact .ok htrap.toMirrors

omit h in
/-- The marks of the second and third operand, by their distance from the last one. -/
lemma getElem?_selectFlags {n d : Nat} (hn : 3 ≤ n) (hd : d < n) :
    (((List.replicate n false).set (n - 3) true).set (n - 2) true)[n - 1 - d]? =
      some (d = 1 || d = 2) := by
  rw [getElem?_set, getElem?_set, getElem?_replicate]
  by_cases hone : d = 1
  · subst hone
    rw [if_pos (by omega), if_pos (by simp; omega)]
    rfl
  rw [if_neg (by omega)]
  by_cases htwo : d = 2
  · subst htwo
    rw [if_pos (by omega), if_pos (by simp; omega)]
    rfl
  rw [if_neg (by omega), if_pos (by omega)]
  simp [hone, htwo]

/-- A choice between two operands. -/
lemma Active.select (site : Site) : Follows stops (Mirrors T) (r.select site) (w.select site) := by
  unfold Rebuild.select Writer.select
  rw [h.require]
  by_cases hn : 3 ≤ r.scope.values.length
  · have hlen := h.length_stack
    rw [Rebuild.require, if_neg (by omega)]
    refine .bind_right rfl (.bind_right (sub_ok (by omega))
      (.bind_right (sub_ok (by omega)) (.bind_right (set_ok (by simp; omega) true)
      (.bind_right (set_ok (by simp; omega) true) ?_))))
    have hflags := h.flags_eq (((List.replicate w.stack.length false).set (w.stack.length - 3)
      true).set (w.stack.length - 2) true) (fun i _ => i = 1 || i = 2) (by simp)
      (fun d v hv => ?_) (fun d hd hlt => ?_)
    · obtain ⟨w1, hw1, h1⟩ := h.spill _ .none hflags length_replicate
      refine .bind_right hw1 ((h1.popTyped site .i32).take fun cond _ _ _ _ h2 => ?_)
      refine (h2.pop site).take fun second _ _ _ _ h3 => ?_
      refine (h3.popTyped site _).take fun first _ _ _ _ h4 => ?_
      exact .ok (h4.push _)
    · have hd := (List.getElem?_eq_some_iff.mp hv).1
      exact getElem?_selectFlags (by omega) (by omega)
    · rw [getElem?_selectFlags (by omega) hlt]
      have hone : d ≠ 1 := by omega
      have htwo : d ≠ 2 := by omega
      simp [hone, htwo]
  · rw [Rebuild.require, if_pos (by omega)]
    exact .error _

/-- The assignment of a local. -/
lemma Active.assignLocal (site : Site) (index : Nat) (keep : Bool) :
    Follows stops (Mirrors T) (r.assignLocal site index keep) (w.assignLocal site index keep) := by
  unfold Rebuild.assignLocal Writer.assignLocal
  refine .of_need site _ fun t => ?_
  refine (h.popTyped site t).take fun v vs w1 _ hv h1 => ?_
  have hknows := (Hazard.knows_evaluating hv).and_right (.assigning index)
  obtain ⟨w2, hw2, h2⟩ := h1.settle_write
    ((Hazard.assigning index).and (.evaluating v.uses)) (s := .assign (.var index) v.expr) rfl
    (Hazard.covers_of_knows (fun i hi => hi) (fun hc => by cases hc) (fun hl => by cases hl)
      (by simpa [Line.exprs, Stmt.exprs] using hknows))
  refine .bind_right hw2 ?_
  cases keep with
  | true => exact .ok (h2.push _)
  | false => exact .ok h2.toMirrors

/-- The assignment of a global. -/
lemma Active.assignGlobal (site : Site) (index : Nat) :
    Follows stops (Mirrors T) (r.assignGlobal site index) (w.assignGlobal site index) := by
  unfold Rebuild.assignGlobal Writer.assignGlobal
  refine .of_need site _ fun g => ?_
  simp only
  split
  · exact .refuse site _
  · refine (h.popTyped site g.content).take fun v vs w1 _ hv h1 => ?_
    have hknows := (Hazard.knows_evaluating hv).and_left .writing
    obtain ⟨w2, hw2, h2⟩ := h1.settle_write
      ((Hazard.evaluating v.uses).and .writing) (s := .assign (.global index) v.expr) rfl
      (Hazard.covers_of_knows (fun i hi => by cases hi)
        (fun _ => by simp [Hazard.and, Hazard.writing]) (fun hl => by cases hl)
        (by simpa [Line.exprs, Stmt.exprs] using hknows))
    exact .bind_right hw2 (.ok h2.toMirrors)

lemma Active.load (site : Site) (load : Load) (off : Nat) :
    Follows stops (Mirrors T) (r.load site load off) (w.load site load off) := by
  exact (h.popTyped site .i32).take fun _ _ _ _ _ h1 => .ok (h1.push _)

/-- A store. -/
lemma Active.store (site : Site) (store : Store) (off : Nat) :
    Follows stops (Mirrors T) (r.store site store off) (w.store site store off) := by
  unfold Rebuild.store Writer.store
  refine (h.sequence site 2).bind ?_
  rintro _ w1 ⟨-, h1⟩
  refine (h1.popTyped site store.type).take fun value _ _ _ _ h2 => ?_
  refine (h2.popTyped site .i32).take fun addr _ _ _ _ h3 => ?_
  obtain ⟨w4, hw4, h4⟩ := h3.settle_write .effect (s := .store store addr.expr off value.expr) rfl
    (Hazard.covers_of_knows (fun i hi => by cases hi) (fun _ => rfl) (fun _ => rfl)
      (fun y _ => Hazard.knows_effect y))
  exact .bind_right hw4 (.ok h4.toMirrors)

/-- A numeric instruction. -/
lemma Active.numeric (site : Site) (n : Numeric) :
    Follows stops (Mirrors T) (r.numeric site n) (w.numeric site n) := by
  unfold Rebuild.numeric Writer.numeric
  refine (h.sequence site n.shape.arity).bind ?_
  rintro _ w1 ⟨-, h1⟩
  refine (h1.popArgs site _).bind ?_
  rintro ⟨_, r2⟩ ⟨args, w2⟩ ⟨rfl, hlength, h2⟩
  have harity : (C.template n).arity ≤ args.length := by
    rw [hlength, length_replicate]
    exact C.arity_template_le n
  obtain ⟨taken, htaken⟩ := operands_ok harity
  simp only [harity, if_true]
  exact .bind_right htaken (.ok (h2.push _))

/-! ## Opening constructs -/

omit h in
lemma emitAll_eq (lines : List Line) (w : Writer) : w.emitAll lines = { w with
      lines := w.lines ++ lines.map fun line => (w.depth, line)
      journal := w.journal ++ lines.map fun line => ⟨w.op, w.stack, line⟩ } := by
  unfold Writer.emitAll
  induction lines generalizing w with
  | nil => simp
  | cons line lines ih => simp [ih, Writer.emit, Writer.emitBelow]

/-- **Opening a construct** behind operands that are stable. -/
theorem Active.openConstruct
    (hstable : ∀ v ∈ r.scope.values, v.uses.isStable = true) {kind : ConstructKind}
    {type : Option ValueType} {label : Option Nat} {lines : List Line} {kind' : LabelKind}
    (hopening : opening { kind, result := type, label, enclosing := r.scope } = lines)
    (hnest : C.nest (r.constructs.length + 1) lines =
      lines.map fun line => (r.constructs.length + 1, line))
    (hk : labelKind { kind, result := type, label, enclosing := r.scope } r.constructs = kind') :
    Mirrors T (r.openConstruct kind type label) ((w.emitAll lines).openLabel kind' type label) := by
  rw [emitAll_eq]
  have houtside : outside (r.openConstruct kind type label).constructs = r.operands := by
    simp [Rebuild.openConstruct, outside, Rebuild.operands]
  exact { h with
    labels := by
      rw [skipped_of_flat (r := r.openConstruct kind type label) h.flat, append_nil,
        Rebuild.openConstruct, labelsFor, reverse_cons, labelFor, hk]
      have hbase :
        w.stack.length = (outside (r.openConstruct kind type label).constructs).length := by
        rw [houtside, h.stack, length_reverse]
      rw [Writer.openLabel, h.labels_eq h.flat, hbase]
      rfl
    lines := by
      simp only [Writer.openLabel, listing, Rebuild.openConstruct, trunk, hopening, C.nest_append,
        C.depthAfter_flattenAll, hnest, h.lines, h.depth, listing]
      simp [C.nest]
    depth := by simp [Writer.openLabel, Rebuild.openConstruct, h.depth]
    writes := by
      refine writes_lines h.writes h.op w.depth w.stack fun _ line _ => ?_
      refine Entry.isSafe_of_isStable fun v hv => ?_
      rw [h.stack, mem_reverse, Rebuild.operands] at hv
      rcases mem_append.mp hv with hv | hv
      · exact hstable v hv
      · exact h.stable v hv
    stack := by
      rw [Rebuild.operands, houtside]
      exact h.stack }

/-- A `block`, `loop` or `if`. -/
lemma Active.enter (hroom : r.labels + 1 < 2 ^ 32 ∨ stops) (site : Site)
    (opcode : Opcode) (type : Option ValueType) :
    Follows stops (Mirrors T) (r.enter site opcode type) (w.enter site opcode type) := by
  have hstable {r : Rebuild} : ∀ v ∈ r.spillAll.scope.values, v.uses.isStable = true :=
    fun v hv => isStable_of_mem_spillAll hv
  have hblock : Follows stops (Mirrors T) (.ok (r.spillAll.openConstruct .block type none)) (do
      let w ← w.spillAll
      return (w.emitAll [.openBlock]).openLabel .block type none) := by
    obtain ⟨w1, hw1, h1⟩ := h.spillAll
    exact .bind_right hw1 (.ok (h1.openConstruct hstable rfl rfl rfl))
  cases opcode with
  | loop =>
    obtain ⟨w1, hw1, h1⟩ := h.spillAll
    have hlabels : r.spillAll.labels = r.labels := spill_labels _ _
    refine .bind_right hw1 ?_
    rw [Writer.newLabel, h1.nextLabel]
    by_cases hlt : r.spillAll.labels + 1 < 2 ^ 32
    · rw [if_pos hlt]
      have h2 : Active T { r.spillAll with labels := r.spillAll.labels + 1 }
          { w1 with nextLabel := r.spillAll.labels + 1 } := { h1 with nextLabel := rfl }
      exact .ok (h2.openConstruct hstable rfl rfl rfl)
    · rw [if_neg hlt]
      rw [hlabels] at hlt
      exact .stop (hroom.resolve_left hlt)
  | ifOp =>
    refine (h.popTyped site .i32).take fun cond vs w1 _ _ h1 => ?_
    obtain ⟨w2, hw2, h2⟩ := h1.spillAll
    refine .bind_right hw2 (.ok (h2.openConstruct hstable rfl rfl ?_))
    simp [labelKind, front, h2.lines, listing]
  | _ => exact hblock

end WasmToC

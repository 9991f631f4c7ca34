import Mathlib.Algebra.Ring.Nat
import Mathlib.Data.List.Basic
import WasmToC.Proofs.Evaluation

/-!
# Evaluation in any order

C does not say in which order operands are evaluated. For an orderly expression it does not matter:
every step of the evaluation keeps the result of the evaluation from left to right and leaves less
to evaluate. So a line whose operands are orderly does the same on every run, and if evaluation from
left to right comes to a load that is out of bounds, every run ends there.

## Main definitions

* `C.Expr.work` — how much of an expression is still to be evaluated.
* `C.Expr.Shrinks` — what a step changes about an expression, apart from its value.
* `C.Faulted` — a run that has ended at an access that is out of bounds.

## Main results

* `C.Expr.Step.eval_eq` — no step of an orderly expression changes its result.
* `C.Line.eventually` — a line with orderly operands does the same on every run.
-/

namespace WasmToC.C

open List

variable {μ σ : Type} {es : List Expr} {w w' : World μ σ} {vs : List Value}

namespace Expr

variable {H : Host μ σ} {n : Naming} {F F' : Frame} {a e e' : Expr}

/-! ## Steps of operands -/

/-- A step of one of several operands is a step of one of them. -/
lemma stepAny_iff {es' : List Expr} : StepAny H n F es w es' w' ↔
      ∃ pre e e' post, es = pre ++ e :: post ∧ es' = pre ++ e' :: post ∧ Step H n F e w e' w' := by
  constructor
  · intro h
    induction es generalizing es' with
    | nil => cases h
    | cons a es ih =>
      cases h with
      | head h => exact ⟨[], a, _, es, rfl, rfl, h⟩
      | tail h =>
        obtain ⟨pre, e, e', post, rfl, rfl, he⟩ := ih h
        exact ⟨a :: pre, e, e', post, rfl, rfl, he⟩
  · rintro ⟨pre, e, e', post, rfl, rfl, h⟩
    induction pre with
    | nil => exact .head h
    | cons a pre ih => exact .tail ih

/-- The expression with other operands that are evaluated first. -/
def withFirst : Expr → List Expr → Expr
  | .memoryGrow _, [delta] => .memoryGrow delta
  | .load op _ off, [addr] => .load op addr off
  | .call f _, args => .call f args
  | .numeric op _, args => .numeric op args
  | .choose _ yes no, [cond] => .choose cond yes no
  | e, _ => e

/-- An expression given as many other operands has just these, and is the same otherwise. -/
lemma withFirst_spec (e : Expr) (es : List Expr) (h : es.length = e.first.length) :
    (e.withFirst es).first = es ∧ (e.withFirst es).alternatives = e.alternatives ∧
      (e.withFirst es).isRead = e.isRead ∧ (e.withFirst es).isEffect = e.isEffect ∧
      (e.withFirst es).isOpen = e.isOpen := by
  cases e with
  | call | numeric => exact ⟨rfl, rfl, rfl, rfl, rfl⟩
  | memoryGrow | load | choose =>
    obtain ⟨a, rfl⟩ := length_eq_one_iff.mp h
    exact ⟨rfl, rfl, rfl, rfl, rfl⟩
  | _ =>
    obtain rfl := length_eq_zero_iff.mp h
    exact ⟨rfl, rfl, rfl, rfl, rfl⟩

lemma reduce_withFirst (w : World μ σ) (e : Expr) (es : List Expr) (vs : List Value) :
    reduce H n F w (e.withFirst es) vs = reduce H n F w e vs := by
  unfold withFirst
  split <;> rcases vs with _ | ⟨_, _ | _⟩ <;> rfl

/-- An answer becomes a constant. -/
lemma answer_of_reduce {fault : Option (World μ σ)} {x : Option (Value × World μ σ)}
    (h : ((answer fault x).andThen fun v w => .ok (.const v, w)) = .ok (e', w')) :
    ∃ v, x = some (v, w') ∧ e' = .const v := by
  rcases x with _ | ⟨v, w1⟩ <;> cases h
  exact ⟨v, rfl, rfl⟩

lemma read_of_reduce {fault : Option (World μ σ)} {x : Option Value}
    (h : ((answer fault (x.map (·, w))).andThen fun v w => .ok (.const v, w)) = .ok (e', w')) :
    ∃ v, x = some v ∧ e' = .const v ∧ w' = w := by
  rcases x with _ | v <;> cases h
  exact ⟨v, rfl, rfl, rfl⟩

/-- What an expression becomes is an alternative, or a constant. -/
lemma reduce_eq_ok (h : reduce H n F w e vs = .ok (e', w')) :
    e' ∈ e.alternatives ∧ w' = w ∨ ∃ v, e' = .const v ∧ apply H n F w e vs = .ok (v, w') := by
  unfold reduce at h
  split at h
  · cases h
    refine .inl ⟨?_, rfl⟩
    split <;> simp [alternatives]
  · rcases hv : apply H n F w e vs with _ | ⟨v, w1⟩ <;> rw [hv] at h <;> cases h
    exact .inr ⟨v, rfl, rfl⟩

/-- **A step of an expression** is one of an operand, or the expression becomes another one because
the operands that are evaluated first are constants. -/
theorem step_iff : Step H n F e w e' w' ↔ (∃ pre a a' post, e.first = pre ++ a :: post ∧
      e' = e.withFirst (pre ++ a' :: post) ∧ Step H n F a w a' w') ∨
      e.isOpen = true ∧ ∃ vs, e.first = vs.map .const ∧ reduce H n F w e vs = .ok (e', w') := by
  constructor
  · intro h
    cases h with
    | zero | memorySize => exact .inr ⟨rfl, [], rfl, rfl⟩
    | var h | temp h | global h =>
      exact .inr ⟨rfl, [], rfl, by simp [reduce, apply, h, answer]⟩
    | grow h => exact .inr ⟨rfl, [_], rfl, by simp [reduce, apply, h, answer]⟩
    | load h => exact .inr ⟨rfl, [_], rfl, by simp [reduce, apply, h, answer]⟩
    | @call _ args _ _ _ h => exact .inr ⟨rfl, args, rfl, by simp [reduce, apply, h, answer]⟩
    | @numeric _ args => exact .inr ⟨rfl, args, rfl, rfl⟩
    | @choose c => exact .inr ⟨rfl, [c], rfl, rfl⟩
    | growOperand h | loadOperand h | chooseOperand h => exact .inl ⟨[], _, _, [], rfl, rfl, h⟩
    | callOperand h | numericOperand h =>
      obtain ⟨pre, a, a', post, rfl, rfl, ha⟩ := stepAny_iff.mp h
      exact .inl ⟨pre, a, a', post, rfl, rfl, ha⟩
  · rintro (⟨pre, a, a', post, hfirst, rfl, h⟩ | ⟨hopen, vs, hvs, h⟩)
    · have hsingle : ∀ {d : Expr}, [d] = pre ++ a :: post → pre = [] ∧ d = a ∧ post = [] := by
        cases pre <;> simp
      cases e with
      | memoryGrow =>
        obtain ⟨rfl, rfl, rfl⟩ := hsingle hfirst
        exact .growOperand h
      | load =>
        obtain ⟨rfl, rfl, rfl⟩ := hsingle hfirst
        exact .loadOperand h
      | choose =>
        obtain ⟨rfl, rfl, rfl⟩ := hsingle hfirst
        exact .chooseOperand h
      | call => exact .callOperand (stepAny_iff.mpr ⟨pre, a, a', post, hfirst, rfl, h⟩)
      | numeric => exact .numericOperand (stepAny_iff.mpr ⟨pre, a, a', post, hfirst, rfl, h⟩)
      | _ => simp [first] at hfirst
    · have hsingle : ∀ {d : Expr}, [d] = vs.map .const → ∃ v, vs = [v] ∧ d = .const v := by
        rcases vs with _ | ⟨v, _ | _⟩ <;> simp
      cases e with
      | const => cases hopen
      | zero => cases h; exact .zero
      | memorySize => cases h; exact .memorySize
      | var =>
        obtain ⟨v, hv, rfl, rfl⟩ := read_of_reduce h
        exact .var hv
      | temp =>
        obtain ⟨v, hv, rfl, rfl⟩ := read_of_reduce h
        exact .temp hv
      | global =>
        obtain ⟨v, hv, rfl, rfl⟩ := read_of_reduce h
        exact .global hv
      | memoryGrow =>
        obtain ⟨d, rfl, rfl⟩ := hsingle hvs
        obtain ⟨v, hv, rfl⟩ := answer_of_reduce h
        exact .grow hv
      | load =>
        obtain ⟨a, rfl, rfl⟩ := hsingle hvs
        obtain ⟨v, hv, rfl, rfl⟩ := read_of_reduce h
        exact .load hv
      | call =>
        obtain ⟨v, hv, rfl⟩ := answer_of_reduce h
        obtain rfl := hvs
        exact .call hv
      | numeric =>
        cases h
        obtain rfl := hvs
        exact .numeric
      | choose =>
        obtain ⟨c, rfl, rfl⟩ := hsingle hvs
        cases h
        exact .choose

/-! ## What a step changes -/

/-- How much of an expression is still to be evaluated. -/
def work (e : Expr) : Nat := e.parts.countP isOpen

/-- What is still to be evaluated in an expression is itself and what is in its operands. -/
lemma work_eq (e : Expr) : e.work = (e.operands.map work).sum + if e.isOpen then 1 else 0 := by
  have h : ∀ es : List Expr, (es.flatMap parts).countP isOpen = (es.map work).sum := by
    intro es
    induction es with
    | nil => rfl
    | cons a es ih => rw [flatMap_cons, countP_append, ih, map_cons, sum_cons, work]
  rw [work, parts_eq, countP_cons, h]

/-- What a step changes about an expression, apart from its value. -/
structure Shrinks (e e' : Expr) : Prop where
  /-- It does not gain effects. -/
  effects : e'.effects = true → e.effects = true
  /-- The world does not become important to it. -/
  depends : e'.depends = true → e.depends = true
  /-- There is less to evaluate. -/
  work : e'.work < e.work

/-- An expression shrinks when one of its operands does. -/
lemma Shrinks.withFirst {a' : Expr} {pre post : List Expr} (h : Shrinks a a')
    (he : e.first = pre ++ a :: post) : Shrinks e (e.withFirst (pre ++ a' :: post)) := by
  obtain ⟨hfirst, halt, hr, hf, ho⟩ := withFirst_spec e (pre ++ a' :: post) (by simp [he])
  have hops := operands_eq e
  have hops' := operands_eq (e.withFirst (pre ++ a' :: post))
  rw [he] at hops
  rw [hfirst, halt] at hops'
  refine ⟨?_, ?_, ?_⟩
  · rw [effects_eq, effects_eq, hops, hops', hf]
    simp only [anyEffects, any_append, any_cons, Bool.or_eq_true]
    have := h.effects
    grind
  · rw [depends_eq, depends_eq, hops, hops', hf, hr]
    simp only [anyDepends, any_append, any_cons, Bool.or_eq_true]
    have := h.depends
    grind
  · rw [work_eq e, work_eq (e.withFirst _), hops, hops', ho]
    simp only [map_append, map_cons, sum_append, sum_cons]
    have := h.work
    omega

lemma shrinks_const (he : e.isOpen = true) (v : Value) : Shrinks e (.const v) := by
  refine ⟨by simp [effects, parts, isEffect], by simp [depends, effects, reads, parts, isRead,
    isEffect], ?_⟩
  rw [work_eq e, he]
  simp [work, parts, isOpen]

/-- An operand is less than the expression. -/
lemma shrinks_operand (he : e.isOpen = true) (ha : a ∈ e.operands) : Shrinks e a := by
  refine ⟨fun h => ?_, fun h => ?_, ?_⟩
  · by_contra hne
    rw [effects_operand (by simpa using hne) ha] at h
    cases h
  · by_contra hnd
    rw [depends_operand (by simpa using hnd) ha] at h
    cases h
  · obtain ⟨pre, post, hops⟩ := append_of_mem ha
    rw [work_eq e, he, hops]
    simp only [map_append, map_cons, sum_append, sum_cons, if_true]
    omega

/-- A step makes an expression shrink. -/
lemma Step.shrinks (h : Step H n F e w e' w') : Shrinks e e' := by
  induction e using induct_operands generalizing e' w w' with
  | _ e ih =>
    rcases step_iff.mp h with ⟨pre, a, a', post, hfirst, rfl, ha⟩ | ⟨hopen, vs, -, hr⟩
    · exact (ih a (by simp [operands_eq, hfirst]) ha).withFirst hfirst
    · rcases reduce_eq_ok hr with ⟨halt, -⟩ | ⟨v, rfl, -⟩
      · exact shrinks_operand hopen (by simp [operands_eq, halt])
      · exact shrinks_const hopen v

/-- A step of an expression without effects leaves the world alone. -/
lemma Step.world_eq (hne : e.effects = false) (h : Step H n F e w e' w') : w' = w := by
  induction e using induct_operands generalizing e' w w' with
  | _ e ih =>
    rcases step_iff.mp h with ⟨pre, a, a', post, hfirst, rfl, ha⟩ | ⟨-, vs, -, hr⟩
    · have hmem : a ∈ e.operands := by simp [operands_eq, hfirst]
      exact ih a hmem (effects_operand hne hmem) ha
    · rcases reduce_eq_ok hr with ⟨-, hw⟩ | ⟨v, -, hv⟩
      · exact hw
      · rw [effects_eq, Bool.or_eq_false_iff] at hne
        have hs := apply_stays (H := H) (n := n) (F := F) hne.1 vs w
        rw [hv] at hs
        cases hs
        rfl

/-- A step of an expression that does not depend on the world is possible in all of them. -/
lemma Step.of_not_depends (hF : n.Clear F) (hnd : e.depends = false) (h : Step H n F e w e' w')
    (u : World μ σ) : Step H n F e u e' u := by
  induction e using induct_operands generalizing e' w w' with
  | _ e ih =>
    rcases step_iff.mp h with ⟨pre, a, a', post, hfirst, rfl, ha⟩ | ⟨hopen, vs, hvs, hr⟩
    · have hmem : a ∈ e.operands := by simp [operands_eq, hfirst]
      exact step_iff.mpr
        (.inl ⟨pre, a, a', post, hfirst, rfl, ih a hmem (depends_operand hnd hmem) ha⟩)
    · rw [depends_eq] at hnd
      simp only [Bool.or_eq_false_iff] at hnd
      refine step_iff.mpr (.inr ⟨hopen, vs, hvs, ?_⟩)
      unfold reduce at hr ⊢
      split at hr
      · cases hr
        rfl
      · cases apply_fixed (H := H) hF hnd.1.1 hnd.1.2 vs with
        | ok v hv =>
          rw [hv] at hr ⊢
          cases hr
          rfl
        | fails hv =>
          rw [hv] at hr
          cases hr

/-- An expression that shrinks stays compatible with others. -/
lemma Shrinks.compatible {a' b : Expr} (h : Shrinks a a') (hc : a.Compatible b) :
    a'.Compatible b := by
  refine ⟨fun he => hc.1 (h.effects he), fun hb => ?_⟩
  cases hd : a'.depends with
  | false => rfl
  | true => exact absurd (h.depends hd) (by simp [hc.2 hb])

lemma Compatible.symm {b : Expr} (h : a.Compatible b) : b.Compatible a := ⟨h.2, h.1⟩

/-- Operands stay orderly when one of them shrinks and is orderly. -/
lemma AllOrderly.replace {pre post : List Expr} (h : AllOrderly (pre ++ e :: post))
    (hs : Shrinks e e') (ho : e'.Orderly) : AllOrderly (pre ++ e' :: post) := by
  rw [allOrderly_iff] at h ⊢
  obtain ⟨hall, hpair⟩ := h
  rw [pairwise_append, pairwise_cons] at hpair ⊢
  obtain ⟨hb, ⟨he, ha⟩, hba⟩ := hpair
  refine ⟨?_, hb, ⟨fun a h => hs.compatible (he a h), ha⟩, ?_⟩
  · intro a h
    rcases mem_append.mp h with h | h
    · exact hall a (by simp [h])
    · rcases mem_cons.mp h with rfl | h
      · exact ho
      · exact hall a (by simp [h])
  · intro a h b h'
    rcases mem_cons.mp h' with rfl | h'
    · exact (hs.compatible (hba a h e mem_cons_self).symm).symm
    · exact hba a h b (mem_cons_of_mem e h')

lemma orderly_iff : e.Orderly ↔ AllOrderly e.first ∧ ∀ a ∈ e.alternatives, a.Orderly := by
  cases e <;> simp [Orderly, AllOrderly, first, alternatives]

/-- A step of an orderly expression leaves it orderly. -/
lemma Step.orderly (ho : e.Orderly) (h : Step H n F e w e' w') : e'.Orderly := by
  induction e using induct_operands generalizing e' w w' with
  | _ e ih =>
    obtain ⟨hall, halts⟩ := orderly_iff.mp ho
    rcases step_iff.mp h with ⟨pre, a, a', post, hfirst, rfl, ha⟩ | ⟨-, vs, -, hr⟩
    · rw [hfirst] at hall
      have hoa := ih a (by simp [operands_eq, hfirst]) ((allOrderly_iff.mp hall).1 a (by simp)) ha
      obtain ⟨hfirst', halt, -⟩ := withFirst_spec e (pre ++ a' :: post) (by simp [hfirst])
      rw [orderly_iff, hfirst', halt]
      exact ⟨hall.replace ha.shrinks hoa, halts⟩
    · rcases reduce_eq_ok hr with ⟨halt, -⟩ | ⟨v, rfl, -⟩
      · exact halts e' halt
      · trivial

/-- A step of an operand does not change the values of orderly operands. -/
lemma evalAll_of_step (hF : n.Clear F) {pre post : List Expr}
    (ho : AllOrderly (pre ++ e :: post)) (h : Step H n F e w e' w')
    (ih : ∀ {u u' : World μ σ}, Step H n F e u e' u' → eval H n F e' u' = eval H n F e u) :
    evalAll H n F (pre ++ e' :: post) w' = evalAll H n F (pre ++ e :: post) w := by
  have hcompat : ∀ a ∈ pre, a.Compatible e := fun a h =>
    (pairwise_append.mp (allOrderly_iff.mp ho).2).2.2 a h e mem_cons_self
  simp only [evalAll_append, evalAll]
  -- Either the step would be the same after the operands before it, or it may be drawn in front
  -- of them.
  cases hd : e.depends with
  | false =>
    rw [h.world_eq (not_effects_of_not_depends hd)]
    congr
    funext us w1
    rw [ih (h.of_not_depends hF hd w1)]
  | true =>
    cases hf : e.effects with
    | false =>
      have hbe : ∀ a ∈ pre, a.effects = false := by
        intro a ha
        by_contra hae
        rw [(hcompat a ha).1 (by simpa using hae)] at hd
        cases hd
      obtain rfl := h.world_eq hf
      have hs := evalAll_stays (H := H) (n := n) (F := F) hbe w'
      generalize evalAll H n F pre w' = x at hs
      cases hs with
      | ok us => simp only [Evaluated.andThen_ok, ih h]
      | faults | fails => rfl
    | true =>
      cases evalAll_fixed (H := H) hF fun a ha => (hcompat a ha).2 hf with
      | ok us hus => simp only [hus, Evaluated.andThen_ok, ih h]
      | fails hus => simp only [hus, Evaluated.andThen_error]

/-- **No step of an orderly expression changes its result.** -/
theorem Step.eval_eq (hF : n.Clear F) (ho : e.Orderly) (h : Step H n F e w e' w') :
    eval H n F e' w' = eval H n F e w := by
  induction e using induct_operands generalizing e' w w' with
  | _ e ih =>
    rcases step_iff.mp h with ⟨pre, a, a', post, hfirst, rfl, ha⟩ | ⟨-, vs, hvs, hr⟩
    · have hall := (orderly_iff.mp ho).1
      rw [hfirst] at hall
      obtain ⟨hfirst', -⟩ := withFirst_spec e (pre ++ a' :: post) (by simp [hfirst])
      rw [Expr.eval_eq w', Expr.eval_eq (e := e) w, hfirst', hfirst,
        evalAll_of_step hF hall ha fun h => ih a (by simp [operands_eq, hfirst])
          ((allOrderly_iff.mp hall).1 a (by simp)) h]
      simp only [reduce_withFirst]
    · rw [Expr.eval_eq (e := e) w, hvs, evalAll_consts]
      simp [hr]

/-! ## Progress -/

/-- A load that is out of bounds is to be evaluated. -/
inductive AtFault (H : Host μ σ) (w : World μ σ) : Expr → Prop
  /-- It is the expression itself. -/
  | load {op : Load} {a : Value} {off : Nat} (h : w.load H op a off = none) :
      AtFault H w (.load op (.const a) off)
  /-- It is in an operand. -/
  | operand {e a : Expr} (ha : a ∈ e.first) (h : AtFault H w a) : AtFault H w e

/-- Only a load that is out of bounds keeps a fault from becoming something else. -/
lemma atFault_of_reduce (hvs : e.first = vs.map .const)
    (h : reduce H n F w e vs = .error (some w')) : AtFault H w e ∧ w' = w := by
  have happly : apply H n F w e vs = .error (some w') := by
    unfold reduce at h
    split at h
    · cases h
    · rcases hx : apply H n F w e vs with _ | ⟨v, w1⟩ <;> rw [hx] at h <;> cases h
      rfl
  cases e with
  | load op addr off =>
    rcases vs with _ | ⟨v, _ | ⟨_, vs⟩⟩ <;> simp only [first, map_cons, map_nil, cons.injEq,
      reduceCtorEq, and_false] at hvs
    obtain ⟨rfl, -⟩ := hvs
    cases hl : w.load H op v off with
    | none =>
      simp only [apply, hl, Option.map_none, answer, Except.error.injEq,
        Option.some.injEq] at happly
      exact ⟨.load hl, happly.symm⟩
    | some => simp [apply, hl, answer] at happly
  | _ => exact absurd happly (apply_ne_fault rfl _ _ _)

/-- Operands whose evaluation does not fail are constants, or one of them takes a step or has come
to a load that is out of bounds, if that is so for each of them. -/
lemma exists_stepAny (ih : ∀ e ∈ es, eval H n F e w ≠ .error none →
      (∃ v, e = .const v) ∨ (∃ e' w', Step H n F e w e' w') ∨
        AtFault H w e ∧ eval H n F e w = .error (some w))
    (h : evalAll H n F es w ≠ .error none) :
    (∃ vs : List Value, es = vs.map .const) ∨ (∃ es' w', StepAny H n F es w es' w') ∨
      (∃ e ∈ es, AtFault H w e) ∧ evalAll H n F es w = .error (some w) := by
  induction es with
  | nil => exact .inl ⟨[], rfl⟩
  | cons e es ihes =>
    have he : eval H n F e w ≠ .error none := fun he => h (by simp [evalAll, he])
    rcases ih e mem_cons_self he with ⟨v, rfl⟩ | ⟨e', w', hs⟩ | ⟨hat, hfault⟩
    · have heq : evalAll H n F (.const v :: es) w =
          (evalAll H n F es w).andThen fun vs w => .ok (v :: vs, w) := rfl
      have hes : evalAll H n F es w ≠ .error none := fun hes => h (by simp [heq, hes])
      rcases ihes (fun a ha => ih a (mem_cons_of_mem _ ha)) hes with
        ⟨vs, rfl⟩ | ⟨es', w', hs⟩ | ⟨⟨a, ha, hat⟩, hfault⟩
      · exact .inl ⟨v :: vs, rfl⟩
      · exact .inr (.inl ⟨_, w', .tail hs⟩)
      · exact .inr (.inr ⟨⟨a, mem_cons_of_mem _ ha, hat⟩, by simp [heq, hfault]⟩)
    · exact .inr (.inl ⟨_, w', .head hs⟩)
    · exact .inr (.inr ⟨⟨e, mem_cons_self, hat⟩, by simp [evalAll, hfault]⟩)

/-- An expression whose evaluation does not fail is a constant, takes a step, or has come to a load
that is out of bounds. -/
lemma exists_step (h : eval H n F e w ≠ .error none) :
    (∃ v, e = .const v) ∨ (∃ e' w', Step H n F e w e' w') ∨
      AtFault H w e ∧ eval H n F e w = .error (some w) := by
  induction e using induct_operands with
  | _ e ih =>
    rw [eval_eq] at h ⊢
    have hfirst : evalAll H n F e.first w ≠ .error none := fun hfirst => h (by simp [hfirst])
    rcases exists_stepAny (fun a ha => ih a (by simp [operands_eq, ha])) hfirst with
      ⟨vs, hvs⟩ | ⟨es', w', hs⟩ | ⟨⟨a, ha, hat⟩, hfault⟩
    · rw [hvs, evalAll_consts] at h ⊢
      simp only [Evaluated.andThen_ok] at h ⊢
      cases ho : e.isOpen with
      | false => cases e <;> cases ho; exact .inl ⟨_, rfl⟩
      | true =>
        rcases hr : reduce H n F w e vs with (_ | w') | ⟨e', w'⟩
        · simp [hr] at h
        · obtain ⟨hat, rfl⟩ := atFault_of_reduce hvs hr
          exact .inr (.inr ⟨hat, rfl⟩)
        · exact .inr (.inl ⟨e', w', step_iff.mpr (.inr ⟨ho, vs, hvs, hr⟩)⟩)
    · obtain ⟨pre, a, a', post, hfirst, -, ha⟩ := stepAny_iff.mp hs
      exact .inr (.inl ⟨_, w', step_iff.mpr (.inl ⟨pre, a, a', post, hfirst, rfl, ha⟩)⟩)
    · exact .inr (.inr ⟨.operand ha hat, by simp [hfault]⟩)

end Expr

/-! ## Lines -/

/-- An access that is out of bounds is to be evaluated. -/
inductive Line.AtFault (H : Host μ σ) (w : World μ σ) : Line → Prop
  /-- It is a load in an operand. -/
  | load {line : Line} {e : Expr} (he : e ∈ line.operands) (h : e.AtFault H w) : AtFault H w line
  /-- It is a store. -/
  | store {op : Store} {a v : Value} {off : Nat} (h : w.store H op a off v = none) :
      AtFault H w (.run (.store op (.const a) off (.const v)))

/-- A run that has ended at an access that is out of bounds, in a given world. -/
def Faulted (H : Host μ σ) (n : Naming) (whole : List Line) (w : World μ σ) (c : Config μ σ) :
    Prop :=
  ∃ line k F, c = .running (line :: k) F w ∧ line.AtFault H w ∧ ∀ c', ¬ Step H n whole c c'

namespace Line

/-- Whether a line is a store. -/
def isStore : Line → Bool
  | .run (.store _ _ _ _) => true
  | _ => false

/-- What a line in front of the lines `k` does, its operands evaluated from left to right. If an
access was out of bounds, the world in which it was comes with it. -/
def exec (H : Host μ σ) (n : Naming) (F : Frame) (whole : List Line) (line : Line) (k : List Line)
    (w : World μ σ) : Except (Option (World μ σ)) (Config μ σ) :=
  match Expr.evalAll H n F line.operands w with
  | .error fault => .error fault
  | .ok (vs, w) =>
    match line.perform H n F whole vs k w with
    | some c => .ok c
    | none => .error (if line.isStore then some w else none)

variable {H : Host μ σ} {n : Naming} {F : Frame} {whole k : List Line} {line : Line}

/-- A line given as many other operands has just these. -/
lemma operands_withOperands (line : Line) (es : List Expr) (h : es.length = line.operands.length) :
    (line.withOperands es).operands = es := by
  cases line with
  | label | openBlock | openElse | close =>
    obtain rfl := length_eq_zero_iff.mp h
    rfl
  | openIf =>
    obtain ⟨e, rfl⟩ := length_eq_one_iff.mp h
    rfl
  | run s =>
    cases s with
    | call => rfl
    | store =>
      obtain ⟨e, e', rfl⟩ := length_eq_two.mp h
      rfl
    | assign | discard | jumpIf | leaveIf =>
      obtain ⟨e, rfl⟩ := length_eq_one_iff.mp h
      rfl
    | leave value =>
      cases value with
      | none =>
        obtain rfl := length_eq_zero_iff.mp h
        rfl
      | some =>
        obtain ⟨e, rfl⟩ := length_eq_one_iff.mp h
        rfl
    | trap | jump | block | loop | onlyIf | ifElse =>
      obtain rfl := length_eq_zero_iff.mp h
      rfl

lemma isStore_withOperands : (line.withOperands es).isStore = line.isStore := by
  unfold withOperands
  split <;> rfl

/-- With other operands, a line does the same with their values. -/
lemma perform_withOperands (w : World μ σ) :
    (line.withOperands es).perform H n F whole vs k w = line.perform H n F whole vs k w := by
  unfold withOperands
  split <;> rcases vs with _ | ⟨_, _ | ⟨_, _ | _⟩⟩ <;> rfl

/-- A store whose operands are values that cannot be performed is out of bounds. -/
lemma atFault_of_perform (hs : line.isStore = true) (hvs : line.operands = vs.map .const)
    (hp : line.perform H n F whole vs k w = none) : line.AtFault H w := by
  unfold isStore at hs
  split at hs
  · rcases vs with _ | ⟨a, _ | ⟨v, _ | _⟩⟩ <;>
      simp only [operands, map_cons, map_nil, cons.injEq, reduceCtorEq, and_false, and_true] at hvs
    obtain ⟨rfl, rfl⟩ := hvs
    exact .store (by simpa [perform] using hp)
  · cases hs

/-- **A line with orderly operands does, on every run, what it does with their values from left to
right.**

**Proof sketch.** Induction on what is left to evaluate. As long as some operand is not a constant
there is a step, or a load is out of bounds; every step keeps the values and leaves less to
evaluate. Then the line itself is performed, which can be done in one way only. -/
theorem eventually (hF : n.Clear F) {goal : Config μ σ → Prop} (ho : Expr.AllOrderly line.operands)
    (hne : line.exec H n F whole k w ≠ .error none)
    (hok : ∀ {c}, line.exec H n F whole k w = .ok c → Eventually (Step H n whole) goal c)
    (hfault : ∀ {w'}, line.exec H n F whole k w = .error (some w') → ∀ {c},
      Faulted H n whole w' c → goal c) :
    Eventually (Step H n whole) goal (.running (line :: k) F w) := by
  induction hl : (line.operands.map Expr.work).sum using Nat.strongRecOn generalizing line w with
  | ind size ih =>
  subst hl
  have hv : Expr.evalAll H n F line.operands w ≠ .error none := fun hv => hne (by simp [exec, hv])
  by_cases hstep : ∃ c, Step H n whole (.running (line :: k) F w) c
  · refine .step hstep fun c hc => ?_
    cases hc with
    | perform hvs hp => exact hok (by simp [exec, hvs, Expr.evalAll_consts, hp])
    | @operand _ _ _ _ _ w1 hs =>
      obtain ⟨pre, e, e', post, hes, rfl, he⟩ := Expr.stepAny_iff.mp hs
      have hops := operands_withOperands line (pre ++ e' :: post) (by simp [hes])
      rw [hes] at ho
      have hoe := (Expr.allOrderly_iff.mp ho).1 e (by simp)
      have heq : (line.withOperands (pre ++ e' :: post)).exec H n F whole k w1 =
          line.exec H n F whole k w := by
        rw [exec, exec, hops, Expr.evalAll_of_step hF ho he fun h => h.eval_eq hF hoe, hes]
        simp only [isStore_withOperands, perform_withOperands]
      refine ih _ ?_ ?_ (heq ▸ hne) (heq ▸ hok) (heq ▸ hfault) rfl
      · rw [hops, hes]
        have := he.shrinks.work
        simp only [map_append, map_cons, sum_append, sum_cons]
        omega
      · rw [hops]
        exact ho.replace he.shrinks (he.orderly hoe)
  · suffices hat : line.AtFault H w ∧ line.exec H n F whole k w = .error (some w) from
      .done (hfault hat.2 ⟨line, k, F, rfl, hat.1, fun c hc => hstep ⟨c, hc⟩⟩)
    rcases Expr.exists_stepAny (fun e _ => Expr.exists_step) hv with
      ⟨vs, hvs⟩ | ⟨es, w1, hs⟩ | ⟨⟨e, he, hat⟩, heq⟩
    · cases hp : line.perform H n F whole vs k w with
      | some c => exact absurd ⟨c, .perform hvs hp⟩ hstep
      | none =>
        have heq : line.exec H n F whole k w = .error (if line.isStore then some w else none) := by
          simp [exec, hvs, Expr.evalAll_consts, hp]
        cases hs : line.isStore with
        | true => exact ⟨atFault_of_perform hs hvs hp, by simpa [hs] using heq⟩
        | false => exact absurd (by simpa [hs] using heq) hne
    · exact absurd ⟨_, .operand hs⟩ hstep
    · exact ⟨.load he hat, by simp [exec, heq]⟩

end Line

end WasmToC.C

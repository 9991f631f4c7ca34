import WasmToC.Proofs.Inversion

/-!
# Spilling

What is known of the operands after some of them have been evaluated into temporaries: every one is
an old operand or a new temporary, none is in the way of what is about to happen, and those that
were selected are the same whenever they are evaluated.

## Main definitions

* `Rebuild.Settled` — marks that leave nothing in the way of a hazard.
* `Rebuild.OldOrNew` — an operand that was there, or a new temporary.

## Main results

* `Rebuild.not_conflicts_of_mem_settle` — after settling, no operand is in the way.
* `Rebuild.isStable_of_mem_spillAll` — after spilling everything, every operand is stable.
* `Rebuild.sequence_pairwise` — operands in sequence cannot observe each other.
-/

namespace WasmToC

open List

variable {i : Nat} {f : Footprint}

namespace Footprint

lemma mem_addLocals {known new : List Nat} : i ∈ addLocals known new ↔ i ∈ known ∨ i ∈ new := by
  induction new generalizing known with
  | nil => simp [addLocals]
  | cons j rest ih =>
    rw [addLocals, ih]
    split
    · rename_i h
      have hj : j ∈ known := by simpa using h
      grind
    · grind

lemma dependsOnState_of_effects (h : f.effects = true) : f.dependsOnState = true := by
  simp [dependsOnState, h]

lemma isStable_iff : f.isStable = true ↔ f.locals = [] ∧ f.dependsOnState = false := by
  simp [isStable]

lemma not_effects_of_isStable (h : f.isStable = true) : f.effects = false := by
  have := (isStable_iff.mp h).2
  simp only [dependsOnState, Bool.or_eq_false_iff] at this
  exact this.2

end Footprint

namespace Hazard

/-- When an expression is in the way of what is about to happen. -/
lemma conflicts_eq_false {h : Hazard} : h.conflicts f = false ↔
      (∀ i, h.assigns = some i → i ∉ f.locals) ∧ (h.writesState = true → f.dependsOnState = false) ∧
        (h.readsState = true → f.effects = false) := by
  unfold conflicts
  cases h.assigns with
  | none => cases h.writesState <;> cases h.readsState <;> simp
  | some i =>
    cases h.writesState <;> cases h.readsState <;> simp [Footprint.readsLocal, and_assoc]

lemma not_conflicts_of_isStable (h : Hazard) (hf : f.isStable = true) : h.conflicts f = false := by
  obtain ⟨hl, hd⟩ := Footprint.isStable_iff.mp hf
  have he := Footprint.not_effects_of_isStable hf
  rw [conflicts_eq_false, hl, hd, he]
  simp

/-- What is in the way of both is in the way of one. -/
lemma conflicts_and {a b : Hazard} (hassigns : a.assigns = Option.none ∨ b.assigns = Option.none)
    (f : Footprint) : (a.and b).conflicts f = (a.conflicts f || b.conflicts f) := by
  unfold conflicts Hazard.and
  rcases hassigns with h | h
  · simp only [h, Option.none_or]
    grind
  · simp only [h, Option.or_none]
    grind

@[simp] lemma assigns_evaluating (f : Footprint) : (evaluating f).assigns = Option.none := rfl

/-- Control that leaves after an evaluation waits for all calls. -/
@[simp] lemma readsState_and_leaving (a : Hazard) : (a.and leaving).readsState = true := by
  simp [Hazard.and, leaving]

end Hazard

namespace Rebuild

variable {marks : List (Pending × Bool)} {u : Pending}

/-! ## Marks -/

/-- Marks that leave nothing in the way of a hazard, nor of the evaluation of what is marked
further up. -/
def Settled : Hazard → List (Pending × Bool) → Prop
  | _, [] => True
  | h, (v, true) :: vs => Settled (h.and (.evaluating v.uses)) vs
  | h, (v, false) :: vs => h.conflicts v.uses = false ∧ Settled h vs

/-- Marking conflicts leaves nothing in the way. -/
lemma settled_markConflicts (h : Hazard) (marks : List (Pending × Bool)) :
    Settled h (markConflicts h marks) := by
  induction marks generalizing h with
  | nil => trivial
  | cons m vs ih =>
    obtain ⟨v, marked⟩ := m
    rw [markConflicts]
    split
    · exact ih _
    · rename_i hc
      rw [Bool.or_eq_true, not_or] at hc
      exact ⟨by simpa using hc.2, ih h⟩

lemma map_fst_markConflicts (h : Hazard) (marks : List (Pending × Bool)) :
    (markConflicts h marks).map Prod.fst = marks.map Prod.fst := by
  induction marks generalizing h with
  | nil => rfl
  | cons m vs ih =>
    obtain ⟨v, marked⟩ := m
    rw [markConflicts]
    split <;> simp [ih]

/-- Marking conflicts keeps the marks that are there. -/
lemma getElem?_markConflicts {h : Hazard} {v : Pending} (hi : marks[i]? = some (v, true)) :
    (markConflicts h marks)[i]? = some (v, true) := by
  induction marks generalizing h i with
  | nil => simp at hi
  | cons m vs ih =>
    obtain ⟨u, marked⟩ := m
    rw [markConflicts]
    cases i with
    | zero =>
      cases hi
      simp
    | succ i =>
      rw [getElem?_cons_succ] at hi
      split <;> exact ih hi

/-! ## Operands after spilling -/

/-- An operand that was there, or a temporary among new ones. -/
def OldOrNew (old : List Pending) (first : Nat) (temps : List ValueType) (v : Pending) : Prop :=
  v ∈ old ∨ ∃ t type, v = .temp t type ∧ first ≤ t ∧ temps[t]? = some type

/-- What stands in a list stands at the same place in a longer one. -/
lemma getElem?_of_prefix {α : Type} {l l' : List α} (h : l <+: l') {a : α} (hi : l[i]? = some a) :
    l'[i]? = some a := by
  obtain ⟨rest, rfl⟩ := h
  rw [getElem?_append_left (List.getElem?_eq_some_iff.mp hi).1, hi]

@[simp] lemma temps_save (v : Pending) (r : Rebuild) : (r.save v).temps = r.temps.push v.type := rfl

/-- Evaluating operands takes temporaries and never gives one back. -/
lemma temps_evaluateMarked (marks : List (Pending × Bool)) (r : Rebuild) :
    r.temps.toList <+: (evaluateMarked marks r).2.temps.toList := by
  induction marks with
  | nil => exact prefix_rfl
  | cons m vs ih =>
    rw [evaluateMarked_cons]
    split
    · simpa using ih.trans (prefix_append _ _)
    · exact ih

lemma size_temps_evaluateMarked (marks : List (Pending × Bool)) (r : Rebuild) :
    r.temps.size ≤ (evaluateMarked marks r).2.temps.size := by
  simpa using (temps_evaluateMarked marks r).length_le

/-- Each operand that is evaluated becomes a new temporary; the others stay in their places, and
a marked one only if it is stable. -/
lemma getElem?_evaluateMarked {r : Rebuild} {v : Pending} {marked : Bool}
    (hm : marks[i]? = some (u, marked)) (hv : (evaluateMarked marks r).1[i]? = some v) :
    v = u ∧ (marked = true → v.uses.isStable = true) ∨
      ∃ t type, v = .temp t type ∧ r.temps.size ≤ t ∧
        (evaluateMarked marks r).2.temps.toList[t]? = some type := by
  induction marks generalizing i with
  | nil => simp at hm
  | cons m vs ih =>
    obtain ⟨w, b⟩ := m
    rw [evaluateMarked_cons] at hv ⊢
    have hsize := size_temps_evaluateMarked vs r
    cases i with
    | zero =>
      cases hm
      split at hv
      · rename_i hc
        rw [if_pos hc]
        simp only [getElem?_cons_zero, Option.some.injEq] at hv
        exact .inr ⟨_, _, hv.symm, hsize, by simp⟩
      · rename_i hc
        simp only [getElem?_cons_zero, Option.some.injEq] at hv
        subst hv
        exact .inl ⟨rfl, by simpa using hc⟩
    | succ i =>
      rw [getElem?_cons_succ] at hm
      split at hv
      · rename_i hc
        rw [if_pos hc]
        rcases ih hm (by simpa using hv) with h | ⟨t, type, rfl, hle, ht⟩
        · exact .inl h
        · refine .inr ⟨t, type, rfl, hle, ?_⟩
          rw [temps_save, Array.toList_push]
          exact getElem?_of_prefix (prefix_append _ _) ht
      · rename_i hc
        rw [if_neg hc]
        exact ih hm (by simpa using hv)

lemma length_evaluateMarked (marks : List (Pending × Bool)) (r : Rebuild) :
    (evaluateMarked marks r).1.length = marks.length := by
  induction marks with
  | nil => rfl
  | cons m vs ih =>
    rw [evaluateMarked_cons]
    split <;> simp [ih]

/-- Evaluating operands leaves them as they are or puts them into new temporaries. -/
lemma oldOrNew_of_mem_evaluateMarked {r : Rebuild} {v : Pending}
    (hv : v ∈ (evaluateMarked marks r).1) :
    OldOrNew (marks.map Prod.fst) r.temps.size (evaluateMarked marks r).2.temps.toList v := by
  obtain ⟨i, hi⟩ := mem_iff_getElem?.mp hv
  have hlt : i < marks.length := by
    have := (List.getElem?_eq_some_iff.mp hi).1
    rwa [length_evaluateMarked] at this
  rcases getElem?_evaluateMarked (getElem?_eq_getElem hlt) hi with ⟨rfl, -⟩ | hnew
  · exact .inl (mem_map_of_mem (getElem_mem hlt))
  · exact .inr hnew

@[simp] lemma isStable_temp (t : Nat) (type : ValueType) :
    (Pending.temp t type).uses.isStable = true := rfl

/-- What is evaluated, or left in its place, is not in the way of a hazard that the marks are
settled for. -/
lemma not_conflicts_of_mem_evaluateMarked {h : Hazard} {r : Rebuild} (hs : Settled h marks)
    {v : Pending} (hv : v ∈ (evaluateMarked marks r).1) : h.conflicts v.uses = false := by
  induction marks generalizing h with
  | nil => simp [evaluateMarked] at hv
  | cons m vs ih =>
    obtain ⟨u, marked⟩ := m
    cases marked with
    | false =>
      simp only [evaluateMarked_cons, Bool.false_and, Bool.false_eq_true, if_false, mem_cons] at hv
      rcases hv with rfl | hv
      · exact hs.1
      · exact ih hs.2 hv
    | true =>
      -- The hazard for the operands below includes the evaluation of this one.
      have hb (hv : v ∈ (evaluateMarked vs r).1) : h.conflicts v.uses = false := by
        have := ih hs hv
        rw [Hazard.conflicts_and (.inr (Hazard.assigns_evaluating _)), Bool.or_eq_false_iff] at this
        exact this.1
      rw [evaluateMarked_cons] at hv
      split at hv
      · rcases mem_cons.mp hv with rfl | hv
        · exact Hazard.not_conflicts_of_isStable h (isStable_temp _ _)
        · exact hb hv
      · rename_i hc
        rcases mem_cons.mp hv with rfl | hv
        · exact Hazard.not_conflicts_of_isStable h (by simpa using hc)
        · exact hb hv

/-- A marked operand is stable afterwards. -/
lemma isStable_of_getElem?_evaluateMarked {r : Rebuild} {v : Pending}
    (hm : marks[i]? = some (u, true)) (hv : (evaluateMarked marks r).1[i]? = some v) :
    v.uses.isStable = true := by
  rcases getElem?_evaluateMarked hm hv with ⟨-, hstable⟩ | ⟨t, type, rfl, -⟩
  · exact hstable rfl
  · exact isStable_temp t type

variable {r : Rebuild} {marked : Nat → Pending → Bool} {h : Hazard} {v : Pending}

lemma spill_eq (r : Rebuild) (marked : Nat → Pending → Bool) (h : Hazard) : r.spill marked h =
      (evaluateMarked (marksOf marked h r.scope.values) r).2.withValues
        (evaluateMarked (marksOf marked h r.scope.values) r).1 := rfl

lemma map_fst_marksOf (marked : Nat → Pending → Bool) (h : Hazard) (values : List Pending) :
    (marksOf marked h values).map Prod.fst = values := by
  rw [marksOf, map_fst_markConflicts]
  refine ext_getElem? fun i => ?_
  rw [getElem?_map, getElem?_mapIdx]
  cases values[i]? <;> rfl

@[simp] lemma length_values_spill :
    (r.spill marked h).scope.values.length = r.scope.values.length := by
  have hlen := congrArg List.length (map_fst_marksOf marked h r.scope.values)
  rw [length_map] at hlen
  rw [spill_eq, withValues_values, length_evaluateMarked, hlen]

lemma temps_spill : r.temps.toList <+: (r.spill marked h).temps.toList :=
  temps_evaluateMarked _ r

lemma size_temps_spill : r.temps.size ≤ (r.spill marked h).temps.size :=
  size_temps_evaluateMarked _ r

/-- After spilling, each operand is in its place or in a new temporary. -/
lemma getElem?_values_spill (hu : r.scope.values[i]? = some u)
    (hv : (r.spill marked h).scope.values[i]? = some v) :
    v = u ∨ ∃ t type, v = .temp t type ∧ r.temps.size ≤ t ∧
      (r.spill marked h).temps.toList[t]? = some type := by
  have hmark : ((marksOf marked h r.scope.values).map Prod.fst)[i]? = some u := by
    rw [map_fst_marksOf, hu]
  rw [getElem?_map, Option.map_eq_some_iff] at hmark
  obtain ⟨⟨_, b⟩, hmark, rfl⟩ := hmark
  exact (getElem?_evaluateMarked hmark hv).imp_left And.left

/-- After spilling, an operand is an old one or a new temporary. -/
lemma oldOrNew_of_mem_spill (hv : v ∈ (r.spill marked h).scope.values) :
    OldOrNew r.scope.values r.temps.size (r.spill marked h).temps.toList v := by
  have hv : v ∈ (evaluateMarked (marksOf marked h r.scope.values) r).1 := hv
  have hold := oldOrNew_of_mem_evaluateMarked hv
  rwa [map_fst_marksOf] at hold

/-- After spilling, no operand is in the way. -/
lemma not_conflicts_of_mem_spill (hv : v ∈ (r.spill marked h).scope.values) :
    h.conflicts v.uses = false :=
  not_conflicts_of_mem_evaluateMarked (settled_markConflicts h _) hv

/-- **After settling, no operand is in the way.** -/
theorem not_conflicts_of_mem_settle (hv : v ∈ (r.settle h).scope.values) :
    h.conflicts v.uses = false :=
  not_conflicts_of_mem_spill hv

/-- An operand that is selected is stable afterwards. -/
lemma isStable_of_getElem?_spill (hu : r.scope.values[i]? = some u) (hm : marked i u = true)
    (hv : (r.spill marked h).scope.values[i]? = some v) : v.uses.isStable = true := by
  have hmark : (r.scope.values.mapIdx fun i v => (v, marked i v))[i]? = some (u, true) := by
    rw [getElem?_mapIdx, hu, Option.map_some, hm]
  exact isStable_of_getElem?_evaluateMarked (getElem?_markConflicts hmark) hv

/-- **After spilling everything, every operand is stable.** -/
theorem isStable_of_mem_spillAll (hv : v ∈ r.spillAll.scope.values) : v.uses.isStable = true := by
  obtain ⟨i, hi⟩ := mem_iff_getElem?.mp hv
  have hlt : i < r.scope.values.length := by
    have := (List.getElem?_eq_some_iff.mp hi).1
    rwa [spillAll, length_values_spill] at this
  exact isStable_of_getElem?_spill (getElem?_eq_getElem hlt) rfl hi

/-- Stable operands stay as they are. -/
lemma evaluateMarked_of_isStable (r : Rebuild)
    (hm : ∀ v ∈ marks.map Prod.fst, v.uses.isStable = true) :
    evaluateMarked marks r = (marks.map Prod.fst, r) := by
  induction marks with
  | nil => rfl
  | cons mark vs ih =>
    obtain ⟨v, b⟩ := mark
    rw [map_cons, forall_mem_cons] at hm
    simp [evaluateMarked, ih hm.2, hm.1]

/-! ## Operands in sequence -/

/-- Two expressions cannot observe each other: if one has effects, the other does not depend on the
state. -/
def Independent (a b : Pending) : Prop :=
  (a.uses.effects = true → b.uses.dependsOnState = false) ∧
    (b.uses.effects = true → a.uses.dependsOnState = false)

/-- Putting operands in sequence is to do nothing or to spill. -/
lemma sequence_eq (r : Rebuild) (n : Nat) :
    r.sequence n = r ∨ ∃ marked, r.sequence n = r.spill marked .none := by
  unfold sequence
  simp only
  split
  · exact .inr ⟨_, rfl⟩
  · exact .inl rfl

/-- If at most one expression depends on the state, no two can observe each other. -/
lemma pairwise_independent_of_filter {values : List Pending}
    (hlen : (values.filter fun v => v.uses.dependsOnState).length ≤ 1) :
    values.Pairwise Independent := by
  induction values with
  | nil => exact .nil
  | cons v values ih =>
    rw [filter_cons] at hlen
    cases hd : v.uses.dependsOnState with
    | false =>
      rw [hd] at hlen
      refine pairwise_cons.mpr ⟨fun u _ => ⟨fun he => ?_, fun _ => hd⟩, ih hlen⟩
      rw [Footprint.dependsOnState_of_effects he] at hd
      cases hd
    | true =>
      rw [hd, if_pos rfl, length_cons] at hlen
      have hnil : values.filter (fun v => v.uses.dependsOnState) = [] :=
        length_eq_zero_iff.mp (by omega)
      have hnone : ∀ u ∈ values, u.uses.dependsOnState = false := by
        simpa [filter_eq_nil_iff] using hnil
      refine pairwise_cons.mpr ⟨fun u hu => ⟨fun _ => hnone u hu, fun he => ?_⟩,
        ih (by rw [hnil]; exact Nat.zero_le 1)⟩
      have := hnone u hu
      rw [Footprint.dependsOnState_of_effects he] at this
      cases this

/-- **Operands in sequence cannot observe each other.**

**Proof sketch.** If nothing is spilled, no operand has effects or at most one depends on the state.
Otherwise every operand but the last is stable or did not depend on the state to begin with. -/
theorem sequence_pairwise (r : Rebuild) {n : Nat} (hn : n ≤ r.scope.values.length) :
    ((r.sequence n).scope.values.take n).Pairwise Independent := by
  unfold sequence
  simp only
  split
  · refine pairwise_independent_of_filter ?_
    generalize hvs : (r.spill (fun i v => 0 < i && i < n && v.uses.dependsOnState)
      .none).scope.values = values
    cases values with
    | nil => simp
    | cons v rest =>
      cases n with
      | zero => simp
      | succ n =>
        -- Only the last operand may still depend on the state.
        have hr : ∀ u ∈ rest.take n, u.uses.dependsOnState = false := by
          intro u hu
          obtain ⟨i, hi⟩ := mem_iff_getElem?.mp hu
          have hlt : i < n := by
            have := (List.getElem?_eq_some_iff.mp hi).1
            rw [length_take] at this
            omega
          rw [getElem?_take_of_lt hlt] at hi
          have hnew : (v :: rest)[i + 1]? = some u := by simpa using hi
          rw [← hvs] at hnew
          have hold := getElem?_eq_getElem (l := r.scope.values) (i := i + 1) (by omega)
          rcases getElem?_values_spill hold hnew with hu | ⟨t, type, rfl, -⟩
          · cases hd : u.uses.dependsOnState with
            | false => rfl
            | true =>
              rw [← hu] at hold
              have hstable := isStable_of_getElem?_spill hold (by simp [hlt, hd]) hnew
              rw [(Footprint.isStable_iff.mp hstable).2] at hd
              cases hd
          · rfl
        have hnil : (rest.take n).filter (fun v => v.uses.dependsOnState) = [] := by
          simpa [filter_eq_nil_iff] using hr
        rw [take_succ_cons, filter_cons, hnil]
        split <;> simp
  · rename_i hc
    rw [Bool.and_eq_true, decide_eq_true_eq] at hc
    cases he : (r.scope.values.take n).any fun v => v.uses.effects with
    | true =>
      refine pairwise_independent_of_filter ?_
      have : ¬ 1 < ((r.scope.values.take n).filter fun v => v.uses.dependsOnState).length :=
        fun hlt => hc ⟨he, hlt⟩
      omega
    | false =>
      have hnone : ∀ v ∈ r.scope.values.take n, v.uses.effects = false := by
        simpa using he
      refine pairwise_iff_getElem.mpr fun i j hi hj _ => ⟨fun h => ?_, fun h => ?_⟩
      · rw [hnone _ (getElem_mem hi)] at h
        cases h
      · rw [hnone _ (getElem_mem hj)] at h
        cases h

end Rebuild

end WasmToC

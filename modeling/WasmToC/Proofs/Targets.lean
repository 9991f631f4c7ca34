import WasmToC.Proofs.Nesting

/-!
# What instructions do to the constructs around them

Only a branch changes the constructs that are open around it, and it changes the one that it leads
to: a construct without a label gets one, and one whose result the branch carries gets a temporary
for it. So a construct that is branched to, and has a result to carry, has a temporary.

## Main definitions

* `Rebuild.Labelled` — constructs with a label and a result have a temporary for it.

## Main results

* `Rebuild.constructs_of_acts` — an instruction that is no part of a construct leaves the
  open constructs as they are, or is a branch.
* `Rebuild.Labelled.steps` — every instruction keeps the invariant.
-/

namespace WasmToC

open List
open C (Stmt)

/-- The depth that a branch leads to; a branch table without targets is a branch to its default. -/
def Instruction.branchDepth? (i : Instruction) : Option Nat :=
  match i.op with
  | .br | .brIf => i.imm.depth?
  | .brTable =>
    match i.imm with
    | .table [] default => some default
    | _ => none
  | _ => none

/-- A construct that is no loop, has a label and has a result, has a temporary for it. -/
def Construct.IsLabelled (c : Construct) : Prop :=
  c.kind ≠ .loop → c.label.isSome = true → c.result.isSome = true → c.temp.isSome = true

namespace Rebuild

variable {r r1 : Rebuild} {env : Surroundings} {i : Instruction} {es : List C.Line}
  {d : Nat} {c : Construct}

/-! ## Steps -/

/-- **What every instruction keeps is kept by code.** -/
theorem run_keeps {P : Rebuild → Prop}
    (hkeeps : ∀ i r es r1, Steps env i r es r1 → P r → P r1) {code : List Instruction}
    (hrun : (run env code r).outcome = .ok r1) (h : P r) : P r1 := by
  induction code generalizing r with
  | nil =>
    rw [run, Traced.outcome_pure, Except.ok.injEq] at hrun
    exact hrun ▸ h
  | cons i rest ih =>
    obtain ⟨r2, hstep, hr⟩ := run_cons_eq_ok.mp hrun
    obtain ⟨es, hss⟩ := steps_of_step hstep
    exact ih hr (hkeeps i r es r2 hss h)

/-- Every instruction keeps pending expressions in order. -/
lemma Tidy.steps (h : r.Tidy env) (hstep : Steps env i r es r1) : r1.Tidy env := by
  cases hstep with
  | acts _ _ ha => exact h.acts ha
  | enters _ _ he => exact h.enters he
  | switches _ _ hs => exact h.switches hs
  | closes _ _ hc => exact h.closes hc
  | skips => exact h.of_values rfl prefix_rfl fun _ hv => .inl hv

lemma Tidy.run {code : List Instruction} (h : r.Tidy env)
    (hrun : (run env code r).outcome = .ok r1) : r1.Tidy env :=
  run_keeps (fun _ _ _ _ hss h => h.steps hss) hrun h

/-! ## Operands -/

@[simp] lemma frame_sequence (n : Nat) :
    (r.sequence n).constructs = r.constructs ∧ (r.sequence n).labels = r.labels := by
  rcases sequence_eq r n with h | ⟨marked, h⟩ <;> simp [h]

@[simp] lemma frame_discard (v : Pending) :
    (r.discard v).constructs = r.constructs ∧ (r.discard v).labels = r.labels := by
  unfold discard
  split <;> simp [emit]

@[simp] lemma frame_trapIndirect (operands : List Pending) :
    (trapIndirect operands r).constructs = r.constructs ∧
      (trapIndirect operands r).labels = r.labels :=
  trapIndirect_keeps (P := fun r1 => r1.constructs = r.constructs ∧ r1.labels = r.labels)
    ⟨rfl, rfl⟩ (fun _ _ _ h => h) fun _ h => h

/-! ## Branches -/

lemma modify_eq_self {α : Type} {f : α → α} {l : List α} {i : Nat} {a : α} (hi : l[i]? = some a)
    (ha : f a = a) : l.modify i f = l := by
  refine ext_getElem? fun j => ?_
  rw [getElem?_modify]
  split
  · rename_i hij
    rw [← hij, hi]
    simp [ha]
  · simp

/-- What giving a construct a label does to the open constructs. -/
lemma constructs_labelOf {c' : Construct} (hc : r.constructs[d]? = some c')
    (hlabel : c'.label = c.label) :
    (r.labelOf d c).2.constructs =
      r.constructs.modify d fun b => { b with label := some (r.labelOf d c).1 } := by
  cases h : c.label with
  | some label =>
    rw [labelOf_some h]
    refine (modify_eq_self hc ?_).symm
    rw [← h, ← hlabel]
  | none => rw [labelOf_none h]

/-- What giving a construct a temporary does to the open constructs. -/
lemma constructs_resultTemp_modify {c' : Construct} (t : ValueType)
    (hc : r.constructs[d]? = some c') (htemp : c'.temp = c.temp) :
    (r.resultTemp d c t).2.constructs =
      r.constructs.modify d fun b => { b with temp := some (r.resultTemp d c t).1 } := by
  cases h : c.temp with
  | some temp =>
    rw [resultTemp_some t h]
    refine (modify_eq_self hc ?_).symm
    rw [← h, ← htemp]
  | none => rw [resultTemp_none t h]

/-- What a branch does to the open constructs and to the number of labels. -/
inductive Aims (d : Nat) (cs : List Construct) (labels : Nat) : List Construct → Nat → Prop
  /-- It leads to the end of the function. -/
  | body (hdepth : d = cs.length) : Aims d cs labels cs labels
  /-- It leads to a construct, which has a label then, and a temporary for what is carried. -/
  | construct {c : Construct} {label labels1 : Nat} {temp : Option Nat} (hc : cs[d]? = some c)
      (hlabel : c.label = some label ∧ labels1 = labels ∨
        c.label = none ∧ label = labels + 1 ∧ labels1 = labels + 1)
      (htemp : ∀ t, c.temp = some t → temp = some t)
      (hcarried : (carriedType c).isSome = true → temp.isSome = true) :
      Aims d cs labels (cs.modify d fun b => { b with label := some label, temp }) labels1

/-- A construct has its label, or gets the next one. -/
lemma labelOf_cases (r : Rebuild) (d : Nat) (c : Construct) :
    c.label = some (r.labelOf d c).1 ∧ (r.labelOf d c).2.labels = r.labels ∨
      c.label = none ∧ (r.labelOf d c).1 = r.labels + 1 ∧
        (r.labelOf d c).2.labels = r.labels + 1 := by
  cases h : c.label with
  | some label => simp [labelOf_some h]
  | none => simp [labelOf_none h]

@[simp] lemma labels_resultTemp (d : Nat) (c : Construct) (t : ValueType) :
    (r.resultTemp d c t).2.labels = r.labels := by
  unfold resultTemp
  split <;> rfl

lemma resultTemp_eq {temp : Nat} {t : ValueType} (h : c.temp = some temp) :
    (r.resultTemp d c t).1 = temp := by
  rw [resultTemp_some t h]

/-- A branch without a value changes the label only. -/
lemma modify_label {cs : List Construct} {label : Nat} (hc : cs[d]? = some c) :
    cs.modify d (fun b => { b with label := some label }) =
      cs.modify d fun b => { b with label := some label, temp := c.temp } := by
  refine ext_getElem? fun j => ?_
  simp only [getElem?_modify]
  split
  · rename_i hj
    simp [← hj, hc]
  · rfl

/-- What a branch does to the open constructs. -/
lemma aims_of_branches (h : Branches env d r es r1) :
    Aims d r.constructs r.labels r1.constructs r1.labels := by
  cases h with
  | leave hd h =>
    cases h with
    | value | plain => simpa [kill, withValues, emit] using Aims.body hd
  | @value c t v vs hc =>
    generalize hr2 : r.leavingWith v vs = r2
    obtain ⟨hcs, hlabels⟩ : r2.constructs = r.constructs ∧ r2.labels = r.labels := by simp [← hr2]
    have hc2 : r2.constructs[d]? = some c := by rw [hcs, hc]
    have htemp := constructs_resultTemp_modify t hc2 rfl
    have hc3 := getElem?_resultTemp t hc2 rfl
    have hlabel := labelOf_cases (carryTo d c t v r2) d c
    have hcarry : (carryTo d c t v r2).labels = r.labels := by simp [carryTo, emit, hlabels]
    change Aims d r.constructs r.labels ((carryTo d c t v r2).labelOf d c).2.constructs _
    rw [constructs_labelOf (r := carryTo d c t v r2) (c := c) hc3 rfl]
    change Aims d r.constructs _ ((r2.resultTemp d c t).2.constructs.modify d _) _
    rw [htemp, modify_modify_eq, hcs]
    exact Aims.construct hc (hcarry ▸ hlabel) (fun u hu => by rw [resultTemp_eq hu]) (fun _ => rfl)
  | @plain c hc ht =>
    have hc2 : (r.settle .leaving).constructs[d]? = some c := by rw [settle_constructs, hc]
    have hlabel := labelOf_cases (r.settle .leaving) d c
    rw [settle_labels] at hlabel
    change Aims d r.constructs _ ((r.settle .leaving).labelOf d c).2.constructs _
    rw [constructs_labelOf hc2 rfl, settle_constructs, modify_label hc]
    exact Aims.construct hc hlabel (fun _ h => h) (by simp [ht])

/-- What a conditional branch does to the open constructs. -/
lemma aims_of_branchesIf {cond : Pending} (h : BranchesIf env d cond r es r1) :
    Aims d r.constructs r.labels r1.constructs r1.labels := by
  cases h with
  | leaveWith hd => exact .body hd
  | leave hd => exact .body hd
  | @value c t v vs hc =>
    have hlabel := constructs_labelOf hc rfl
    have hc2 := getElem?_labelOf hc
    change Aims d r.constructs _ ((r.labelOf d c).2.resultTemp d c t).2.constructs
      ((r.labelOf d c).2.resultTemp d c t).2.labels
    rw [constructs_resultTemp_modify (c := c) t hc2 rfl, hlabel, modify_modify_eq,
      labels_resultTemp]
    exact Aims.construct hc (labelOf_cases r d c) (fun u hu => by rw [resultTemp_eq hu])
      (fun _ => rfl)
  | @plain c hc ht =>
    change Aims d r.constructs _ (r.labelOf d c).2.constructs _
    rw [constructs_labelOf hc rfl, modify_label hc]
    exact Aims.construct hc (labelOf_cases r d c) (fun _ h => h) (by simp [ht])

/-- **What an instruction does to the constructs around it** when it is no part of one: nothing,
unless it is a branch. -/
theorem constructs_of_acts (h : Acts env i r es r1) :
    (i.branchDepth? = none ∧ r1.constructs = r.constructs ∧ r1.labels = r.labels) ∨
      ∃ d, i.branchDepth? = some d ∧ Aims d r.constructs r.labels r1.constructs r1.labels := by
  cases h with
  | br hop himm h =>
    exact .inr ⟨_, by simpa [Instruction.branchDepth?, hop] using himm, aims_of_branches h⟩
  | @brIf d cond vs es r1 hop himm _ h =>
    have haims := aims_of_branchesIf h
    rw [leavingWith_constructs, leavingWith_labels] at haims
    exact .inr ⟨_, by simpa [Instruction.branchDepth?, hop] using himm, haims⟩
  | @brTable d index vs es r1 hop himm _ h =>
    have haims := aims_of_branches h
    simp only [withValues, frame_discard] at haims
    exact .inr ⟨_, by simp [Instruction.branchDepth?, hop, himm], haims⟩
  | returnOp hop h =>
    refine .inl ⟨by simp [Instruction.branchDepth?, hop], ?_⟩
    cases h <;> simp [kill, withValues, emit]
  | _ hop =>
    exact .inl ⟨by simp [Instruction.branchDepth?, hop], by simp [kill, withValues, emit, push]⟩

lemma labels_of_switches (h : Switches r es r1) : r1.labels = r.labels := by
  obtain ⟨c, outer, cond, -, -, h⟩ := h
  cases h <;> simp [toElse, carryTo, emit, withValues]

lemma labels_of_closes (h : Closes r es r1) : r1.labels = r.labels := by
  obtain ⟨c, outer, -, h⟩ := h
  cases h <;> simp [leaveConstruct, carryTo, emit, push, withValues]

/-! ## Constructs with a label and a result -/

/-- Every open construct that is no loop, has a label and has a result, has a temporary for it. -/
def Labelled (r : Rebuild) : Prop := ∀ c ∈ r.constructs, c.IsLabelled

lemma labelled_empty : Labelled {} := by
  intro c hc
  cases hc

/-- A branch keeps the invariant. -/
lemma Labelled.aims (h : r.Labelled)
    (ha : Aims d r.constructs r.labels r1.constructs r1.labels) : r1.Labelled := by
  generalize hcs : r1.constructs = cs at ha
  generalize r1.labels = labels1 at ha
  cases ha with
  | body => exact fun c hc => h c (hcs ▸ hc)
  | construct hc _ _ hcarried =>
    intro b hb
    rw [hcs] at hb
    rcases mem_modify hc hb with hb | rfl
    · exact h b hb
    · intro hloop _ hres
      refine hcarried ?_
      unfold carriedType
      split
      · exact absurd ‹_› hloop
      · exact hres

lemma Labelled.acts (h : r.Labelled) (ha : Acts env i r es r1) : r1.Labelled := by
  rcases constructs_of_acts ha with ⟨-, hcs, -⟩ | ⟨d, -, haims⟩
  · exact fun c hc => h c (hcs ▸ hc)
  · exact h.aims haims

lemma Labelled.enters (h : r.Labelled) {res : Option ValueType} {op : Opcode}
    (he : Enters r res op es r1) : r1.Labelled := by
  have hold : ∀ c ∈ r.spillAll.constructs, c.IsLabelled := by
    rw [spillAll, spill_constructs]
    exact h
  cases he with
  | block => exact forall_mem_cons.mpr ⟨(fun _ hl => by cases hl), hold⟩
  | loop => exact forall_mem_cons.mpr ⟨fun hloop => absurd rfl hloop, hold⟩
  | ifOp =>
    refine forall_mem_cons.mpr ⟨(fun _ hl => by cases hl), ?_⟩
    rw [spillAll, spill_constructs]
    exact h

lemma Labelled.switches (h : r.Labelled) (hs : Switches r es r1) : r1.Labelled := by
  obtain ⟨c, outer, cond, hcs, hkind, hs⟩ := hs
  have hc := h c (by simp [hcs])
  have houter : ∀ b ∈ outer, b.IsLabelled := fun b hb => h b (by simp [hcs, hb])
  cases hs with
  | keep _ _ _ _ htemp =>
    refine forall_mem_cons.mpr ⟨fun _ hl hr => ?_, houter⟩
    have := hc (by simp [hkind]) hl hr
    simp [htemp] at this
  | store => exact forall_mem_cons.mpr ⟨fun _ _ _ => rfl, houter⟩
  | plain => exact forall_mem_cons.mpr ⟨fun _ => hc (by simp [hkind]), houter⟩

/-- The constructs that are open behind the end of one. -/
lemma constructs_of_closes (h : Closes r es r1) : ∃ c, r.constructs = c :: r1.constructs := by
  obtain ⟨c, outer, hcs, h⟩ := h
  cases h <;> exact ⟨c, hcs⟩

lemma Labelled.closes (h : r.Labelled) (hc : Closes r es r1) : r1.Labelled := by
  obtain ⟨c, hcs⟩ := constructs_of_closes hc
  exact fun b hb => h b (hcs ▸ mem_cons_of_mem c hb)

/-- Every instruction keeps the invariant. -/
lemma Labelled.steps (h : r.Labelled) (hstep : Steps env i r es r1) : r1.Labelled := by
  cases hstep with
  | acts _ _ ha => exact h.acts ha
  | enters _ _ he => exact h.enters he
  | switches _ _ hs => exact h.switches hs
  | closes _ _ hc => exact h.closes hc
  | skips => exact h

end Rebuild

end WasmToC

import WasmToC.Proofs.Bodies
import WasmToC.Proofs.Landing

/-!
# The expressions that are built

Every expression that reconstruction makes is built from the operands that wait, one operator or
call at a time, and where there are several operands they have been put in sequence before. Every
line evaluates expressions that have waited, and each has the type that the line needs. So whatever
follows from the way expressions are built holds for all that wait in a state, and for all that
stands in its lines.

## Main definitions

* `C.Expr.Built`, `C.Line.Built` — an expression that is built from its operands, and
  a line that evaluates such expressions.
* `C.Line.Sound` — a line that is well typed, and in which no operands can observe each other.
* `Rebuild.AllBuilt` — a state in which all operands and lines are as they should be.

## Main results

* `Rebuild.Tidy.sound_of_steps` — the lines that an instruction writes.
* `Rebuild.AllBuilt.steps`, `Rebuild.allBuilt_of_run` — one instruction, and a body.
* `Rebuild.AllBuilt.finishes` — the end of a body.
-/

namespace WasmToC

open List

namespace C

variable {env : Surroundings} {temps : List ValueType} {line : Line}

/-! ## Expressions and lines -/

/-- Whether an operator has as many operands as it needs, and no two operands of a call or operator
can observe each other. -/
def Expr.IsApplied : Expr → Prop
  | .call _ args => args.Pairwise Expr.Compatible
  | .numeric op args => args.length = op.shape.arity ∧ args.Pairwise Expr.Compatible
  | _ => True

/-- An expression that is applied to its operands, as are these. -/
inductive Expr.Built : Expr → Prop
  /-- The expression is applied, and the operands are built. -/
  | intro {e : Expr} (happlied : e.IsApplied) (hoperands : ∀ a ∈ e.operands, a.Built) : e.Built

/-- What has a type, and operands that cannot observe each other, is built. -/
lemma Expr.HasType.built {e : Expr} {t : ValueType} (h : e.HasType env temps t)
    (horderly : e.Orderly) : e.Built := by
  induction h with
  | const | zero | var | temp | global | memorySize => exact ⟨trivial, forall_mem_nil _⟩
  | memoryGrow _ ih | load _ _ _ ih =>
    exact ⟨trivial, forall_mem_singleton.mpr (ih horderly)⟩
  | call _ _ hn _ ih =>
    obtain ⟨hall, hpair⟩ := Expr.allOrderly_iff.mp horderly
    refine ⟨hpair, fun a ha => ?_⟩
    obtain ⟨t, ht⟩ := Expr.exists_mem_zip hn ha
    exact ih _ ht (hall a ha)
  | numeric hn _ ih =>
    obtain ⟨hall, hpair⟩ := Expr.allOrderly_iff.mp horderly
    exact ⟨⟨hn, hpair⟩, fun a ha => ih a ha (hall a ha)⟩
  | choose _ _ _ ihcondition ihyes ihno =>
    obtain ⟨hcond, hyes, hno⟩ := horderly
    exact ⟨trivial, by simp [Expr.operands, ihcondition hcond, ihyes hyes, ihno hno]⟩

/-- Every expression in a well-typed line has a type. -/
lemma Line.WellTyped.exprs (h : line.WellTyped env temps) :
    ∀ x ∈ line.exprs, ∃ t, x.HasType env temps t := by
  have hreturns {value : Option Expr} (hvalue : Returns env temps value) :
      ∀ x ∈ value.toList, ∃ t, x.HasType env temps t := by
    cases value with
    | none => exact forall_mem_nil _
    | some e =>
      obtain ⟨t, -, ht⟩ := hvalue
      exact forall_mem_singleton.mpr ⟨t, ht⟩
  cases line with
  | openIf cond => exact forall_mem_singleton.mpr ⟨_, h⟩
  | label | openBlock | openElse | close => exact forall_mem_nil _
  | run s =>
    cases s with
    | assign place value =>
      obtain ⟨t, -, ht⟩ := h
      exact forall_mem_singleton.mpr ⟨t, ht⟩
    | discard value => exact forall_mem_singleton.mpr h
    | call f args =>
      obtain ⟨t, -, -, hcount, ha⟩ := h
      intro x hx
      obtain ⟨t, ht⟩ := Expr.exists_mem_zip hcount hx
      exact ⟨t, ha _ ht⟩
    | store op addr off value =>
      exact forall_mem_cons.mpr ⟨⟨_, h.1⟩, forall_mem_singleton.mpr ⟨_, h.2⟩⟩
    | jumpIf cond carried label =>
      refine forall_mem_cons.mpr ⟨⟨_, h.1⟩, forall_mem_map.mpr fun p hp => ?_⟩
      obtain ⟨t, -, ht⟩ := h.2 p (Option.mem_toList.mp hp)
      exact ⟨t, ht⟩
    | leave value => exact hreturns h
    | leaveIf cond value => exact forall_mem_cons.mpr ⟨⟨_, h.1⟩, hreturns h.2⟩
    | trap | jump | block | loop | onlyIf | ifElse => exact forall_mem_nil _

namespace Line

/-- A line that evaluates expressions that are built, and whose operands cannot observe each
other. -/
structure Built (line : Line) : Prop where
  /-- The expressions are built. -/
  exprs : ∀ x ∈ line.exprs, x.Built
  /-- The operands are compatible. -/
  operands : line.operands.Pairwise Expr.Compatible

/-- A line that is well typed, and in which no operands can observe each other. -/
structure Sound (env : Surroundings) (temps : List ValueType) (line : Line) : Prop where
  /-- It is well typed. -/
  typed : line.WellTyped env temps
  /-- The operands within its expressions are compatible. -/
  orderly : ∀ x ∈ line.exprs, x.Orderly
  /-- Its operands are compatible. -/
  compatible : line.operands.Pairwise Expr.Compatible

lemma Sound.built (h : line.Sound env temps) : line.Built := by
  refine ⟨fun x hx => ?_, h.compatible⟩
  obtain ⟨t, ht⟩ := h.typed.exprs x hx
  exact ht.built (h.orderly x hx)

/-- A line with one operand at most. -/
lemma sound_of_operands (hoperands : line.operands.length ≤ 1)
    (htyped : line.WellTyped env temps) (horderly : ∀ x ∈ line.exprs, x.Orderly) :
    line.Sound env temps := by
  refine ⟨htyped, horderly, ?_⟩
  match line.operands, hoperands with
  | [], _ => exact .nil
  | [x], _ => exact pairwise_singleton _ x

lemma sound_of_exprs_nil (hoperands : line.operands = []) (hexprs : line.exprs = [])
    (htyped : line.WellTyped env temps) : line.Sound env temps :=
  sound_of_operands (by simp [hoperands]) htyped (by simp [hexprs])

lemma sound_assign {place : Place} {v : Pending} (hv : v.Sound)
    (hplace : place.type? env temps = some v.type)
    (htyped : v.expr.HasType env temps v.type) :
    (Line.run (.assign place v.expr)).Sound env temps :=
  sound_of_operands (Nat.le_refl _) ⟨_, hplace, htyped⟩ (forall_mem_singleton.mpr hv.orderly)

end Line

end C

open C (Line Stmt)

namespace Rebuild

variable {env : Surroundings} {temps : List ValueType} {i : Instruction} {r r1 : Rebuild}
  {v : Pending} {vs : List Pending} {es : List Line}

/-- All lines that are written are sound. -/
def EmitsSound (env : Surroundings) (temps : List ValueType) (es : List Line) : Prop :=
  ∀ line ∈ es, line.Sound env temps

lemma emitsSound_nil : EmitsSound env temps [] := by simp [EmitsSound]

lemma EmitsSound.append {es1 : List Line} (h : EmitsSound env temps es)
    (h1 : EmitsSound env temps es1) : EmitsSound env temps (es ++ es1) :=
  forall_mem_append.mpr ⟨h, h1⟩

lemma emitsSound_singleton {line : Line} (h : line.Sound env temps) : EmitsSound env temps [line] :=
  forall_mem_singleton.mpr h

/-! ## Operands that are evaluated -/

/-- Evaluating operands writes assignments to new temporaries. -/
lemma sound_evaluations {marks : List (Pending × Bool)} (h : ∀ p ∈ marks, r.Admits env p.1)
    (hle : (evaluateMarked marks r).2.temps.toList <+: temps) :
    EmitsSound env temps ((evaluations marks r).map .run) := by
  induction marks with
  | nil => exact emitsSound_nil
  | cons p vs ih =>
    obtain ⟨v, marked⟩ := p
    obtain ⟨hv, hb⟩ := forall_mem_cons.mp h
    rw [evaluateMarked_cons] at hle
    rw [evaluations, map_append]
    split at hle
    · rename_i hmarked
      rw [temps_save, Array.toList_push] at hle
      have hpre := (prefix_append _ _).trans hle
      rw [if_pos hmarked]
      refine (ih hb hpre).append (emitsSound_singleton (Line.sound_assign hv.sound ?_ ?_))
      · exact getElem?_of_prefix hle (by simp)
      · exact hv.typed.mono ((temps_evaluateMarked vs r).trans hpre)
    · rename_i hmarked
      rw [if_neg hmarked, map_nil, append_nil]
      exact ih hb hle

namespace Tidy

variable (h : r.Tidy env) {d : Nat}
include h

lemma spilling (marked : Nat → Pending → Bool) (hz : Hazard)
    (hle : (r.spill marked hz).temps.toList <+: temps) :
    EmitsSound env temps (r.spilling marked hz) := by
  refine sound_evaluations (fun p hp => ?_) hle
  have hmem := mem_map_of_mem (f := Prod.fst) hp
  rw [map_fst_marksOf] at hmem
  exact h.admits_value hmem

lemma settlingFor (hz : Hazard) {s : Stmt} (hle : (r.settle hz).temps.toList <+: temps)
    (hs : (Line.run s).Sound env temps) : EmitsSound env temps (r.settlingFor hz s) :=
  (h.spilling _ hz hle).append (emitsSound_singleton hs)

lemma sequencing (n : Nat) (hle : (r.sequence n).temps.toList <+: temps) :
    EmitsSound env temps (r.sequencing n) := by
  unfold Rebuild.sequencing
  unfold Rebuild.sequence at hle
  dsimp only at hle ⊢
  split at hle
  · rename_i hany
    rw [if_pos hany]
    exact h.spilling _ _ hle
  · rename_i hany
    rw [if_neg hany]
    exact emitsSound_nil

lemma discarding (hv : r.Admits env v) (hle : (r.discard v).temps.toList <+: temps) :
    EmitsSound env temps (r.discarding v) := by
  unfold Rebuild.discarding
  unfold Rebuild.discard at hle
  split at hle
  · rename_i heffects
    rw [if_pos heffects]
    have htyped := hv.typed.mono (temps_spill.trans hle)
    exact h.settlingFor _ hle (Line.sound_of_operands (Nat.le_refl _) ⟨_, htyped⟩
      (forall_mem_singleton.mpr hv.sound.orderly))
  · rename_i heffects
    rw [if_neg heffects]
    exact emitsSound_nil

omit h in
/-- The operands of an indirect call are evaluated for their effects. -/
lemma trappingIndirect {operands : List Pending} (h : ∀ v ∈ operands, r.Admits env v)
    (hle : r.temps.toList <+: temps) : EmitsSound env temps (trappingIndirect operands) := by
  refine EmitsSound.append (forall_mem_map.mpr fun v hv => ?_)
    (emitsSound_singleton (Line.sound_of_exprs_nil rfl rfl trivial))
  have hadmits := h v (mem_of_mem_filter hv)
  exact Line.sound_of_operands (Nat.le_refl _) ⟨_, hadmits.typed.mono hle⟩
    (forall_mem_singleton.mpr hadmits.sound.orderly)

/-! ## Instructions that are no part of a construct -/

/-- A value goes into a result temporary. -/
lemma carryingTo {c : Construct} (hc : r.constructs[d]? = some c)
    (hres : c.result = some v.type) (hv : r.Admits env v)
    (hle : (r.resultTemp d c v.type).2.temps.toList <+: temps) :
    EmitsSound env temps (carryingTo d c v.type v r) := by
  refine emitsSound_singleton (Line.sound_assign hv.sound ?_ (hv.typed.mono ?_))
  · exact getElem?_of_prefix hle (h.temps_resultTemp hc rfl hres)
  · exact (grows_resultTemp v.type hc rfl).temps.trans hle

lemma sound_of_leaves (hleaves : Leaves env r es r1) (hle : r1.temps.toList <+: temps) :
    EmitsSound env temps es := by
  cases hleaves with
  | @value t v vs hres hvs htyped =>
    obtain ⟨hv, hb⟩ := h.uncons hvs
    have hreturned : Line.WellTyped env temps (.run (.leave (some v.expr))) :=
      ⟨t, hres, htyped ▸ hv.typed.mono (temps_spill.trans hle)⟩
    exact hb.settlingFor _ hle (Line.sound_of_operands (Nat.le_refl _) hreturned
      (forall_mem_singleton.mpr hv.sound.orderly))
  | plain hres => exact h.settlingFor _ hle (Line.sound_of_exprs_nil rfl rfl hres)

lemma sound_of_branches (hbranches : Branches env d r es r1)
    (hle : r1.temps.toList <+: temps) : EmitsSound env temps es := by
  have hjump (c : Construct) (r : Rebuild) : EmitsSound env temps (jumpingTo d c r) :=
    emitsSound_singleton (Line.sound_of_exprs_nil rfl rfl trivial)
  cases hbranches with
  | leave _ hleaves => exact h.sound_of_leaves hleaves hle
  | @value c t v vs hc ht hvs htyped =>
    subst htyped
    obtain ⟨hv, hb⟩ := h.uncons hvs
    have hc' := getElem?_leavingWith v vs hc
    rw [temps_jumpTo] at hle
    have hsettled := (grows_resultTemp v.type hc' rfl).temps.trans hle
    have hv' : (r.leavingWith v vs).Admits env v :=
      hv.mono temps_spill (by simp [leavingWith, resultTemps])
    exact (hb.spilling _ _ hsettled).append (((hb.settle _).carryingTo hc'
      (result_of_carriedType ht).2 hv' hle).append (hjump c _))
  | @plain c =>
    rw [temps_jumpTo] at hle
    exact (h.spilling _ _ hle).append (hjump c _)

lemma sound_of_branchesIf {cond : Pending} (hcond : r.Admits env cond)
    (htyped : cond.type = .i32) (hbranches : BranchesIf env d cond r es r1)
    (hle : r1.temps.toList <+: temps) : EmitsSound env temps es := by
  have hle0 := (writes_of_branchesIf hbranches).temps.trans hle
  have hi32 : cond.expr.HasType env temps .i32 := htyped ▸ hcond.typed.mono hle0
  -- with or without a value that goes along, a line evaluates its condition alone at first
  have hplain : ∀ x ∈ [cond.expr], x.Orderly :=
    forall_mem_singleton.mpr hcond.sound.orderly
  have hwith {v : Pending} {vs : List Pending} (hvs : r.scope.values = v :: vs) :
      v.expr.HasType env temps v.type ∧ ∀ x ∈ [cond.expr, v.expr], x.Orderly := by
    have hv := (h.uncons hvs).1
    exact ⟨hv.typed.mono hle0, by simp [hcond.sound.orderly, hv.sound.orderly]⟩
  cases hbranches with
  | leaveWith _ hres hvs htyped =>
    obtain ⟨hv, horderly⟩ := hwith hvs
    exact emitsSound_singleton
      (Line.sound_of_operands (Nat.le_refl _) ⟨hi32, _, hres, htyped ▸ hv⟩ horderly)
  | leave _ hres =>
    exact emitsSound_singleton (Line.sound_of_operands (Nat.le_refl _) ⟨hi32, hres⟩ hplain)
  | @value c t v vs hc ht hvs htyped =>
    obtain ⟨hv, horderly⟩ := hwith hvs
    have htemp := (h.labelOf hc).temps_resultTemp (c := c) (getElem?_labelOf hc) rfl
      (result_of_carriedType ht).2
    refine emitsSound_singleton (Line.sound_of_operands (Nat.le_refl _) ⟨hi32, ?_⟩ horderly)
    rintro p ⟨⟩
    exact ⟨t, getElem?_of_prefix hle htemp, htyped ▸ hv⟩
  | @plain c =>
    exact emitsSound_singleton (Line.sound_of_operands (Nat.le_refl _) ⟨hi32, by simp⟩ hplain)

/-- An operand that is assigned. -/
lemma settlingFor_assign (hvs : r.scope.values = v :: vs) (hz : Hazard)
    {place : C.Place} (hplace : place.type? env temps = some v.type)
    (hle : ((r.withValues vs).settle hz).temps.toList <+: temps) :
    EmitsSound env temps ((r.withValues vs).settlingFor hz (.assign place v.expr)) := by
  obtain ⟨hv, hb⟩ := h.uncons hvs
  exact hb.settlingFor _ hle
    (Line.sound_assign hv.sound hplace (hv.typed.mono (temps_spill.trans hle)))

/-- An indirect call evaluates its operands and traps. -/
lemma sound_callIndirect {callee : Pending} {args : List Pending}
    (hvs : r.scope.values = callee :: (args.reverse ++ vs))
    (hle : (Rebuild.trapIndirect (args ++ [callee])
      ((r.withValues vs).settle .leaving)).temps.toList <+:
      temps) :
    EmitsSound env temps ((r.withValues vs).settling .leaving ++
      Rebuild.trappingIndirect (args ++ [callee])) := by
  have htemps :
    (Rebuild.trapIndirect (args ++ [callee]) ((r.withValues vs).settle .leaving)).temps =
      ((r.withValues vs).settle .leaving).temps :=
    trapIndirect_keeps (P := fun r' => r'.temps = ((r.withValues vs).settle .leaving).temps) rfl
      (fun _ _ _ h => h) fun _ h => h
  rw [htemps] at hle
  have hb : (r.withValues vs).Tidy env := h.withValues fun v hv => by simp [hvs, hv]
  refine (hb.spilling _ _ hle).append (trappingIndirect (r := r.withValues vs)
    (fun v hv => (h.admits_value ?_).withValues vs) (temps_spill.trans hle))
  have hmem : v ∈ args ∨ v = callee := by simpa using hv
  simp only [hvs, mem_cons, mem_append, mem_reverse]
  tauto

/-- **What an instruction writes** that is no part of a construct. -/
theorem sound_of_acts (hacts : Acts env i r es r1) (hle : r1.temps.toList <+: temps) :
    EmitsSound env temps es := by
  cases hacts with
  | nop | getLocal | getGlobal | currentMemory | growMemory | const | load => exact emitsSound_nil
  | unreachable => exact h.settlingFor _ hle (Line.sound_of_exprs_nil rfl rfl trivial)
  | br _ _ hbranches => exact h.sound_of_branches hbranches hle
  | @brIf d cond vs es r1 _ _ hvs hbranches htyped =>
    obtain ⟨hcond, hb⟩ := h.uncons hvs
    have hle0 := (writes_of_branchesIf hbranches).temps.trans hle
    exact (hb.spilling _ _ hle0).append ((hb.settle _).sound_of_branchesIf
      (hcond.mono temps_spill (by simp [resultTemps])) htyped hbranches hle)
  | @brTable d index vs es r1 _ _ hvs hbranches =>
    obtain ⟨hindex, hb⟩ := h.uncons hvs
    have hle0 := (writes_of_branches hbranches).temps.trans hle
    exact (hb.discarding hindex hle0).append ((hb.discard index).sound_of_branches hbranches hle)
  | returnOp _ hleaves => exact h.sound_of_leaves hleaves hle
  | call | numeric => exact h.sequencing _ hle
  | @callPlain f t args vs _ _ htype hres hvs hn henough hts =>
    obtain ⟨hb, hargs, hpair⟩ := h.args hvs hn henough
    have hle0 := temps_spill.trans hle
    have hcall := C.Expr.haveTypes_map hts fun a ha => (hargs a ha).typed.mono hle0
    obtain ⟨horderly, hcompatible⟩ := C.Expr.allOrderly_iff.mp
      (Pending.allOrderly_map (fun a ha => (hargs a ha).sound) hpair)
    exact (h.sequencing _ hle0).append
      (hb.settlingFor _ hle ⟨⟨t, htype, hres, hcall⟩, horderly, hcompatible⟩)
  | callIndirect hop himm hvs | callIndirectPlain hop himm hvs =>
    exact h.sound_callIndirect hvs hle
  | @drop v vs _ hvs =>
    obtain ⟨hv, hb⟩ := h.uncons hvs
    exact hb.discarding hv hle
  | select => exact h.spilling _ _ hle
  | setLocal _ _ htype hvs htyped =>
    exact h.settlingFor_assign hvs _ (htyped ▸ htype) hle
  | teeLocal _ _ htype hvs htyped =>
    exact h.settlingFor_assign hvs _ (htyped ▸ htype) hle
  | setGlobal _ _ htype hvs htyped =>
    exact h.settlingFor_assign hvs _ (by simp [C.Place.type?, htype, htyped]) hle
  | @store op off value addr vs _ _ hvs henough htyped haddress =>
    have hboth : (r.sequence 2).scope.values = [addr, value].reverse ++ vs := hvs
    obtain ⟨hb, hargs, hpair⟩ := h.args hboth rfl henough
    have hle0 := temps_spill.trans hle
    have ha := hargs addr (by simp)
    have hv := hargs value (by simp)
    obtain ⟨horderly, hcompatible⟩ := C.Expr.allOrderly_iff.mp
      (Pending.allOrderly_map (fun a ha => (hargs a ha).sound) hpair)
    exact (h.sequencing 2 hle0).append (hb.settlingFor _ hle
      ⟨⟨haddress ▸ ha.typed.mono hle0, htyped ▸ hv.typed.mono hle0⟩, horderly, hcompatible⟩)

/-! ## Constructs -/

lemma sound_of_enters {res : Option ValueType} {op : Opcode}
    (henters : Enters r res op es r1) (hle : r1.temps.toList <+: temps) :
    EmitsSound env temps es := by
  have hblock : Line.Sound env temps .openBlock := Line.sound_of_exprs_nil rfl rfl trivial
  cases henters with
  | block => exact (h.spilling _ _ hle).append (emitsSound_singleton hblock)
  | loop =>
    refine (h.spilling _ _ hle).append (forall_mem_cons.mpr ⟨?_, forall_mem_singleton.mpr hblock⟩)
    exact Line.sound_of_exprs_nil rfl rfl trivial
  | @ifOp cond vs hvs htyped =>
    obtain ⟨hcond, hb⟩ := h.uncons hvs
    have hi32 : cond.expr.HasType env temps .i32 :=
      htyped ▸ hcond.typed.mono (temps_spill.trans hle)
    refine (hb.spilling _ _ hle).append (emitsSound_singleton ?_)
    exact Line.sound_of_operands (Nat.le_refl _) hi32 (forall_mem_singleton.mpr hcond.sound.orderly)

/-- The value of a first arm that was kept. -/
lemma sound_storingThen {c : Construct} (hc : c ∈ r.constructs) {temp : Nat}
    (htemp : ∀ t, c.result = some t → temps[temp]? = some t) (hle : r.temps.toList <+: temps) :
    EmitsSound env temps (storingThen temp c.kind) := by
  cases hk : c.kind with
  | block | loop | ifArm => exact emitsSound_nil
  | elseArm cond thenCode thenValue thenLive =>
    cases thenValue with
    | none => exact emitsSound_nil
    | some v =>
      have hv := h.admits_construct hc (v := v)
        (mem_append_right _ (by simp [hk, ConstructKind.pendings]))
      exact emitsSound_singleton (Line.sound_assign hv.sound
        (htemp _ (h.kept hc hk).2) (hv.typed.mono hle))

lemma sound_of_switches (hswitches : Switches r es r1) (hle : r1.temps.toList <+: temps) :
    EmitsSound env temps es := by
  have helse : EmitsSound env temps [.openElse] :=
    emitsSound_singleton (Line.sound_of_exprs_nil rfl rfl trivial)
  obtain ⟨c, cs, cond, hcs, -, hin⟩ := hswitches
  cases hin with
  | keep | plain => exact helse
  | store _ hres hvs htyped =>
    subst htyped
    obtain ⟨hv, hb⟩ := h.uncons hvs
    exact (hb.carryingTo (by simp [Rebuild.withValues, hcs]) hres hv hle).append helse

omit h in
/-- The lines that close a construct evaluate nothing. -/
lemma sound_closingLines (c : Construct) : EmitsSound env temps (closingLines c) := by
  have hclose : Line.Sound env temps .close := Line.sound_of_exprs_nil rfl rfl trivial
  have hlabel : ∀ line ∈ C.labelLine c.label, line.Sound env temps := by
    cases c.label with
    | none => exact forall_mem_nil _
    | some l =>
      have hl : Line.Sound env temps (.label l) := Line.sound_of_exprs_nil rfl rfl trivial
      exact forall_mem_singleton.mpr hl
  refine forall_mem_cons.mpr ⟨hclose, ?_⟩
  split
  · exact forall_mem_nil _
  · exact hlabel

lemma sound_of_closes (hcloses : Closes r es r1) (hle : r1.temps.toList <+: temps) :
    EmitsSound env temps es := by
  obtain ⟨c, cs, hcs, hin⟩ := hcloses
  -- the value of the first arm goes where that of the second does
  have hthen {r : Rebuild} (h : r.Tidy env) {t : ValueType}
      (hcs : r.constructs = c :: cs) (hres : c.result = some t)
      (hle : (r.resultTemp 0 c t).2.temps.toList <+: temps) :
      EmitsSound env temps (storingThen (r.resultTemp 0 c t).1 c.kind) := by
    have hc : r.constructs[0]? = some c := by simp [hcs]
    refine h.sound_storingThen (by simp [hcs]) (fun t' ht' => ?_)
      ((prefix_temps_resultTemp hcs t).trans hle)
    obtain rfl : t = t' := Option.some.inj (hres.symm.trans ht')
    exact getElem?_of_prefix hle (h.temps_resultTemp hc rfl hres)
  cases hin with
  | folded => exact emitsSound_nil
  | plain | direct | unreached => exact sound_closingLines _
  | store _ _ hres hvs _ htyped =>
    subst htyped
    obtain ⟨hv, hb⟩ := h.uncons hvs
    exact (hthen hb hcs hres hle).append
      ((hb.carryingTo (by simp [Rebuild.withValues, hcs]) hres hv hle).append
        (sound_closingLines c))
  | carried hk hd hres | carriedUnreached hk hd hres =>
    exact (hthen h hcs hres hle).append (sound_closingLines _)

/-- **Every line that an instruction writes is sound.** -/
theorem sound_of_steps (hss : Steps env i r es r1) (hle : r1.temps.toList <+: temps) :
    EmitsSound env temps es := by
  cases hss with
  | acts _ _ hacts => exact h.sound_of_acts hacts hle
  | enters _ _ henters => exact h.sound_of_enters henters hle
  | switches _ _ hswitches => exact h.sound_of_switches hswitches hle
  | closes _ _ hcloses => exact h.sound_of_closes hcloses hle
  | skips => exact emitsSound_nil

end Tidy

/-- Temporaries are only added. -/
lemma temps_of_steps (hss : Steps env i r es r1) : r.temps.toList <+: r1.temps.toList := by
  cases hss with
  | acts _ _ hacts => exact (writes_of_acts hacts).temps
  | enters _ _ henters =>
    generalize i.op = op at henters
    cases henters with
    | block | loop => exact temps_spill
    | @ifOp cond vs => exact temps_spill (r := r.withValues vs)
  | switches _ _ hswitches => exact hswitches.temps
  | closes _ _ hcloses => exact hcloses.temps
  | skips => exact prefix_rfl

/-! ## All that has been built -/

/-- A state in which all operands and lines are as they should be. -/
structure AllBuilt (env : Surroundings) (r : Rebuild) : Prop where
  /-- The operands. -/
  tidy : r.Tidy env
  /-- The lines, whichever temporaries are declared later. -/
  sound : ∀ temps, r.temps.toList <+: temps → ∀ line ∈ r.lines, line.Sound env temps

namespace AllBuilt

variable (h : r.AllBuilt env)
include h

lemma lines : ∀ line ∈ r.lines, line.Built :=
  fun line hl => (h.sound _ prefix_rfl line hl).built

lemma pendings : ∀ v ∈ r.pendings, v.expr.Built := by
  intro v hv
  have hadmits := h.tidy.admits v hv
  exact hadmits.typed.built hadmits.sound.orderly

/-- **Every instruction builds what it writes and leaves waiting.** -/
theorem steps (hss : Steps env i r es r1) : r1.AllBuilt env := by
  refine ⟨h.tidy.steps hss, fun temps hle line hl => ?_⟩
  have hmem : line ∈ r.lines ∨ line ∈ es := by
    rcases lines_of_steps h.tidy hss with hperm | hpart
    · exact mem_append.mp (hperm.mem_iff.mp hl)
    · exact .inl (hpart.subset hl)
  rcases hmem with hold | hnew
  · exact h.sound temps ((temps_of_steps hss).trans hle) line hold
  · exact h.tidy.sound_of_steps hss hle line hnew

/-- The end of a body. -/
lemma finishes (hfinishes : Finishes env r r1) : r1.AllBuilt env := by
  cases hfinishes with
  | unreached | plain => exact h
  | @value t v _ hres hvs htyped =>
    obtain ⟨hv, hb⟩ := h.tidy.uncons hvs
    refine ⟨hb.emit _, fun temps hle line hl => ?_⟩
    rw [lines_eq, body_emit rfl, ← append_assoc] at hl
    rcases mem_append.mp hl with hold | hnew
    · exact h.sound temps hle line (lines_eq r ▸ hold)
    · obtain rfl := mem_singleton.mp hnew
      exact Line.sound_of_operands (Nat.le_refl _) ⟨t, hres, htyped ▸ hv.typed.mono hle⟩
        (forall_mem_singleton.mpr hv.sound.orderly)

end AllBuilt

/-- **All that waits and all that is written while a body is read is built.** -/
theorem allBuilt_of_run {code : List Instruction} (hrun : (run env code {}).outcome = .ok r) :
    r.AllBuilt env :=
  run_keeps (fun _ _ _ _ hss h => AllBuilt.steps h hss) hrun
    ⟨tidy_empty, by simp [lines_eq, stem, trunk, body]⟩

end Rebuild

end WasmToC

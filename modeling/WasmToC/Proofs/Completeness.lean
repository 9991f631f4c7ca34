import WasmToC.Proofs.Agreement

/-!
# Valid code is translated

Every valid body is translated, unless a branch table that has targets is met where it can be
reached.

## Main definitions

* `Instruction.HasTargets` — a branch table that has targets.
* `MeetsBranchTable` — one is met where it can be reached.

## Main results

* `Rebuild.translates_of_live`, `Rebuild.grants_stepDead` — an instruction that is valid
  is translated, and validation and reconstruction still agree behind it.
* `Rebuild.run_of_valid` — so is valid code, up to the first branch table that has targets.
* `functionText_of_valid` — when the translation of a valid function succeeds.
-/

namespace WasmToC

open List Validation Site
open Validation (Frame)

/-! ## Templates -/

namespace C

/-- No template needs more than two operands. -/
lemma arity_parse_le (text : List Char) : (Template.parse text).arity ≤ 2 := by
  fun_induction Template.parse text <;> simp only [Template.arity] <;> omega

lemma mem_all_numeric (op : Numeric) : op ∈ Numeric.all := by
  cases op <;> decide +kernel

/-- The spelling of a numeric instruction uses no operand that is not there. -/
lemma arity_template_le (op : Numeric) : (template op).arity ≤ op.shape.arity := by
  have hunary : ∀ op ∈ Numeric.all.filter fun op => op.shape.arity ≠ 2,
      (template op).arity ≤ op.shape.arity := by
    decide +kernel
  by_cases h : op.shape.arity = 2
  · rw [h]
    exact arity_parse_le _
  · exact hunary op (mem_filter.mpr ⟨mem_all_numeric op, by simpa using h⟩)

end C

/-- A branch table that has targets. -/
def Instruction.HasTargets (i : Instruction) : Prop :=
  i.op = .brTable ∧ ∃ target targets default, i.imm = .table (target :: targets) default

namespace Rebuild

variable {res : Option ValueType} {r r1 : Rebuild} {env : Surroundings} {fs fs' : List Frame}
  {i : Instruction}

/-! ## Instructions that can be reached -/

/-- If an instruction is valid where it can be reached, it is translated, and both agree behind it.
-/
def Translates (env : Surroundings) (r : Rebuild) (i : Instruction) : Prop :=
  Grants env (Validation.step env i (r.frames env.type.result)) (r.stepLive ⟨env, i.op⟩ i.imm)

variable {imm : Immediate}

lemma translates_brTable (htable : ¬ Instruction.HasTargets ⟨.brTable, imm⟩) :
    Translates env r ⟨.brTable, imm⟩ := by
  cases imm with
  | table targets default =>
    cases targets with
    | cons target targets => exact absurd ⟨rfl, target, targets, default, rfl⟩ htable
    | nil =>
      refine .popTyped fun index vs _ => ?_
      rw [← frames_discard env.type.result index]
      exact grants_branch _ default
  | _ => exact .refused

lemma translates_call (hl : r.reach = .live) : Translates env r ⟨.call, imm⟩ := by
  refine .need fun index => .need fun t => .popArgs rfl rfl fun args r2 _ hr => ?_
  dsimp only
  cases t.result with
  | some res => exact .ok (agrees_push (hr.trans hl) _ rfl)
  | none =>
    refine .ok (agrees_live ((settle_reach _).trans (hr.trans hl)) ?_)
    rw [frames_emit, frames_settle]
    rfl

lemma translates_callIndirect (hl : r.reach = .live) : Translates env r ⟨.callIndirect, imm⟩ := by
  cases imm with
  | callIndirect typeIndex =>
    refine .need fun t => .popTyped fun callee vs _ => .popEach fun args below' => ?_
    have htrap : (trapIndirect (args ++ [callee])
        (((r.withValues vs).withValues below').settle .leaving)).reach = .live := by
      rw [reach_trapIndirect, settle_reach]
      exact hl
    have hframes : (trapIndirect (args ++ [callee])
        (((r.withValues vs).withValues below').settle .leaving)).frames env.type.result =
          ((r.withValues vs).withValues below').frames env.type.result := by
      rw [frames_trapIndirect, frames_settle]
    dsimp only
    cases t.result with
    | some res => exact .ok (agrees_push htrap (.zero res) hframes.symm)
    | none => exact .ok (agrees_live htrap hframes.symm)
  | _ => exact .refused

lemma translates_select (hl : r.reach = .live) : Translates env r ⟨.select, imm⟩ := by
  intro fs h
  -- The operands are spilled before they are taken, which validation does not see.
  rw [← frames_spill env.type.result (fun i _ => i = 1 || i = 2) .none] at h
  simp only [Validation.step, bind_eq_some, Prod.exists] at h
  obtain ⟨_, hpop, second, _, hpop', first, _, hpop'', h⟩ := h
  obtain ⟨cond, vs, hcond, hvs, -, rfl⟩ := exists_of_popTyped hpop
  obtain ⟨v2, below2, hsecond, hvalues2, rfl, rfl⟩ := exists_of_pop hpop'
  obtain ⟨v1, below1, -, hvalues1, rfl, rfl⟩ := exists_of_pop hpop''
  split at h
  · rename_i hsame
    cases h
    have hts : v1.type = v2.type := by simpa using hsame
    have hrequire : r.require ⟨env, .select⟩ 3 = .ok () := by
      refine require_eq_ok.mpr ?_
      rw [withValues_values] at hvalues2 hvalues1
      have hlen := congrArg List.length hvs
      rw [length_values_spill, hvalues2, hvalues1] at hlen
      simp only [length_cons] at hlen
      omega
    have hfirst := popTyped_ok ⟨env, .select⟩ hvalues1 hts
    simp only [stepLive, select, hrequire, hcond, hsecond, hfirst, bind, Except.bind]
    have hlive1 : ((((r.spill (fun i _ => i = 1 || i = 2) .none).withValues vs).withValues
        below2).withValues below1).reach = .live := (spill_reach _ _).trans hl
    exact ⟨_, rfl, agrees_push hlive1 (.choose cond v1 v2) rfl⟩
  · cases h

lemma translates_setLocal (hl : r.reach = .live) : Translates env r ⟨.setLocal, imm⟩ := by
  refine .need fun index => .need fun t => .popTyped_last fun v vs _ => ?_
  exact .ok (agrees_live ((settle_reach _).trans hl) (frames_settle _ _).symm)

lemma translates_teeLocal (hl : r.reach = .live) : Translates env r ⟨.teeLocal, imm⟩ := by
  refine .need fun index => .need fun t => .popTyped fun v vs _ => ?_
  have hlive1 : (((r.withValues vs).settle ((Hazard.assigning index).and (.evaluating v.uses))).emit
        (.assign (.var index) v.expr)).reach = .live := (settle_reach _).trans hl
  exact .ok (agrees_push hlive1 (.var index t) (frames_settle _ _).symm)

lemma translates_setGlobal (hl : r.reach = .live) : Translates env r ⟨.setGlobal, imm⟩ := by
  refine .need fun index => .need fun g => ?_
  dsimp only
  cases g.isMutable with
  | false => exact .refused
  | true =>
    refine .popTyped_last fun v vs _ => ?_
    exact .ok (agrees_live ((settle_reach _).trans hl) (frames_settle _ _).symm)

lemma translates_const (hl : r.reach = .live) (t : ValueType) :
    Translates env r ⟨.const t, imm⟩ := by
  refine .need fun v => ?_
  split
  · rename_i htype
    rw [← htype]
    exact .ok (agrees_push hl (.const v) rfl)
  · exact .refused

lemma translates_store (hl : r.reach = .live) (op : Store) : Translates env r ⟨.store op, imm⟩ := by
  refine .need fun off fs h => ?_
  rw [← frames_sequence env.type.result 2] at h
  obtain ⟨_, hpop, hpop'⟩ := bind_eq_some.mp h
  obtain ⟨value, vs, hvalue, hvs, -, rfl⟩ := exists_of_popTyped hpop
  obtain ⟨addr, below', haddress, hvalues', -, rfl⟩ := exists_of_popTyped hpop'
  have hrequire : r.require ⟨env, .store op⟩ 2 = .ok () := by
    refine require_eq_ok.mpr ?_
    rw [withValues_values] at hvalues'
    rw [← length_values_sequence r 2, hvs, hvalues']
    simp
  simp only [store, hrequire, hvalue, haddress, bind, Except.bind]
  refine ⟨_, rfl, agrees_live ((settle_reach _).trans ((reach_sequence 2).trans hl)) ?_⟩
  rw [frames_emit, frames_settle]

lemma translates_numeric (hl : r.reach = .live) (op : Numeric) :
    Translates env r ⟨.numeric op, imm⟩ := by
  refine .popArgs (length_replicate ..) (reverse_replicate ..) fun args r2 hlen hr => ?_
  dsimp only
  rw [if_pos (hlen ▸ C.arity_template_le op)]
  exact .ok (agrees_push (hr.trans hl) (.numeric op args) rfl)

/-- **An instruction that is valid, can be reached, and is neither a construct nor part of one** is
translated, and both agree behind it. -/
theorem translates_of_live (hl : r.reach = .live) (hplain : isPlain i.op = true)
    (htable : ¬ i.HasTargets) : Translates env r i := by
  obtain ⟨op, imm⟩ := i
  cases op with
  | block | loop | ifOp | elseOp | endOp => cases hplain
  | nop => exact .ok (agrees_live hl rfl)
  | unreachable => exact .ok (agrees_kill (by simp [skeleton_frames]))
  | br => exact .need fun d => grants_branch _ d
  | brIf => exact .need fun d => grants_branchIf _ d hl
  | brTable => exact translates_brTable htable
  | returnOp => exact grants_leave _
  | call => exact translates_call hl
  | callIndirect => exact translates_callIndirect hl
  | drop =>
    refine .pop fun v vs _ => ?_
    exact .ok (agrees_live ((reach_discard v).trans hl) (frames_discard _ v).symm)
  | select => exact translates_select hl
  | getLocal => exact .need fun index => .need fun t => .ok (agrees_push hl (.var index t) rfl)
  | setLocal => exact translates_setLocal hl
  | teeLocal => exact translates_teeLocal hl
  | getGlobal =>
    exact .need fun index => .need fun g => .ok (agrees_push hl (.global index g.content) rfl)
  | setGlobal => exact translates_setGlobal hl
  | currentMemory => exact .ok (agrees_push hl .memorySize rfl)
  | growMemory =>
    refine .popTyped fun delta vs _ => ?_
    exact .ok (agrees_push (r := r.withValues vs) hl (.memoryGrow delta) rfl)
  | const t => exact translates_const hl t
  | load op =>
    refine .need fun off => .popTyped fun addr vs _ => ?_
    exact .ok (agrees_push (r := r.withValues vs) hl (.load op addr off) rfl)
  | store op => exact translates_store hl op
  | numeric op => exact translates_numeric hl op

/-! ## Steps -/

/-- **An instruction that is valid and cannot be reached** is skipped or translated, and both agree
behind it. -/
theorem grants_stepDead {nested : Nat} (hm : Matches env fs r) (hd : r.reach = .dead nested) :
    Grants env (Validation.step env i fs) (r.stepDead ⟨env, i.op⟩ nested) := by
  have hagrees := hm.agrees.dead hd
  unfold stepDead
  dsimp only
  cases hopens : i.op.opensConstruct with
  | true =>
    intro fs' h
    refine ⟨_, rfl, agrees_dead rfl ?_⟩
    -- A frame more, and perhaps an operand less in the one around it.
    have hfs : ∃ f rest, fs' = f :: rest ∧ skeleton rest = skeleton fs := by
      unfold Validation.step at h
      cases hop : i.op <;> simp only [hop, Opcode.opensConstruct, Bool.false_eq_true] at hopens
      case ifOp =>
        simp only [hop, bind_eq_some, pure_eq_some] at h
        obtain ⟨res, -, rest, hpop, rfl⟩ := h
        exact ⟨_, rest, rfl, Keeps.popTyped _ hpop⟩
      all_goals
        simp only [hop, bind_eq_some, pure_eq_some] at h
        obtain ⟨res, -, rfl⟩ := h
        exact ⟨_, fs, rfl, rfl⟩
    obtain ⟨f, rest, rfl, hr⟩ := hfs
    rw [drop_succ_cons, skeleton_drop hr]
    exact hagrees
  | false =>
    by_cases hend : i.op = .endOp
    · unfold Validation.step
      rw [hend]
      cases nested with
      | zero => exact grants_close _ hm (.inr hd)
      | succ nested =>
        refine .popFrame fun f outer hpop => ?_
        rw [popFrame_eq_some hpop, drop_succ_cons] at hagrees
        dsimp only
        split
        · exact .refused
        · refine .ok (agrees_dead rfl ?_)
          rwa [skeleton_drop (skeleton_pushResult _ _)]
    · by_cases helse : i.op = .elseOp
      · unfold Validation.step
        rw [helse]
        cases nested with
        | zero => exact grants_switchArm _ hm (.inr hd)
        | succ nested =>
          refine .popFrame fun f outer hpop => ?_
          rw [popFrame_eq_some hpop, drop_succ_cons] at hagrees
          dsimp only
          split
          · exact .ok (agrees_dead hd hagrees)
          · exact .refused
      · intro fs' h
        refine ⟨r, ?_, agrees_dead hd ?_⟩
        · split
          · cases ‹false = true›
          · split
            · exact absurd ‹_› helse
            · exact absurd ‹_› hend
            · exact absurd ‹_› hend
            · rfl
        · rw [skeleton_drop (keeps_step hopens helse hend _ h)]
          exact hagrees

/-- **An instruction that is valid is translated**, unless it is a branch table that has targets and
can be reached. -/
theorem exists_step (hm : Matches env fs r) (htable : r.reach = .live → ¬ i.HasTargets)
    (h : Validation.step env i fs = some fs') :
    ∃ r1, r.step env i = .ok r1 ∧ Matches env fs' r1 := by
  have hstep : Grants env (Validation.step env i fs) (r.step env i) := by
    unfold step
    cases hr : r.reach with
    | dead nested => exact grants_stepDead hm hr
    | live =>
      have hfs := hm.agrees.live hr
      cases hplain : isPlain i.op with
      | true => exact hfs ▸ translates_of_live hr hplain (htable hr)
      | false =>
        unfold Validation.step stepLive
        dsimp only
        cases hop : i.op <;> simp only [hop, isPlain, Bool.true_eq_false] at hplain
        case elseOp => exact grants_switchArm _ hm (.inl hr)
        case endOp => exact grants_close _ hm (.inl hr)
        case ifOp =>
          rw [hfs]
          refine .need fun res => .popTyped fun cond vs _ => ?_
          refine .ok (agrees_live ((spill_reach _ _).trans hr) ?_)
          exact congrArg _ (frames_spill _ _ _).symm
        all_goals
          rw [hfs]
          refine .need fun res => .ok (agrees_live ((spill_reach _ _).trans hr) ?_)
          exact congrArg _ (frames_spill _ _ _).symm
  obtain ⟨r1, hr1, hagrees⟩ := hstep fs' h
  obtain ⟨es, hss⟩ := steps_of_step hr1
  exact ⟨r1, hr1, hagrees, hm.labelled.steps hss, hm.tidy.steps hss⟩

/-! ## Whole bodies -/

/-- Code meets a branch table that has targets where it can be reached. -/
def Meets (env : Surroundings) (code : List Instruction) (r : Rebuild) : Prop :=
  ∃ pre i post r1, code = pre ++ i :: post ∧ (run env pre r).outcome = .ok r1 ∧
    r1.reach = .live ∧ i.HasTargets

/-- A branch table that has targets and can be reached is refused. -/
lemma step_of_hasTargets (env : Surroundings) (hlive : r.reach = .live) (hi : i.HasTargets) :
    ∃ targets, r.step env i =
      .error (.error (.unsupported (some env.index) (some 0x0e) (.branchTable targets))) := by
  obtain ⟨hop, target, targets, default, himm⟩ := hi
  refine ⟨(target :: targets).length, ?_⟩
  simp only [step, hlive, stepLive, hop, himm, branchTable, unsupported]
  rfl

/-- Code that meets a branch table that has targets is refused. -/
lemma run_of_meets {code : List Instruction} (h : Meets env code r) :
    ∃ targets, (run env code r).outcome =
      .error (.error (.unsupported (some env.index) (some 0x0e) (.branchTable targets))) := by
  obtain ⟨pre, i, post, r1, rfl, hrun, hlive, hi⟩ := h
  induction pre generalizing r with
  | nil =>
    cases hrun
    obtain ⟨targets, hstep⟩ := step_of_hasTargets env hlive hi
    refine ⟨targets, ?_⟩
    rw [nil_append, outcome_run_cons, hstep]
    rfl
  | cons j pre ih =>
    rw [run_cons_eq_ok] at hrun
    obtain ⟨r2, hstep, hrun⟩ := hrun
    obtain ⟨targets, he⟩ := ih hrun
    refine ⟨targets, ?_⟩
    rw [cons_append, outcome_run_cons, hstep]
    exact he

/-- **Valid code is translated**, up to the first branch table that has targets and can be
reached.

**Proof sketch.** Induction on the code, with `exists_step` for each instruction. -/
theorem run_of_valid {code : List Instruction} (hm : Matches env fs r)
    (h : Validation.run env code fs = some fs') :
    (∃ r1, (run env code r).outcome = .ok r1 ∧ Matches env fs' r1) ∨ Meets env code r := by
  induction code generalizing fs r with
  | nil =>
    cases h
    exact .inl ⟨r, rfl, hm⟩
  | cons i code ih =>
    simp only [Validation.run, bind_eq_some] at h
    obtain ⟨fs1, hstep, h⟩ := h
    by_cases htable : r.reach = .live ∧ i.HasTargets
    · exact .inr ⟨[], i, code, r, rfl, rfl, htable.1, htable.2⟩
    · obtain ⟨r1, hr1, hm1⟩ := exists_step hm (fun hlive hi => htable ⟨hlive, hi⟩) hstep
      rcases ih hm1 h with ⟨r2, hrun, hm2⟩ | ⟨pre, j, post, r2, rfl, hrun, hlive, hj⟩
      · refine .inl ⟨r2, ?_, hm2⟩
        rw [outcome_run_cons, hr1]
        exact hrun
      · refine .inr ⟨i :: pre, j, post, r2, rfl, ?_, hlive, hj⟩
        rw [outcome_run_cons, hr1]
        exact hrun

lemma matches_start (env : Surroundings) :
    Matches env [{ kind := .body, result := env.type.result }] {} where
  agrees := agrees_live rfl rfl
  labelled := labelled_empty
  tidy := tidy_empty

lemma length_outerFrames (cs : List Construct) : (outerFrames res cs).length = cs.length := by
  induction cs with
  | nil => rfl
  | cons c cs ih => simp [outerFrames, ih]

/-- Where the frame of the body is the only one, no construct is open. -/
lemma openConstructs_of_agrees {f : Frame} (h : Agrees env [f] r) : r.openConstructs = 0 := by
  unfold openConstructs
  cases hr : r.reach with
  | live =>
    have hlen := congrArg List.length (h.live hr)
    simp only [frames, length_cons, length_nil, length_outerFrames] at hlen
    simpa using hlen
  | dead nested =>
    have hlen := congrArg List.length (h.dead hr)
    cases nested with
    | zero =>
      simp only [drop_zero, skeleton, outline, outlineOf, length_cons,
        length_nil, length_outerFrames] at hlen
      simpa using hlen
    | succ nested => simp [skeleton, outline, outlineOf] at hlen

/-- The end of a valid body is translated. -/
lemma exists_finish {f : Frame} (h : Agrees env [f] r)
    (hpop : (popFrame [f]).isSome = true) : ∃ r1, r.finish env = .ok r1 := by
  have hopen := openConstructs_of_agrees h
  have hcs : r.constructs = [] :=
    length_eq_zero_iff.mp (Nat.le_zero.mp (hopen ▸ length_constructs_le r))
  unfold finish
  simp only [hopen, ne_eq, not_true, if_false]
  cases hr : r.reach with
  | dead nested => exact ⟨r, rfl⟩
  | live =>
    obtain ⟨⟨g, outer⟩, hpop⟩ := Option.isSome_iff_exists.mp hpop
    rw [h.live hr] at hpop
    have hleft := values_of_popFrame hpop
    rw [hcs] at hleft
    simp only [topFrame] at hleft
    cases hres : env.type.result with
    | none =>
      rw [hres] at hleft
      exact ⟨r, by simp [hleft, Reach.isLive]⟩
    | some t =>
      rw [hres] at hleft
      obtain ⟨v, hvs, htype⟩ := hleft
      have hv := popTyped_ok ⟨env, .endOp⟩ hvs htype
      simp [hvs, hv, Reach.isLive, bind, Except.bind, pure, Except.pure]

end Rebuild

/-- A function meets a branch table that has targets where it can be reached. -/
def MeetsBranchTable (m : Module) (index : Nat) (f : Function) (t : FuncType) : Prop :=
  Rebuild.Meets (surroundings m index f t) f.code {}

/-- The outcome for a function that is there and has a type. -/
lemma outcome_functionText {m : Module} {pos : Nat} {f : Function} {t : FuncType}
    (s : C.Symbols) (hf : m.functions[pos]? = some f) (ht : m.types[f.typeIndex]? = some t) :
    (functionText m s pos).outcome =
      ((Rebuild.run (surroundings m (m.importedFunctions + pos) f t) f.code {}).outcome.bind
        fun r => r.finish (surroundings m (m.importedFunctions + pos) f t)).map fun r =>
          ({ index := m.importedFunctions + pos
             isExported := (m.exportName? .function (m.importedFunctions + pos)).isSome
             type := t
             locals := f.locals
             temps := r.temps.toList
             body := r.scope.code.toList } : C.FunctionDef).text s := by
  have hlift : ∀ x : Except Failure Rebuild, (liftM x : Traced Rebuild).outcome = x := fun _ => rfl
  simp only [functionText, rebuildFunction, hf, ht, rebuildBody, Traced.outcome_bind, hlift,
    Traced.outcome_note, Traced.outcome_pure]
  cases (Rebuild.run (surroundings m (m.importedFunctions + pos) f t) f.code {}).outcome with
  | error e => rfl
  | ok r =>
    simp only [Except.bind]
    cases r.finish (surroundings m (m.importedFunctions + pos) f t) <;> rfl

/-- **When a valid function is translated.** A function with a valid body is translated exactly if
no branch table that has targets is met where it can be reached. Otherwise such a branch table is
refused as not supported. No valid function is refused as invalid.

**Proof sketch.** The frames of validation match the open constructs along the run, so that an
instruction which one accepts is refused by the other only if it is such a branch table. -/
theorem functionText_of_valid (m : Module) (s : C.Symbols) (pos : Nat) (f : Function)
    (t : FuncType) (hf : m.functions[pos]? = some f) (ht : m.types[f.typeIndex]? = some t)
    (hvalid : Validation.accepts (surroundings m (m.importedFunctions + pos) f t) f.code = true) :
    ((∃ text, (functionText m s pos).outcome = .ok text) ↔
      ¬ MeetsBranchTable m (m.importedFunctions + pos) f t) ∧
    (MeetsBranchTable m (m.importedFunctions + pos) f t →
      ∃ targets, (functionText m s pos).outcome =
        .error (.error (.unsupported (some (m.importedFunctions + pos)) (some 0x0e)
          (.branchTable targets)))) ∧
    ∀ why, (functionText m s pos).outcome ≠ .error (.error (.invalid why)) := by
  rw [outcome_functionText s hf ht]
  have hrefused : MeetsBranchTable m (m.importedFunctions + pos) f t →
      ∃ targets, (Rebuild.run (surroundings m (m.importedFunctions + pos) f t) f.code
        {}).outcome = .error (.error (.unsupported (some (m.importedFunctions + pos))
          (some 0x0e) (.branchTable targets))) := Rebuild.run_of_meets
  have htranslated : MeetsBranchTable m (m.importedFunctions + pos) f t ∨
      ∃ r r1, (Rebuild.run (surroundings m (m.importedFunctions + pos) f t) f.code
        {}).outcome = .ok r ∧
          r.finish (surroundings m (m.importedFunctions + pos) f t) = .ok r1 := by
    unfold Validation.accepts at hvalid
    split at hvalid
    · rename_i g hrun
      rw [Bool.and_eq_true] at hvalid
      rcases Rebuild.run_of_valid (Rebuild.matches_start _) hrun with ⟨r, hr, hm⟩ | hmeets
      · obtain ⟨r1, hr1⟩ := Rebuild.exists_finish hm.agrees hvalid.2
        exact .inr ⟨r, r1, hr, hr1⟩
      · exact .inl hmeets
    · cases hvalid
  rcases htranslated with hmeets | ⟨r, r1, hr, hr1⟩
  · obtain ⟨targets, herror⟩ := hrefused hmeets
    rw [herror]
    refine ⟨⟨?_, fun h => absurd hmeets h⟩, fun _ => ⟨targets, rfl⟩, ?_⟩
    · rintro ⟨text, ⟨⟩⟩
    · rintro why ⟨⟩
  · have hnot : ¬ MeetsBranchTable m (m.importedFunctions + pos) f t := by
      intro hmeets
      obtain ⟨targets, herror⟩ := hrefused hmeets
      rw [hr] at herror
      cases herror
    rw [hr]
    simp only [Except.bind, hr1, Except.map]
    refine ⟨⟨fun _ => hnot, fun _ => ⟨_, rfl⟩⟩, fun h => absurd h hnot, ?_⟩
    rintro why ⟨⟩

/-- A module with two valid functions. The first leaves a block with a value from inside a loop,
and has a branch table that has targets where it cannot be reached; the second has one where it
can. -/
def branchTables : Module where
  types := [⟨[.i32], some .i32⟩]
  signatures := [0, 0]
  functions := [ ⟨0, [.i32],
      [⟨.block, .block (some .i32)⟩, ⟨.loop, .block none⟩, ⟨.getLocal, .index 0⟩,
        ⟨.br, .depth 1⟩, ⟨.brTable, .table [0, 0] 0⟩, ⟨.endOp, .none⟩, ⟨.unreachable, .none⟩,
        ⟨.endOp, .none⟩]⟩,
    ⟨0, [],
      [⟨.block, .block none⟩, ⟨.getLocal, .index 0⟩, ⟨.brTable, .table [0] 0⟩, ⟨.endOp, .none⟩,
        ⟨.getLocal, .index 0⟩]⟩]

/-- The branch table of the first function is not met, and that of the second is refused. -/
theorem functionText_branchTables :
    Validation.accepts (surroundings branchTables 0 branchTables.functions[0] ⟨[.i32], some .i32⟩)
        branchTables.functions[0].code = true ∧
      ¬ MeetsBranchTable branchTables 0 branchTables.functions[0] ⟨[.i32], some .i32⟩ ∧
    Validation.accepts (surroundings branchTables 1 branchTables.functions[1] ⟨[.i32], some .i32⟩)
        branchTables.functions[1].code = true ∧
      ∃ targets, (functionText branchTables ⟨"", "", [], [], []⟩ 1).outcome =
        .error (.error (.unsupported (some 1) (some 0x0e) (.branchTable targets))) := by
  have hvalid : ∀ i : Fin 2, Validation.accepts
      (surroundings branchTables i branchTables.functions[i] ⟨[.i32], some .i32⟩)
        branchTables.functions[i].code = true := by decide
  refine ⟨hvalid 0, ?_, hvalid 1, ?_⟩
  · exact (functionText_of_valid branchTables ⟨"", "", [], [], []⟩ 0 branchTables.functions[0]
      ⟨[.i32], some .i32⟩ rfl rfl (hvalid 0)).1.mp ⟨_, rfl⟩
  · refine (functionText_of_valid branchTables ⟨"", "", [], [], []⟩ 1 branchTables.functions[1]
      ⟨[.i32], some .i32⟩ rfl rfl (hvalid 1)).2.1 ?_
    exact ⟨[⟨.block, .block none⟩, ⟨.getLocal, .index 0⟩], ⟨.brTable, .table [0] 0⟩,
      [⟨.endOp, .none⟩, ⟨.getLocal, .index 0⟩], _, rfl, rfl, rfl, rfl, 0, [], 0, rfl⟩

end WasmToC

import WasmToC.Proofs.Nesting
import WasmToC.Proofs.Surroundings
import WasmToC.Unit.Assemble

/-!
# Code that cannot be reached has no influence

Behind a branch, a return or a trap, instructions are skipped up to the end of the construct they
stand in. All that is kept of them is how many constructs are open. So code that closes exactly
the constructs it opens can be exchanged there for any other such code, and the text of the function
and that of the whole module stay the same, or are refused for the same reason.

## Main definitions

* `Module.withCode` — a module in which one function has another body.

## Main results

* `Rebuild.outcome_run_dead` — what is left of code that cannot be reached.
* `dead_code_never_matters` — balanced code that cannot be reached can be exchanged.
-/

namespace WasmToC

/-- The module in which the function at a position has another body. -/
def Module.withCode (m : Module) (pos : Nat) (code : List Instruction) : Module :=
  { m with functions := m.functions.modify pos fun f => { f with code } }

namespace Rebuild

variable {env : Surroundings} {r : Rebuild}

/-! ## Code that cannot be reached -/

/-- The state behind code that cannot be reached, when a number of constructs have been opened in
it. -/
def skipTo (nested : Nat) (r : Rebuild) : Rebuild := { r with reach := .dead nested }

/-- **Of code that cannot be reached, only the nesting is kept.** -/
theorem outcome_run_dead {code : List Instruction} {d d' : Nat} (h : Nests d code d') (n : Nat)
    (r : Rebuild) :
    (run env code (r.skipTo (n + d))).outcome = .ok (r.skipTo (n + d')) := by
  induction h with
  | nil => rfl
  | @opens d d' i rest hopen _ ih =>
    have hstep : (r.skipTo (n + d)).step env i = .ok (r.skipTo (n + (d + 1))) := by
      simp [step, stepDead, skipTo, hopen, Nat.add_assoc]
    rw [outcome_run_cons, hstep]
    exact ih
  | @ends d d' i rest hend _ ih =>
    have hstep : (r.skipTo (n + (d + 1))).step env i = .ok (r.skipTo (n + d)) := by
      simp [step, stepDead, skipTo, hend, Opcode.opensConstruct, ← Nat.add_assoc]
    rw [outcome_run_cons, hstep]
    exact ih
  | @other d d' i rest hopen hend helse _ ih =>
    have hstep : (r.skipTo (n + d)).step env i = .ok (r.skipTo (n + d)) := by
      simp only [step, stepDead, skipTo, hopen, Bool.false_eq_true, if_false]
      -- an `else` stands in a construct that was opened here
      split
      · have hd : n + d = 0 := ‹_›
        exact absurd (by omega) (helse ‹_›)
      · exact absurd ‹_› hend
      · exact absurd ‹_› hend
      · rfl
    rw [outcome_run_cons, hstep]
    exact ih

/-- Balanced code leaves no trace where it cannot be reached. -/
lemma outcome_run_balanced {code : List Instruction} (h : Balanced code)
    (hd : r.reach.isLive = false) : (run env code r).outcome = .ok r := by
  obtain ⟨scope, constructs, reach, temps, labels⟩ := r
  cases reach with
  | live => cases hd
  | dead nested => exact outcome_run_dead h nested ⟨scope, constructs, .dead nested, temps, labels⟩

/-- Balanced code that cannot be reached can be exchanged. -/
lemma outcome_run_exchange {pre dead dead' : List Instruction} (post : List Instruction)
    {r1 : Rebuild} (hrun : (run env pre r).outcome = .ok r1)
    (hd : r1.reach.isLive = false) (hbalanced : Balanced dead) (hbalanced' : Balanced dead') :
    (run env (pre ++ dead ++ post) r).outcome = (run env (pre ++ dead' ++ post) r).outcome := by
  simp only [outcome_run_append, hrun, Except.bind, outcome_run_balanced hbalanced hd,
    outcome_run_balanced hbalanced' hd]

end Rebuild

/-! ## Functions and modules with another body -/

section WithCode

variable {m : Module} {pos : Nat} {code code' : List Instruction}

/-- Two bodies of the function at a position that are rebuilt alike. -/
def Module.RebuildsAlike (m : Module) (pos : Nat) (code code' : List Instruction) : Prop :=
  ∀ f t, m.functions[pos]? = some f → m.types[f.typeIndex]? = some t →
    (Rebuild.run (surroundings m (m.importedFunctions + pos) f t) code {}).outcome =
      (Rebuild.run (surroundings m (m.importedFunctions + pos) f t) code' {}).outcome

/-- The types do not depend on the bodies. -/
lemma sameTypes_withCode (m : Module) (pos : Nat) (code : List Instruction) (index : Nat)
    (f : Function) (t : FuncType) :
    (surroundings (m.withCode pos code) index f t).SameTypes (surroundings m index f t) :=
  ⟨rfl, rfl, rfl, rfl, fun _ => rfl, fun _ => rfl⟩

/-- The definition of a function depends on what becomes of its body. -/
lemma outcome_rebuildBody_congr (index : Nat) {f f' : Function} (t : FuncType)
    (hlocals : f.locals = f'.locals)
    (hrun : (Rebuild.run (surroundings m index f t) f.code {}).outcome =
      (Rebuild.run (surroundings m index f t) f'.code {}).outcome) :
    (rebuildBody (m.withCode pos code) index f t).outcome =
      (rebuildBody (m.withCode pos code') index f' t).outcome := by
  obtain ⟨typeIndex, locals, code1⟩ := f
  obtain ⟨typeIndex', locals', code2⟩ := f'
  obtain rfl : locals = locals' := hlocals
  simp only [rebuildBody, Traced.outcome_bind, Traced.outcome_note, Traced.outcome_pure,
    Rebuild.run_congr (sameTypes_withCode m pos _ index _ t)]
  rw [hrun]
  rfl

lemma getElem?_functions_withCode (m : Module) (pos other : Nat) (code : List Instruction) :
    (m.withCode pos code).functions[other]? =
      m.functions[other]?.map fun f => if pos = other then { f with code } else f := by
  simp only [Module.withCode, List.getElem?_modify]
  rfl

/-- **Every function is rebuilt alike** if two bodies are. -/
theorem outcome_rebuildFunction_withCode (h : m.RebuildsAlike pos code code') (other : Nat) :
    (rebuildFunction (m.withCode pos code) other).outcome =
      (rebuildFunction (m.withCode pos code') other).outcome := by
  have htypes (c : List Instruction) : (m.withCode pos c).types = m.types := rfl
  have hn (c : List Instruction) : (m.withCode pos c).importedFunctions = m.importedFunctions := rfl
  simp only [rebuildFunction, getElem?_functions_withCode, htypes, hn]
  cases hf : m.functions[other]? with
  | none => rfl
  | some f =>
    by_cases hother : pos = other
    · subst hother
      simp only [Option.map_some, if_true]
      cases ht : m.types[f.typeIndex]? with
      | none => rfl
      | some t => exact outcome_rebuildBody_congr _ t rfl (h f t hf ht)
    · simp only [Option.map_some, if_neg hother]
      cases ht : m.types[f.typeIndex]? with
      | none => rfl
      | some t => exact outcome_rebuildBody_congr _ t rfl rfl

lemma outcome_rebuildFrom_withCode (h : m.RebuildsAlike pos code code') (count first : Nat) :
    (rebuildFrom (m.withCode pos code) count first).outcome =
      (rebuildFrom (m.withCode pos code') count first).outcome := by
  induction count generalizing first with
  | zero => rfl
  | succ count ih =>
    simp only [rebuildFrom, Traced.outcome_bind, outcome_rebuildFunction_withCode h, ih]

/-- A prototype says the type of a function only. -/
lemma prototypesFrom_withCode (m : Module) (pos : Nat) (code : List Instruction)
    (index : Nat) (functions : List Function) (place : Nat) :
    prototypesFrom (m.withCode pos code) index (functions.modify place fun f => { f with code }) =
      prototypesFrom m index functions := by
  have htypes : (m.withCode pos code).types = m.types := rfl
  have hexported (i : Nat) : isExported (m.withCode pos code) .function i =
      isExported m .function i := rfl
  induction functions generalizing index place with
  | nil => simp [prototypesFrom]
  | cons f rest ih =>
    cases place with
    | zero =>
      have hrest := ih (index + 1) rest.length
      rw [List.modify_eq_self (Nat.le_refl _)] at hrest
      simp only [List.modify_zero_cons, prototypesFrom, htypes, hexported, hrest]
    | succ place => simp only [List.modify_succ_cons, prototypesFrom, htypes, hexported, ih]

lemma prototypes_withCode (m : Module) (pos : Nat) (code : List Instruction) :
    prototypes (m.withCode pos code) = prototypes m :=
  prototypesFrom_withCode m pos code m.importedFunctions m.functions pos

/-- **Every module is translated alike** if two bodies are rebuilt alike. -/
theorem outcome_emit_withCode (h : m.RebuildsAlike pos code code') (o : Options) :
    (emit (m.withCode pos code) o).outcome = (emit (m.withCode pos code') o).outcome := by
  have hlength (c : List Instruction) :
      (m.withCode pos c).functions.length = m.functions.length := by
    simp [Module.withCode]
  simp only [emit, assemble, Traced.outcome_bind, Traced.outcome_note, prototypes_withCode, hlength,
    outcome_rebuildFrom_withCode h]
  rfl

end WithCode

/-- **Code that cannot be reached has no influence.** Let the first instructions of a body lead to
a point that cannot be reached, and let two pieces of code follow there that close exactly the
constructs they open and have no `else` outside of these. Whatever comes behind, the function has
the same text with either piece or is refused for the same reason, and so does the module. -/
theorem dead_code_never_matters {m : Module} {pos : Nat} {f : Function} {t : FuncType}
    {pre dead dead' : List Instruction} {r : Rebuild}
    (hf : m.functions[pos]? = some f) (ht : m.types[f.typeIndex]? = some t)
    (hrun : (Rebuild.run (surroundings m (m.importedFunctions + pos) f t) pre {}).outcome = .ok r)
    (hdead : r.reach.isLive = false) (hbalanced : Balanced dead) (hbalanced' : Balanced dead')
    (post : List Instruction) :
    (∀ s, (functionText (m.withCode pos (pre ++ dead ++ post)) s pos).outcome =
      (functionText (m.withCode pos (pre ++ dead' ++ post)) s pos).outcome) ∧
    ∀ o, (emit (m.withCode pos (pre ++ dead ++ post)) o).outcome =
      (emit (m.withCode pos (pre ++ dead' ++ post)) o).outcome := by
  have halike : m.RebuildsAlike pos (pre ++ dead ++ post) (pre ++ dead' ++ post) := by
    intro f' t' hf' ht'
    obtain rfl : f = f' := Option.some.inj (hf.symm.trans hf')
    obtain rfl : t = t' := Option.some.inj (ht.symm.trans ht')
    exact Rebuild.outcome_run_exchange post hrun hdead hbalanced hbalanced'
  refine ⟨fun s => ?_, outcome_emit_withCode halike⟩
  simp only [functionText, Traced.outcome_bind, outcome_rebuildFunction_withCode halike]

/-- A module with a function that has no parameters and no result. -/
def oneProcedure : Module :=
  { types := [⟨[], none⟩], signatures := [0], functions := [⟨0, [], []⟩] }

/-- Behind a branch out of a block, operands that are not there are dropped and a conditional has
branches to nowhere, or there is nothing. -/
theorem dead_code_never_matters_oneProcedure :
    ∃ r : Rebuild, (Rebuild.run (surroundings oneProcedure 0 ⟨0, [], []⟩ ⟨[], none⟩)
        [⟨.block, .block none⟩, ⟨.br, .depth 0⟩] {}).outcome = .ok r ∧ r.reach.isLive = false ∧
      ∀ o, (emit (oneProcedure.withCode 0 ([⟨.block, .block none⟩, ⟨.br, .depth 0⟩] ++
          [⟨.drop, .none⟩, ⟨.ifOp, .none⟩, ⟨.brTable, .table [7] 9⟩, ⟨.elseOp, .none⟩,
            ⟨.call, .index 5⟩, ⟨.endOp, .none⟩] ++ [⟨.endOp, .none⟩])) o).outcome =
        (emit (oneProcedure.withCode 0 ([⟨.block, .block none⟩, ⟨.br, .depth 0⟩] ++ [] ++
          [⟨.endOp, .none⟩])) o).outcome :=
  have hf : oneProcedure.functions[0]? = some ⟨0, [], []⟩ := rfl
  ⟨_, rfl, rfl, (dead_code_never_matters hf rfl rfl rfl
    (.other rfl (by decide) (by decide) (.opens rfl (.other rfl (by decide) (by decide)
      (.other rfl (by decide) (by decide) (.other rfl (by decide) (by decide)
        (.ends rfl .nil)))))) .nil _).2⟩

end WasmToC

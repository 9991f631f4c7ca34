import WasmToC.Proofs.FlowGraph
import WasmToC.Proofs.Growth
import WasmToC.Proofs.WasmRun

/-!
# The constructs of a body

The instructions of a body are read one after the other, and the constructs they form are known only
when their ends are reached. Here a successful reconstruction of a body is taken apart along its
constructs: what was a list of steps becomes a derivation that follows the nesting of the code, for
which inductions can be written.

## Main definitions

* `Nests`, `Balanced` — code that closes exactly the constructs it opens.
* `Rebuild.Steps` — everything that an instruction can do.
* `Rebuild.Passes` — a reconstruction of balanced code, along its constructs.

## Main results

* `Rebuild.passes_of_run` — the reconstruction of a whole body.
-/

namespace WasmToC

open Opcode

variable {e : Instruction}

/-! ## Balanced code -/

/-- Code that starts inside `d` constructs and ends inside `d'` constructs, and on its way
neither closes more constructs nor reaches an `else` of the construct it starts in. -/
inductive Nests : (d : Nat) → List Instruction → (d' : Nat) → Prop
  /-- No code. -/
  | nil {d : Nat} : Nests d [] d
  /-- A construct is opened. -/
  | opens {d d' : Nat} {i : Instruction} {rest : List Instruction}
      (hopen : i.op.opensConstruct = true) (h : Nests (d + 1) rest d') : Nests d (i :: rest) d'
  /-- A construct is closed. -/
  | ends {d d' : Nat} {i : Instruction} {rest : List Instruction} (hend : i.op = .endOp)
      (h : Nests d rest d') : Nests (d + 1) (i :: rest) d'
  /-- Another instruction. -/
  | other {d d' : Nat} {i : Instruction} {rest : List Instruction}
      (hopen : i.op.opensConstruct = false) (hend : i.op ≠ .endOp)
      (helse : i.op = .elseOp → d ≠ 0) (h : Nests d rest d') : Nests d (i :: rest) d'

/-- Code that closes exactly the constructs it opens. -/
def Balanced (code : List Instruction) : Prop := Nests 0 code 0

section Nests

variable {code code' : List Instruction} {d d' d'' : Nat}

/-- What code does to the nesting does not depend on what is outside. -/
lemma Nests.add (h : Nests d code d') (k : Nat) : Nests (d + k) code (d' + k) := by
  induction h with
  | nil => exact .nil
  | opens hopen _ ih =>
    rw [Nat.add_right_comm] at ih
    exact .opens hopen ih
  | @ends d _ _ _ hend _ ih =>
    rw [Nat.add_right_comm]
    exact .ends hend ih
  | other hopen hend helse _ ih =>
    exact .other hopen hend (fun hop => by have := helse hop; omega) ih

lemma Nests.append (h : Nests d code d') (h' : Nests d' code' d'') :
    Nests d (code ++ code') d'' := by
  induction h with
  | nil => exact h'
  | opens hopen _ ih => exact .opens hopen (ih h')
  | ends hend _ ih => exact .ends hend (ih h')
  | other hopen hend helse _ ih => exact .other hopen hend helse (ih h')

lemma Balanced.inside (h : Balanced code) (d : Nat) : Nests d code d := by
  have := Nests.add h d
  rwa [Nat.zero_add] at this

end Nests

namespace Wasm

variable {code : List Instruction} {d d' : Nat}

/-- The end of a construct is looked for behind code that closes what it opens. -/
lemma bodyOf_append (h : Nests d code d') (rest : List Instruction) :
    bodyOf d (code ++ rest) = (bodyOf d' rest).map fun (b, a) => (code ++ b, a) := by
  induction h with
  | nil => simp
  | opens hopen _ ih => simp [bodyOf, hopen, ih, Function.comp_def]
  | ends hend _ ih => simp [bodyOf, hend, opensConstruct, ih, Function.comp_def]
  | other hopen hend _ _ ih => simp [bodyOf, hopen, hend, ih, Function.comp_def]

/-- The other arm of a conditional is looked for behind code that closes what it opens. -/
lemma armsOf_append (h : Nests d code d') (rest : List Instruction) :
    armsOf d (code ++ rest) = (code ++ (armsOf d' rest).1, (armsOf d' rest).2) := by
  induction h with
  | nil => simp
  | opens hopen _ ih => simp [armsOf, hopen, ih]
  | ends hend _ ih => simp [armsOf, hend, opensConstruct, ih]
  | other hopen hend helse _ ih =>
    rw [List.cons_append, armsOf, if_neg (by simp [hopen]), if_neg hend,
      if_neg fun hop => helse hop.1 hop.2, ih, List.cons_append]

lemma bodyOf_balanced (h : Balanced code) (he : e.op = .endOp) (rest : List Instruction) :
    bodyOf 0 (code ++ e :: rest) = some (code, rest) := by
  rw [bodyOf_append h]
  simp [bodyOf, he, opensConstruct]

/-- The body of a conditional with two arms. -/
lemma bodyOf_arms {yes no : List Instruction} {el : Instruction} (hyes : Balanced yes)
    (hel : el.op = .elseOp) (hno : Balanced no) (he : e.op = .endOp) (rest : List Instruction) :
    bodyOf 0 (yes ++ el :: (no ++ e :: rest)) = some (yes ++ el :: no, rest) := by
  rw [bodyOf_append hyes, bodyOf]
  simp [hel, opensConstruct, bodyOf_balanced hno he]

lemma armsOf_balanced (h : Balanced code) : armsOf 0 code = (code, none) := by
  have := armsOf_append h []
  simpa [armsOf] using this

lemma armsOf_arms {yes : List Instruction} {el : Instruction} (hyes : Balanced yes)
    (hel : el.op = .elseOp) (no : List Instruction) :
    armsOf 0 (yes ++ el :: no) = (yes, some no) := by
  rw [armsOf_append hyes]
  simp [armsOf, hel, opensConstruct]

end Wasm

namespace Rebuild

variable {env : Surroundings} {keeps : Prop} {r r1 r2 : Rebuild} {es : List C.Line}
  {res : Option ValueType} {op : Opcode} {i : Instruction} {rest : List Instruction}

/-! ## Operands that are thrown away -/

/-- Whether a branch to the construct at a depth, or out of the function, takes a value along. -/
def takesValue (env : Surroundings) (d : Nat) (r : Rebuild) : Bool :=
  match r.constructs[d]? with
  | some c => (carriedType c).isSome
  | none => env.type.result.isSome

/-- The operands that a branch throws away. -/
def passedOver (env : Surroundings) (d : Nat) (r : Rebuild) : List Pending :=
  if r.takesValue env d then
    match r.scope.values with
    | v :: vs => (r.leavingWith v vs).scope.values
    | [] => []
  else (r.settle .leaving).scope.values

/-- The operands that an instruction throws away without evaluating them. -/
def abandoned (env : Surroundings) (i : Instruction) (r : Rebuild) : List Pending :=
  let unused (v : Pending) := if v.uses.effects then [] else [v]
  match i.op, r.scope.values with
  | .drop, v :: _ => unused v
  | .unreachable, _ => (r.settle .leaving).scope.values
  | .returnOp, _ => r.passedOver env r.constructs.length
  | .br, _ => i.imm.depth?.elim [] fun d => r.passedOver env d
  | .brIf, cond :: vs =>
    let left := (r.leavingWith cond vs).scope.values
    i.imm.depth?.elim [] fun d => if r.takesValue env d then left.tail else left
  | .brTable, index :: vs =>
    match i.imm with
    | .table _ d =>
      unused index ++ ((r.withValues vs).discard index).passedOver env d
    | _ => []
  | .callIndirect, values => values
  | _, _ => []

/-- Whether no instruction of some code that can be reached throws away an operand that loads. -/
def keepsLoads (env : Surroundings) : List Instruction → Rebuild → Bool
  | [], _ => true
  | i :: rest, r =>
    (!r.reach.isLive || (r.abandoned env i).all fun v => !v.expr.loads) &&
      match r.step env i with
      | .ok r1 => keepsLoads env rest r1
      | .error _ => true

/-! ## Reconstruction along constructs -/

/-- A reconstruction of balanced code, along its constructs, which throws no load away if `keeps`
holds. -/
inductive Passes (env : Surroundings) (keeps : Prop) : List Instruction → Rebuild → Rebuild → Prop
  /-- No code. -/
  | nil {r : Rebuild} : Passes env keeps [] r r
  /-- Code that cannot be reached. -/
  | dead {r : Rebuild} {code : List Instruction} (hdead : r.reach = .dead 0)
      (hcode : Balanced code) : Passes env keeps code r r
  /-- An instruction that is not part of a construct. -/
  | plain {r r1 r2 : Rebuild} {es : List C.Line} {i : Instruction} {rest : List Instruction}
      (hlive : r.reach = .live) (hi : isPlain i.op = true) (h : Acts env i r es r1)
      (hkeeps : keeps → ∀ u ∈ r.abandoned env i, u.expr.loads = false)
      (hrest : Passes env keeps rest r1 r2) :
      Passes env keeps (i :: rest) r r2
  /-- A construct with one arm. -/
  | construct {r r1 r2 r3 r4 : Rebuild} {es es1 : List C.Line} {i e : Instruction}
      {body rest : List Instruction} {result : Option ValueType} (hlive : r.reach = .live)
      (hres : i.imm.block? = some result)
      (henter : Enters r result i.op es r1) (hbody : Passes env keeps body r1 r2)
      (he : e.op = .endOp)
      (hclose : Closes r2 es1 r3) (hrest : Passes env keeps rest r3 r4) :
      Passes env keeps (i :: (body ++ e :: rest)) r r4
  /-- A conditional with two arms. -/
  | conditional {r r1 r2 r3 r4 r5 r6 : Rebuild} {es es1 es2 : List C.Line} {i el e : Instruction}
      {yes no rest : List Instruction} {result : Option ValueType} (hlive : r.reach = .live)
      (hop : i.op = .ifOp) (hres : i.imm.block? = some result)
      (henter : Enters r result .ifOp es r1) (hyes : Passes env keeps yes r1 r2)
      (hel : el.op = .elseOp)
      (hswitch : Switches r2 es1 r3) (hno : Passes env keeps no r3 r4) (he : e.op = .endOp)
      (hclose : Closes r4 es2 r5) (hrest : Passes env keeps rest r5 r6) :
      Passes env keeps (i :: (yes ++ el :: (no ++ e :: rest))) r r6

lemma Enters.opensConstruct (h : Enters r res op es r1) : op.opensConstruct = true := by
  cases h <;> rfl

lemma not_opensConstruct_of_isPlain (h : isPlain op = true) :
    op.opensConstruct = false ∧ op ≠ .endOp ∧ op ≠ .elseOp := by
  cases op <;> simp_all [isPlain, opensConstruct]

variable {code : List Instruction}

/-- The code is balanced. -/
lemma Passes.balanced (h : Passes env keeps code r r1) : Balanced code := by
  induction h with
  | nil => exact .nil
  | dead _ hcode => exact hcode
  | plain _ hi h _ _ ih =>
    obtain ⟨hopen, hend, helse⟩ := not_opensConstruct_of_isPlain hi
    exact .other hopen hend (fun hop => absurd hop helse) ih
  | construct _ _ henter _ he _ _ ihbody ihrest =>
    exact .opens henter.opensConstruct ((ihbody.inside 1).append (.ends he ihrest))
  | conditional _ hop _ _ _ hel _ _ he _ _ ihyes ihno ihrest =>
    refine .opens (by rw [hop]; rfl) ((ihyes.inside 1).append (.other ?_ ?_ (by simp) ?_))
    · simp [hel, opensConstruct]
    · simp [hel]
    · exact (ihno.inside 1).append (.ends he ihrest)

/-- Pending expressions stay in order. -/
lemma Passes.tidy (h : Passes env keeps code r r1) (ht : r.Tidy env) : r1.Tidy env := by
  induction h with
  | nil => exact ht
  | dead => exact ht
  | plain _ _ h _ _ ih => exact ih (ht.acts h)
  | construct _ _ henter _ _ hclose _ ihbody ihrest =>
    exact ihrest ((ihbody (ht.enters henter)).closes hclose)
  | conditional _ _ _ henter _ _ hswitch _ _ hclose _ ihyes ihno ihrest =>
    exact ihrest ((ihno ((ihyes (ht.enters henter)).switches hswitch)).closes hclose)

/-- Opening a construct evaluates operands first. -/
lemma inside_of_enters (h : Enters r res op es r1) :
    ∃ rs ss c cs, Grows r rs ss ∧ Inside rs r1 c cs := by
  cases h with
  | block | loop => exact ⟨r.spillAll, _, _, _, grows_spill _ _, .of_open _ rfl rfl rfl rfl⟩
  | @ifOp cond vs =>
    exact ⟨(r.withValues vs).spillAll, _, _, _, (grows_withValues _).trans (grows_spill _ _),
      .of_open _ rfl rfl rfl rfl⟩

/-- A reconstruction only adds to a state. -/
lemma Passes.grows (h : Passes env keeps code r r1) : ∃ ss, Grows r r1 ss := by
  induction h with
  | nil => exact ⟨_, .refl _⟩
  | dead => exact ⟨_, .refl _⟩
  | plain _ _ h _ _ ih =>
    obtain ⟨ss, hss, -⟩ := writes_of_acts h
    obtain ⟨ts, hts⟩ := ih
    exact ⟨_, hss.trans hts⟩
  | construct _ _ henter _ _ hclose _ ihbody ihrest =>
    obtain ⟨rs, ss, c, cs, hss, hin⟩ := inside_of_enters henter
    obtain ⟨_, hb⟩ := ihbody
    obtain ⟨_, _, hin, -⟩ := hin.grown hb
    obtain ⟨_, hc⟩ := hin.closes hclose
    obtain ⟨_, hr⟩ := ihrest
    exact ⟨_, (hss.trans hc).trans hr⟩
  | conditional _ _ _ henter _ _ hswitch _ _ hclose _ ihyes ihno ihrest =>
    obtain ⟨rs, ss, c, cs, hss, hin⟩ := inside_of_enters henter
    obtain ⟨_, hy⟩ := ihyes
    obtain ⟨_, _, hin, -⟩ := hin.grown hy
    obtain ⟨_, hin, -⟩ := hin.switches hswitch
    obtain ⟨_, hn⟩ := ihno
    obtain ⟨_, _, hin, -⟩ := hin.grown hn
    obtain ⟨_, hc⟩ := hin.closes hclose
    obtain ⟨_, hr⟩ := ihrest
    exact ⟨_, (hss.trans hc).trans hr⟩

/-! ## Whole bodies -/

/-- No construct is open that cannot be reached. -/
def Flat (r : Rebuild) : Prop := r.reach = .live ∨ r.reach = .dead 0

lemma Flat.nested_eq {nested : Nat} (h : r.Flat) (hd : r.reach = .dead nested) : nested = 0 := by
  rcases h with h | h <;> cases hd.symm.trans h
  rfl

lemma reach_labelOf (d : Nat) (c : Construct) : (r.labelOf d c).2.reach = r.reach := by
  unfold labelOf
  split <;> rfl

lemma reach_resultTemp (d : Nat) (c : Construct) (t : ValueType) :
    (r.resultTemp d c t).2.reach = r.reach := by
  unfold resultTemp
  split <;> rfl

lemma scope_labelOf (r : Rebuild) (d : Nat) (c : Construct) :
    (r.labelOf d c).2.scope = r.scope := by
  unfold labelOf
  split <;> rfl

lemma scope_resultTemp (r : Rebuild) (d : Nat) (c : Construct) (t : ValueType) :
    (r.resultTemp d c t).2.scope = r.scope := by
  unfold resultTemp
  split <;> rfl

lemma reach_sequence (count : Nat) : (r.sequence count).reach = r.reach := by
  rcases sequence_eq r count with h | ⟨marked, h⟩ <;> rw [h]
  exact spill_reach _ _

lemma reach_discard (v : Pending) : (r.discard v).reach = r.reach := by
  unfold discard
  split
  · exact settle_reach _
  · rfl

lemma reach_trapIndirect (operands : List Pending) : (trapIndirect operands r).reach = r.reach :=
  trapIndirect_keeps (P := fun r1 => r1.reach = r.reach) rfl (fun _ _ _ h => h) fun _ h => h

/-- Behind a branch nothing can be reached, and no operand waits. -/
lemma killed_of_branches {d : Nat} (h : Branches env d r es r1) :
    r1.reach = .dead 0 ∧ r1.scope.values = [] := by
  cases h with
  | leave _ hl => cases hl <;> exact ⟨rfl, rfl⟩
  | value => exact ⟨rfl, rfl⟩
  | plain => exact ⟨rfl, rfl⟩

lemma reach_of_branchesIf {d : Nat} {cond : Pending}
    (h : BranchesIf env d cond r es r1) : r1.reach = r.reach := by
  cases h with
  | leaveWith | leave => rfl
  | value => exact (reach_resultTemp _ _ _).trans (reach_labelOf _ _)
  | plain => exact reach_labelOf _ _

/-- Where control does not go on behind an instruction, no operand waits. -/
lemma killed_of_acts (hop : i.op.fallsThrough = false) (h : Acts env i r es r1) :
    r1.reach = .dead 0 ∧ r1.scope.values = [] := by
  cases h with
  | unreachable => exact ⟨rfl, rfl⟩
  | br _ _ h => exact killed_of_branches h
  | brTable _ _ _ h => exact killed_of_branches h
  | returnOp _ h => cases h <;> exact ⟨rfl, rfl⟩
  | _ h => simp [h, fallsThrough] at hop

/-- Where control goes on behind an instruction, the next one can be reached. -/
lemma live_of_acts (hop : i.op.fallsThrough = true) (hl : r.reach = .live)
    (h : Acts env i r es r1) : r1.reach = .live := by
  cases h with
  | unreachable h | br h | brTable h | returnOp h => simp [h, fallsThrough] at hop
  | brIf _ _ _ h => exact (reach_of_branchesIf h).trans ((settle_reach _).trans hl)
  | call | numeric => exact (reach_sequence _).trans hl
  | callPlain | store => exact (settle_reach _).trans ((reach_sequence _).trans hl)
  | callIndirect | callIndirectPlain =>
    exact (reach_trapIndirect _).trans ((settle_reach _).trans hl)
  | drop => exact (reach_discard _).trans hl
  | select => exact (spill_reach _ _).trans hl
  | setLocal | teeLocal | setGlobal => exact (settle_reach _).trans hl
  | nop | getLocal | getGlobal | currentMemory | growMemory | const | load => exact hl

/-- An instruction that is not part of a construct leaves operands behind only where the next one
can be reached. -/
lemma live_or_killed_of_acts (hl : r.reach = .live) (h : Acts env i r es r1) :
    r1.reach = .live ∨ r1.reach = .dead 0 ∧ r1.scope.values = [] := by
  cases hop : i.op.fallsThrough with
  | true => exact .inl (live_of_acts hop hl h)
  | false => exact .inr (killed_of_acts hop h)

/-- Behind an instruction that is not part of a construct. -/
lemma flat_of_acts (hl : r.reach = .live) (h : Acts env i r es r1) : r1.Flat :=
  (live_or_killed_of_acts hl h).imp_right And.left

lemma flat_leaveConstruct (c : Construct) (cs : List Construct) (reachable : Bool) :
    (leaveConstruct c cs reachable r).Flat := by
  cases reachable
  · exact .inr rfl
  · exact .inl rfl

lemma flat_of_closes (h : Closes r es r1) : r1.Flat := by
  obtain ⟨c, cs, -, h⟩ := h
  cases h with
  | folded => exact .inl rfl
  | plain | unreached | carriedUnreached => exact flat_leaveConstruct _ _ _
  | direct | store | carried => exact .inl rfl

/-- One instruction, and then the others. -/
lemma outcome_run_cons (i : Instruction) (rest : List Instruction) :
    (run env (i :: rest) r).outcome = (r.step env i).bind fun r1 => (run env rest r1).outcome := by
  have hlift : ∀ x : Except Failure Rebuild, (liftM x : Traced Rebuild).outcome = x := fun _ => rfl
  rw [run]
  split
  · simp only [Traced.outcome_bind, Traced.outcome_note, hlift]
    rfl
  · simp only [Traced.outcome_bind, hlift]

lemma run_cons_eq_ok : (run env (i :: rest) r).outcome = .ok r1 ↔
      ∃ r2, r.step env i = .ok r2 ∧ (run env rest r2).outcome = .ok r1 := by
  rw [outcome_run_cons]
  exact bind_eq_ok

/-- Code, and then other code. -/
lemma outcome_run_append (code code' : List Instruction) : (run env (code ++ code') r).outcome =
      (run env code r).outcome.bind fun r => (run env code' r).outcome := by
  induction code generalizing r with
  | nil => rfl
  | cons i rest ih =>
    rw [List.cons_append, outcome_run_cons, outcome_run_cons]
    cases r.step env i with
    | error e => rfl
    | ok r1 => exact ih

lemma run_append_eq_ok {pre : List Instruction} : (run env (pre ++ rest) r).outcome = .ok r1 ↔
      ∃ r2, (run env pre r).outcome = .ok r2 ∧ (run env rest r2).outcome = .ok r1 := by
  rw [outcome_run_append]
  exact bind_eq_ok

/-- Code that is read one instruction after the other. -/
inductive Reads (env : Surroundings) (keeps : Prop) : List Instruction → Rebuild → Rebuild → Prop
  /-- No code. -/
  | nil {r : Rebuild} : Reads env keeps [] r r
  /-- One instruction, and then the others. -/
  | cons {r r1 r2 : Rebuild} {i : Instruction} {rest : List Instruction}
      (hkeeps : r.reach = .live → keeps → ∀ u ∈ r.abandoned env i, u.expr.loads = false)
      (hstep : r.step env i = .ok r1) (hrest : Reads env keeps rest r1 r2) :
      Reads env keeps (i :: rest) r r2

lemma Reads.uncons (h : Reads env keeps (i :: rest) r r1) :
    (r.reach = .live → keeps → ∀ u ∈ r.abandoned env i, u.expr.loads = false) ∧
      ∃ r2, r.step env i = .ok r2 ∧ Reads env keeps rest r2 r1 := by
  cases h with
  | cons hkeeps hstep hr => exact ⟨hkeeps, _, hstep, hr⟩

lemma reads_of_run (hrun : (run env code r).outcome = .ok r1)
    (hkeeps : keeps → keepsLoads env code r = true) : Reads env keeps code r r1 := by
  induction code generalizing r with
  | nil =>
    rw [run, Traced.outcome_pure, Except.ok.injEq] at hrun
    exact hrun ▸ .nil
  | cons i rest ih =>
    obtain ⟨r2, hstep, hr⟩ := run_cons_eq_ok.mp hrun
    simp only [keepsLoads, hstep, Bool.and_eq_true] at hkeeps
    refine .cons (fun hl hk => ?_) hstep (ih hr fun hk => (hkeeps hk).2)
    simpa [hl, Reach.isLive] using (hkeeps hk).1

/-- What an instruction does: the lines it writes, and the state it leads to. -/
inductive Steps (env : Surroundings) (i : Instruction) (r : Rebuild) :
    List C.Line → Rebuild → Prop
  /-- An instruction that is neither a construct nor part of one. -/
  | acts {es : List C.Line} {r1 : Rebuild} (hlive : r.reach = .live) (hplain : isPlain i.op = true)
      (h : Acts env i r es r1) : Steps env i r es r1
  /-- The start of a construct. -/
  | enters {result : Option ValueType} {es : List C.Line} {r1 : Rebuild}
      (hlive : r.reach = .live) (hres : i.imm.block? = some result)
      (h : Enters r result i.op es r1) : Steps env i r es r1
  /-- The change between the arms of a conditional. -/
  | switches {es : List C.Line} {r1 : Rebuild} (hop : i.op = .elseOp) (hflat : r.Flat)
      (h : Switches r es r1) : Steps env i r es r1
  /-- The end of a construct. -/
  | closes {es : List C.Line} {r1 : Rebuild} (hop : i.op = .endOp) (hflat : r.Flat)
      (h : Closes r es r1) : Steps env i r es r1
  /-- An instruction that is skipped, as it cannot be reached. Only the nesting is kept. -/
  | skips {nested nested' : Nat} (hdead : r.reach = .dead nested)
      (hnests : Nests nested [i] nested') :
      Steps env i r [] { r with reach := .dead nested' }

/-- What a successful step does. -/
lemma steps_of_step (h : r.step env i = .ok r1) : ∃ es, Steps env i r es r1 := by
  unfold step at h
  cases hr : r.reach with
  | live =>
    rw [hr] at h
    cases hplain : isPlain i.op with
    | true =>
      obtain ⟨es, ha⟩ := acts_of_stepLive hplain h
      exact ⟨es, .acts hr hplain ha⟩
    | false =>
      cases hop : i.op <;> simp only [hop, isPlain, Bool.true_eq_false] at hplain
      case elseOp =>
        simp only [hop, stepLive] at h
        obtain ⟨es, hs⟩ := switches_of_switchArm h
        exact ⟨es, .switches hop (.inl hr) hs⟩
      case endOp =>
        simp only [hop, stepLive] at h
        obtain ⟨es, hc⟩ := closes_of_close h
        exact ⟨es, .closes hop (.inl hr) hc⟩
      all_goals
        simp only [hop, stepLive, bind_eq_ok, Site.need_eq_ok] at h
        obtain ⟨res, hres, he⟩ := h
        obtain ⟨es, he⟩ := enters_of_enter rfl he
        exact ⟨es, .enters hr hres (hop ▸ he)⟩
  | dead nested =>
    rw [hr] at h
    simp only [stepDead] at h
    cases hopen : i.op.opensConstruct with
    | true =>
      rw [hopen, if_pos rfl, Except.ok.injEq] at h
      exact ⟨[], h ▸ .skips hr (.opens hopen .nil)⟩
    | false =>
      rw [hopen, if_neg (by simp)] at h
      split at h
      · obtain ⟨es, hs⟩ := switches_of_switchArm h
        exact ⟨es, .switches ‹_› (.inr hr) hs⟩
      · obtain ⟨es, hc⟩ := closes_of_close h
        exact ⟨es, .closes ‹_› (.inr hr) hc⟩
      · rw [Except.ok.injEq] at h
        exact ⟨[], h ▸ .skips hr (.ends ‹_› .nil)⟩
      · rename_i helse hend hends
        obtain rfl := Except.ok.inj h
        have hsame : Steps env i r [] _ := .skips hr (.other hopen (fun hop =>
          (Nat.eq_zero_or_eq_succ_pred _).elim (hend hop) (hends _ hop)) helse .nil)
        rw [← hr] at hsame
        exact ⟨[], hsame⟩

/-- The `end` of a construct. -/
lemma Steps.of_endOp (hop : i.op = .endOp) (h : Steps env i r es r1) :
    r.Flat ∧ Closes r es r1 ∨ ∃ nested, r.reach = .dead (nested + 1) := by
  cases h with
  | acts _ hplain => exact absurd hop (not_opensConstruct_of_isPlain hplain).2.1
  | enters _ _ h => simpa [hop, opensConstruct] using h.opensConstruct
  | switches helse => simp [hop] at helse
  | closes _ hflat h => exact .inl ⟨hflat, h⟩
  | skips hd hnests =>
    cases hnests with
    | opens hopen => simp [hop, opensConstruct] at hopen
    | ends => exact .inr ⟨_, hd⟩
    | other _ hend => exact absurd hop hend

/-- The `else` of a construct. -/
lemma Steps.of_elseOp (hop : i.op = .elseOp) (h : Steps env i r es r1) :
    r.Flat ∧ Switches r es r1 ∨ ∃ nested, r.reach = .dead (nested + 1) := by
  cases h with
  | acts _ hplain => exact absurd hop (not_opensConstruct_of_isPlain hplain).2.2
  | enters _ _ h => simpa [hop, opensConstruct] using h.opensConstruct
  | switches _ hflat h => exact .inl ⟨hflat, h⟩
  | closes hend => simp [hop] at hend
  | skips hd hnests =>
    cases hnests with
    | opens hopen => simp [hop, opensConstruct] at hopen
    | ends hend => simp [hop] at hend
    | other _ _ helse => exact .inr ⟨_, Nat.succ_pred (helse hop) ▸ hd⟩

/-- The `end` or `else` of a construct. -/
def Stops (e : Instruction) (r : Rebuild) (es : List C.Line) (r1 : Rebuild) : Prop :=
  e.op = .endOp ∧ Closes r es r1 ∨ e.op = .elseOp ∧ Switches r es r1

/-- How a reconstruction that starts outside of every unreachable construct goes on. -/
inductive Splits (env : Surroundings) (keeps : Prop) (code : List Instruction) (r r' : Rebuild) :
    Prop
  /-- The code is balanced. -/
  | whole (h : Passes env keeps code r r')
  /-- The code reaches the `end` or `else` of a construct that it does not open. -/
  | stops {r1 r2 : Rebuild} {es : List C.Line} {pre rest : List Instruction} {e : Instruction}
      (hcode : code = pre ++ e :: rest) (h : Passes env keeps pre r r1)
      (he : Stops e r1 es r2) (hrest : Reads env keeps rest r2 r')
  /-- The code opens a construct and does not close it. -/
  | inside (h : r.constructs.length < r'.openConstructs)

/-- Code that passes comes before code that is taken apart. -/
lemma Splits.prepend (pre : List Instruction) (h : Splits env keeps rest r1 r2)
    (hlen : r1.constructs.length = r.constructs.length)
    (hpass : ∀ {code : List Instruction} {r2 : Rebuild},
      Passes env keeps code r1 r2 → Passes env keeps (pre ++ code) r r2) :
    Splits env keeps (pre ++ rest) r r2 := by
  cases h with
  | whole h => exact .whole (hpass h)
  | stops hcode h he hr =>
    exact .stops (by rw [hcode, List.append_assoc]) (hpass h) he hr
  | inside h => exact .inside (hlen ▸ h)

/-- Instructions that cannot be reached. -/
lemma reads_dead {d : Nat} (hreads : Reads env keeps code { r with reach := .dead d } r1) :
    (∃ d', Nests d code d' ∧ r1 = { r with reach := .dead d' }) ∨
      ∃ pre rest e es r2, code = pre ++ e :: rest ∧ Nests d pre 0 ∧
        Stops e { r with reach := .dead 0 } es r2 ∧ Reads env keeps rest r2 r1 := by
  induction code generalizing d with
  | nil =>
    cases hreads
    exact .inl ⟨d, .nil, rfl⟩
  | cons i rest ih =>
    obtain ⟨-, r2, hstep, hr⟩ := hreads.uncons
    obtain ⟨es, hss⟩ := steps_of_step hstep
    cases hss with
    | acts hl | enters hl => cases hl
    | switches hop hflat h =>
      obtain rfl : d = 0 := hflat.nested_eq rfl
      exact .inr ⟨[], rest, i, es, r2, rfl, .nil, .inr ⟨hop, h⟩, hr⟩
    | closes hop hflat h =>
      obtain rfl : d = 0 := hflat.nested_eq rfl
      exact .inr ⟨[], rest, i, es, r2, rfl, .nil, .inl ⟨hop, h⟩, hr⟩
    | skips hd hnests =>
      -- Whatever the instruction does to the nesting, the rest goes on from there.
      cases hd
      rcases ih hr with ⟨d', hn, hr1⟩ | ⟨pre, rest', e, es, r3, rfl, hn, hrest'⟩
      · exact .inl ⟨d', hnests.append hn, hr1⟩
      · exact .inr ⟨i :: pre, rest', e, es, r3, rfl, hnests.append hn, hrest'⟩

/-- Code that cannot be reached is taken apart. -/
lemma splits_of_dead (hd : r.reach = .dead 0)
    (hreads : Reads env keeps code r r1) : Splits env keeps code r r1 := by
  have hr : r = { r with reach := .dead 0 } := by rw [← hd]
  rw [hr] at hreads
  rcases reads_dead hreads with ⟨d', hn, hr1⟩ | ⟨pre, rest, e, es, r2, hcode, hn, he, hrest⟩
  · cases d' with
    | zero =>
      rw [hr1, ← hr]
      exact .whole (.dead hd hn)
    | succ d' => exact .inside (by simp [hr1, openConstructs])
  · rw [← hr] at he
    exact .stops hcode (.dead hd hn) he hrest

lemma Passes.length_constructs (h : Passes env keeps code r r1) :
    r1.constructs.length = r.constructs.length := by
  obtain ⟨ss, hg⟩ := h.grows
  exact hg.length

/-- The kind of the innermost construct stays. -/
lemma Passes.kind (h : Passes env keeps code r r1) {c c1 : Construct} {cs outer1 : List Construct}
    (hc : r.constructs = c :: cs) (hc1 : r1.constructs = c1 :: outer1) : c1.kind = c.kind := by
  obtain ⟨ss, hg⟩ := h.grows
  obtain ⟨c', hc', hgrows⟩ := hg.construct 0 c (by rw [hc]; rfl)
  rw [hc1, List.getElem?_cons_zero, Option.some.injEq] at hc'
  rw [hc']
  exact hgrows.kind

lemma length_constructs_le (r : Rebuild) : r.constructs.length ≤ r.openConstructs :=
  Nat.le_add_right _ _

lemma length_constructs_closes (h : Closes r es r1) :
    r.constructs.length = r1.constructs.length + 1 := by
  obtain ⟨c, cs, hcs, h⟩ := h
  cases h <;> rw [hcs] <;> rfl

lemma length_constructs_enters (h : Enters r res op es r1) :
    r1.constructs.length = r.constructs.length + 1 := by
  cases h <;> simp [openConstruct, openLoop, spillAll, withValues]

/-- The change between arms leaves the conditional in its second arm. -/
lemma exists_elseArm_of_switches (h : Switches r es r1) :
    r1.constructs.length = r.constructs.length ∧ r1.reach = .live ∧
      (∃ c cs cond, r.constructs = c :: cs ∧ c.kind = .ifArm cond) ∧
      ∃ c cs cond thenCode thenValue live,
        r1.constructs = c :: cs ∧ c.kind = .elseArm cond thenCode thenValue live := by
  obtain ⟨c, cs, cond, hcs, hkind, h⟩ := h
  cases h <;>
    exact ⟨by rw [hcs]; rfl, rfl, ⟨_, _, _, hcs, hkind⟩, _, _, _, _, _, _, rfl, rfl⟩

/-- Only a conditional has two arms. -/
lemma op_eq_ifOp (h : Enters r res op es r1) {c : Construct} {cs : List Construct}
    {cond : Pending} (hbody : Passes env keeps code r1 r2) (hc : r2.constructs = c :: cs)
    (hk : c.kind = .ifArm cond) : op = .ifOp := by
  cases h with
  | block =>
    have := hbody.kind (by rfl) hc
    rw [hk] at this
    cases this
  | loop =>
    have := hbody.kind (by rfl) hc
    rw [hk] at this
    cases this
  | ifOp => rfl

lemma reach_of_enters (h : Enters r res op es r1) : r1.reach = r.reach := by
  cases h <;> exact spill_reach _ _

/-- A construct is taken apart, if shorter code can be. -/
lemma splits_of_enters {r' : Rebuild} (hl : r.reach = .live)
    (hres : i.imm.block? = some res) (henter : Enters r res i.op es r1)
    (ih : ∀ {code : List Instruction} {r : Rebuild}, code.length < (i :: rest).length → r.Flat →
      Reads env keeps code r r' → Splits env keeps code r r')
    (hr : Reads env keeps rest r1 r') : Splits env keeps (i :: rest) r r' := by
  have hlen1 := length_constructs_enters henter
  have hle := length_constructs_le r'
  cases ih (by simp) (.inl ((reach_of_enters henter).trans hl)) hr with
  | whole h => exact .inside (by have := h.length_constructs; omega)
  | inside h => exact .inside (by omega)
  | @stops r2 r3 _ body rest' e hcode hbody he hrest' =>
    subst hcode
    have hlen2 := hbody.length_constructs
    rcases he with ⟨he, hclose⟩ | ⟨hel, hswitch⟩
    · -- The construct has one arm.
      have hlen3 := length_constructs_closes hclose
      have := (ih (by simp; omega) (flat_of_closes hclose) hrest').prepend (r := r)
        (i :: (body ++ [e])) (by omega) fun h => by
          have := Passes.construct hl hres henter hbody he hclose h
          simpa using this
      simpa using this
    · -- The construct is a conditional with two arms.
      obtain ⟨hlen3, hlive3, ⟨c, cs, cond, hc, hk⟩, c1, outer1, _, _, _, _, hc1, hkind1⟩ :=
        exists_elseArm_of_switches hswitch
      have hop := op_eq_ifOp henter hbody hc hk
      cases ih (by simp; omega) (.inl hlive3) hrest' with
      | whole h => exact .inside (by have := h.length_constructs; omega)
      | inside h => exact .inside (by omega)
      | @stops r4 r5 _ no rest'' e' hcode hno he' hrest'' =>
        subst hcode
        have hlen4 := hno.length_constructs
        rcases he' with ⟨he', hclose⟩ | ⟨-, hswitch'⟩
        · have hlen5 := length_constructs_closes hclose
          have := (ih (by simp; omega) (flat_of_closes hclose) hrest'').prepend (r := r)
            (i :: (body ++ e :: (no ++ [e']))) (by omega) fun h => by
              have := Passes.conditional hl hop hres (hop ▸ henter) hbody hel hswitch hno he'
                hclose h
              simpa using this
          simpa using this
        · -- There is no third arm.
          obtain ⟨-, -, ⟨c2, outer2, _, hc2, hkind2⟩, -⟩ := exists_elseArm_of_switches hswitch'
          have := hno.kind hc1 hc2
          rw [hkind1, hkind2] at this
          cases this

/-- A reconstruction is taken apart along the constructs of the code.

**Proof sketch.** By induction on the length of the code. An instruction that opens a construct is
followed by code that is taken apart by the induction hypothesis; it either stops at the `end` or
`else` of the construct, and what follows is shorter, or never closes it. -/
theorem splits_of_reads (hflat : r.Flat) (hreads : Reads env keeps code r r1) :
    Splits env keeps code r r1 := by
  induction hn : code.length using Nat.strongRecOn generalizing code r with
  | ind n ih =>
    subst hn
    rcases hflat.symm with hd | hl
    · exact splits_of_dead hd hreads
    cases code with
    | nil =>
      cases hreads
      exact .whole .nil
    | cons i rest =>
      obtain ⟨hkeeps, r2, hstep, hr⟩ := hreads.uncons
      obtain ⟨es, hss⟩ := steps_of_step hstep
      cases hss with
      | acts _ hplain hacts =>
        obtain ⟨ss, hg, -⟩ := writes_of_acts hacts
        exact (ih rest.length (by simp) (flat_of_acts hl hacts) hr rfl).prepend [i] hg.length
          (.plain hl hplain hacts (hkeeps hl))
      | enters _ hres henter =>
        exact splits_of_enters hl hres henter (fun hlt hflat hreads => ih _ hlt hflat hreads rfl) hr
      | switches hop _ h => exact .stops rfl .nil (.inr ⟨hop, h⟩) hr
      | closes hop _ h => exact .stops rfl .nil (.inl ⟨hop, h⟩) hr
      | skips hd =>
        rw [hl] at hd
        cases hd

/-- **The reconstruction of a whole body follows its constructs.** -/
theorem passes_of_run (hrun : (run env code {}).outcome = .ok r1) (hopen : r1.openConstructs = 0) :
    Passes env (keepsLoads env code {} = true) code {} r1 := by
  cases splits_of_reads (.inl rfl) (reads_of_run hrun id) with
  | whole h => exact h
  | stops _ h he =>
    have hlen := h.length_constructs
    rcases he with ⟨-, hc⟩ | ⟨-, hs⟩
    · rw [length_constructs_closes hc] at hlen
      cases hlen
    · obtain ⟨-, -, ⟨c, cs, cond, hcs, -⟩, -⟩ := exists_elseArm_of_switches hs
      rw [hcs] at hlen
      cases hlen
  | inside h =>
    rw [hopen] at h
    cases h

end Rebuild

end WasmToC

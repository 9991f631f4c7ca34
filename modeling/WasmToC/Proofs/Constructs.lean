import Mathlib.Data.Option.Basic
import WasmToC.Proofs.Closing

/-!
# Running constructs

Whatever a run of WebAssembly code does, the statements that were emitted for the code do, if they
stand where their labels can be found. A construct is one statement, which is entered at its first
line and left behind its last; a loop is entered again by a jump to the label in front of it.

## Main definitions

* `Wasm.arm`, `Wasm.iterate` — runs of constructs without what follows them.
* `Setting.Follows` — the statements for some code do what the code does.

## Main results

* `Setting.follows_of_passes` — the statements for balanced code do what the code does.
-/

namespace WasmToC

open List Option
open C (Expr Stmt Frame Line Config tempName localName)
open C.Stmt (flattenAll)

/-! ## Runs of constructs -/

namespace Wasm

variable {μ σ : Type} (H : Host μ σ) (m : Module) (fuel : Nat) {i el e : Instruction}
  {res : Option ValueType} {body yes no : List Instruction}

/-- The run of an arm of a construct, seen from outside. -/
def arm (code : List Instruction) (res : Option ValueType) (s : State μ σ) : Option (Outcome μ σ) :=
  (exec H m fuel code s.inside).map (Outcome.exit res s.stack)

/-- The run of a loop, seen from outside. -/
def iterate (body : List Instruction) (res : Option ValueType) :
    (fuel : Nat) → State μ σ → Option (Outcome μ σ)
  | 0, _ => none
  | fuel + 1, s => do
    match ← exec H m fuel body s.inside with
    | .branch 0 again => iterate body res fuel { again with stack := s.stack }
    | o => some (o.exit res s.stack)

section Constructs

variable (hres : i.imm.block? = some res) (he : e.op = .endOp) (rest : List Instruction)
include hres he

lemma exec_block (hop : i.op = .block) (hbody : Balanced body) (s : State μ σ) :
    exec H m (fuel + 1) (i :: (body ++ e :: rest)) s =
      (arm H m fuel body res s).bind fun o => o.andThen (exec H m fuel rest) := by
  simp [exec, arm, hop, hres, bodyOf_balanced hbody he, Option.bind_map]

/-- The run of a loop ends, and what follows is run. -/
lemma exec_loop (hop : i.op = .loop) (hbody : Balanced body) {s : State μ σ} {o : Outcome μ σ}
    (h : exec H m fuel (i :: (body ++ e :: rest)) s = some o) :
    ∃ fuel' o1, iterate H m body res fuel s = some o1 ∧
      o1.andThen (exec H m fuel' rest) = some o := by
  induction fuel generalizing s with
  | zero => simp [exec] at h
  | succ fuel ih =>
    simp only [exec, hop, hres, bodyOf_balanced hbody he, bind_eq_bind, bind_some] at h
    obtain ⟨o2, ho2, h⟩ := bind_eq_some_iff.mp h
    simp only [iterate, ho2, bind_eq_bind, bind_some]
    cases o2 with
    | next | leave | trap => exact ⟨fuel, _, rfl, h⟩
    | branch d again =>
      cases d with
      | zero => exact ih h
      | succ => exact ⟨fuel, _, rfl, h⟩

variable (hop : i.op = .ifOp) (x : Value) (stack ls : List Value) (w : World μ σ)
include hop

/-- The run of a conditional with one arm. -/
lemma exec_if (hbody : Balanced body) :
    exec H m (fuel + 1) (i :: (body ++ e :: rest)) ⟨x :: stack, ls, w⟩ =
      (arm H m fuel (if x.isTrue then body else []) res ⟨stack, ls, w⟩).bind
        fun o => o.andThen (exec H m fuel rest) := by
  simp [exec, arm, hop, hres, bodyOf_balanced hbody he, armsOf_balanced hbody, State.pop,
    Option.bind_map]

/-- The run of a conditional with two arms. -/
lemma exec_ifElse (hyes : Balanced yes) (hel : el.op = .elseOp) (hno : Balanced no) :
    exec H m (fuel + 1) (i :: (yes ++ el :: (no ++ e :: rest))) ⟨x :: stack, ls, w⟩ =
      (arm H m fuel (if x.isTrue then yes else no) res ⟨stack, ls, w⟩).bind
        fun o => o.andThen (exec H m fuel rest) := by
  simp [exec, arm, hop, hres, bodyOf_arms hyes hel hno he, armsOf_arms hyes hel, State.pop,
    Option.bind_map]

end Constructs

/-- The run of an instruction that is not part of a construct. -/
lemma exec_plain (hi : Rebuild.isPlain i.op = true) (rest : List Instruction) (s : State μ σ) :
    exec H m (fuel + 1) (i :: rest) s =
      (perform H m i s).bind fun o => o.andThen (exec H m fuel rest) := by
  unfold exec
  split <;> simp_all [Rebuild.isPlain]

end Wasm

namespace Rebuild

variable {r r1 : Rebuild} {es : List Line}

lemma Closes.size_temps (h : Closes r es r1) : r.temps.size ≤ r1.temps.size := by
  simpa using h.temps.length_le

lemma Switches.size_temps (h : Switches r es r1) : r.temps.size ≤ r1.temps.size := by
  simpa using h.temps.length_le

/-- A value is kept only for a first arm that computes nothing else. -/
lemma Switches.kept (h : Switches r es r1) {c c1 : Construct} {cs outer1 : List Construct}
    (hcs : r.constructs = c :: cs) (hcs1 : r1.constructs = c1 :: outer1)
    {cond v : Pending} {thenCode : Array Stmt} {live : Bool}
    (hk : c1.kind = .elseArm cond thenCode (some v) live) :
    c.kind = .ifArm cond ∧ r.scope.values = [v] ∧ r.scope.code = #[] := by
  obtain ⟨cond', hkind', h⟩ := h.innermost hcs
  cases h with
  | keep _ _ hvs hcode =>
    simp only [toElse, List.cons.injEq] at hcs1
    obtain ⟨rfl, -⟩ := hcs1
    cases hk
    exact ⟨hkind', hvs, hcode⟩
  | store | plain =>
    simp only [toElse, List.cons.injEq] at hcs1
    obtain ⟨rfl, -⟩ := hcs1
    simp at hk

end Rebuild

namespace Setting

open Rebuild
open Wasm (Outcome State exec arm iterate)

variable {μ σ : Type} {S : Setting μ σ}

variable (S) in
/-- The statements that were emitted between two states of reconstruction do what some code does, if
they stand where their labels can be found. -/
def Follows (fuel : Nat) (code : List Instruction) (r r1 : Rebuild) : Prop :=
  ∀ ⦃ss : List Stmt⦄ ⦃k : List Line⦄ ⦃F : Frame⦄ ⦃w : World μ σ⦄ ⦃o : Outcome μ σ⦄,
    r1.scope.code.toList = r.scope.code.toList ++ ss → flattenAll ss ++ k <:+ S.whole →
    S.Continues r.scope.values (exec S.host S.env.inModule fuel code) o F w → S.Granted o →
      S.Answers r r1 (ss = []) k F (.running (flattenAll ss ++ k) F w) o

variable {r r1 r2 r3 r4 rs : Rebuild} {s s' : State μ σ} {F F1 : Frame} {w w1 : World μ σ}
  {o o1 : Outcome μ σ} {ss ss1 ss2 : List Stmt} {k : List Line} {fuel : Nat}
  {code rest : List Instruction} {c : Construct} {cs : List Construct} {stack ls : List Value}
  {es es1 es2 : List Line}

/-! ## One piece of code after the other -/

/-- A load that is out of bounds before some code is run is followed without running the code. -/
lemma follows_of_succ (h : ∀ fuel, S.Follows (fuel + 1) code r r1) (fuel : Nat) :
    S.Follows fuel code r r1 := by
  cases fuel with
  | zero =>
    intro ss k F w o hcode hk hc hgr
    obtain ⟨ls, hr, hc⟩ := hc
    exact h 0 hcode hk ⟨ls, hr, resume_mono hc fun _ _ h => by simp [exec] at h⟩ hgr
  | succ fuel => exact h fuel

/-- Code goes on where the code before has ended. -/
lemma Answers.andThen {silent silent1 : Prop} {start : Config μ σ}
    (h : S.Answers r r1 silent1 (flattenAll ss2 ++ k) F start o1) (hg : Grows r r1 ss1)
    (hg2 : Grows r1 r2 ss2) (hr : r1.reach = .live → S.Follows fuel rest r1 r2)
    (hk : flattenAll ss2 ++ k <:+ S.whole) (hsilent : silent → silent1 ∧ ss2 = [])
    (ho : o1.andThen (exec S.host S.env.inModule fuel rest) = some o) (hgr : S.Granted o) :
    S.Answers r r2 silent k F start o := by
  cases h with
  | crash hs h =>
    obtain ⟨cause, w, rfl, h⟩ := h
    cases ho
    exact .crash (fun h => hs (hsilent h).1) ⟨cause, w, rfl, h⟩
  | arrive hlive htr hkept hl hs =>
    exact (hr hlive hg2.code hk (htr.andThen ho) hgr).after (fun hk' => hkept.trans (hk'.grown hg))
      hl fun h => ⟨(hsilent h).2, hs (hsilent h).1⟩
  | leave ho1 hs h =>
    rw [← hg2.length] at ho1
    obtain rfl : o1 = o := by rcases ho1 with rfl | rfl <;> exact Option.some.inj ho
    exact .leave ho1 (fun h => hs (hsilent h).1) h
  | jump ho1 hs hc hkept h =>
    subst ho1
    cases ho
    obtain ⟨c', hc', hserves⟩ := serves_constructs hg2 _ _ hc
    exact .jump rfl (fun h => hs (hsilent h).1) hc' hkept (h.serves hserves)

/-- **A construct, and what follows it.** The operands below those that the construct takes are
evaluated first, so that they stand for the same values whatever happens inside. -/
theorem follows_of_construct (above : List Pending) {vs : List Pending}
    (run : List Value → State μ σ → Option (Outcome μ σ)) (ht : r.Tidy S.env)
    (hvs : r.scope.values = above ++ vs) (hT : r3.temps.size ≤ S.temps)
    (hg3 : Grows (r.withValues vs).spillAll r3 ss) (hg4 : Grows r3 r4 ss2)
    (hrest : r3.reach = .live → ∀ fuel, S.Follows fuel rest r3 r4)
    (hexec : ∀ {xs stack ls : List Value} {w : World μ σ} {o : Outcome μ σ},
      xs.length = above.length →
      exec S.host S.env.inModule fuel code ⟨xs ++ stack, ls, w⟩ = some o →
        ∃ fuel' o1, run xs ⟨stack, ls, w⟩ = some o1 ∧
          o1.andThen (exec S.host S.env.inModule fuel' rest) = some o)
    (h : ∀ {k : List Line} {F : Frame} {w : World μ σ} {o : Outcome μ σ} {stack ls : List Value},
      flattenAll ss ++ k <:+ S.whole → S.Ready ls F →
      S.Stands (r.withValues vs).spillAll stack F → S.Granted o →
      (S.meaning F above w).resume (fun xs w => run xs ⟨stack, ls, w⟩) = some o →
        S.Answers (r.withValues vs).spillAll r3 (ss = []) k F
          (.running (flattenAll ss ++ k) F w) o) :
    S.Follows fuel code r r4 := by
  intro ts k F w o hcode hk hc hgr
  rw [hvs] at hc
  have htidy : (r.withValues vs).Tidy S.env :=
    ht.withValues fun v hv => by simp [hvs, hv]
  have hadv : S.Advances r (r.withValues vs).spillAll F w o
      (S.Continues (above ++ (r.withValues vs).spillAll.scope.values) _ o) :=
    ((Advances.refl hc).thenNothing (grows_withValues vs) fun _ _ => id).spill above htidy
      (fun v hv => (ht.admits_value (by simp [hvs, hv])).withValues vs) _ _
      (Nat.le_trans hg3.size_temps hT)
  obtain ⟨ss0, hg0, hans⟩ := hadv.behind (hg3.trans hg4)
  obtain rfl : ts = ss0 ++ (ss ++ ss2) := append_cancel_left (hcode.symm.trans hg0.code)
  refine hans k ?_
  rintro F1 w1 ⟨ls, hr, hc⟩
  rw [meaning_append, resume_andThen] at hc
  obtain ⟨stack, hst⟩ := exists_stands htidy.spillAll (fun v => isStable_of_mem_spillAll) hr
    (ne_error_of_resume hc)
  simp only [hst hr (.refl _ _ _), resume_ok, resume_andThen] at hc
  obtain ⟨fuel', o1, hrun, ho⟩ : ∃ fuel' o1,
      (S.meaning F1 above w1).resume (fun xs w => run xs ⟨stack, ls, w⟩) = some o1 ∧
        o1.andThen (exec S.host S.env.inModule fuel' rest) = some o := by
    rcases resume_cases hc with ⟨xs, w2, hm, hx⟩ | ⟨w2, hm, rfl⟩ <;> rw [hm]
    · exact hexec (length_meaning hm) hx
    · exact ⟨0, _, rfl, rfl⟩
  simp only [Stmt.flattenAll_append, append_assoc] at hk ⊢
  have hk := (suffix_append _ _).trans hk
  exact (h hk hr hst (granted_of_andThen ho hgr) hrun).andThen hg3 hg4 (fun hl => hrest hl fuel')
    ((suffix_append _ _).trans hk) append_eq_nil_iff.mp ho hgr

/-! ## Constructs -/

lemma findLabel_labelLine {label : Option Nat} {K : List Line}
    (hk : C.labelLine label ++ K <:+ S.whole) (l : Nat) (hl : label = some l) :
    C.findLabel l S.whole = some (.label l :: K) := by
  subst hl
  exact C.findLabel_of_suffix S.labels hk

/-- A construct starts with no operands of its own. -/
lemma continues_inside (hr : S.Ready ls F)
    (ho : exec S.host S.env.inModule fuel code ⟨[], ls, w⟩ = some o) :
    S.Continues [] (exec S.host S.env.inModule fuel code) o F w :=
  ⟨ls, hr, ho⟩

/-- Only a conditional without a result can have a single arm. -/
lemma result_eq_none_of_closes {cond : Pending} (hcs : r.constructs = c :: cs)
    (hk : c.kind = .ifArm cond) (h : Closes r es2 r1) : c.result = none := by
  cases h.innermost hcs with
  | plain hres => exact hres
  | folded hkind' =>
    rw [hk] at hkind'
    cases hkind'
  | direct hkind' | unreached hkind' =>
    rw [hk] at hkind'
    rcases hkind' with h | h <;> cases h
  | store hkind' | carried hkind' | carriedUnreached hkind' => exact absurd hk (hkind' _)

section OneArm

variable {body : List Instruction} {res : Option ValueType} (ht2 : r2.Tidy S.env)
  (hclose : Closes r2 es2 r3) (hT : r3.temps.size ≤ S.temps) (hg3 : Grows rs r3 ss)
  (hk : flattenAll ss ++ k <:+ S.whole) (hr : S.Ready ls F) (hst : S.Stands rs stack F)
  (hgr : S.Granted o)
include ht2 hclose hT hg3 hk hr hst hgr

/-- **A block** is run as its statement says. -/
theorem answers_block (hg : Grows (rs.openConstruct .block res none) r2 ss1)
    (hbody : S.Follows fuel body (rs.openConstruct .block res none) r2)
    (ho : arm S.host S.env.inModule fuel body res ⟨stack, ls, w⟩ = some o) :
    S.Answers rs r3 (ss = []) k F (.running (flattenAll ss ++ k) F w) o := by
  obtain ⟨o1, ho1, rfl⟩ := Option.map_eq_some_iff.mp ho
  have hw1 : S.Within rs stack F (rs.openConstruct .block res none) _ _ :=
    ⟨.of_open rs rfl rfl rfl rfl, hst⟩
  obtain ⟨c, cs, thenTail, tail, hw, hcg, hc, rfl⟩ := hw1.closed rfl hg ht2 rfl hclose hT hg3
  have hkind : c.kind = .block := hcg.kind
  have hls : flattenAll [closed c thenTail (ss1 ++ tail)] ++ k = .openBlock ::
        (flattenAll ss1 ++ (flattenAll tail ++ .close :: (C.labelLine c.label ++ k))) := by
    simp [closed, hkind, Stmt.flatten]
  rw [hls] at hk ⊢
  have hans := hbody hg.code ((suffix_cons _ _).trans hk) (continues_inside hr ho1)
    (granted_of_exit hgr)
  have hexit := hc.exit hw.constructs hw1 rfl (fun _ c hc => ⟨c, hc, .refl c⟩) hc.last
    (fun l hl _ => findLabel_labelLine (.trans ⟨.openBlock :: (flattenAll ss1 ++
      (flattenAll tail ++ [.close])), by simp⟩ hk) l hl)
    (by simp [hkind]) (fun hF => leads_close hF _ _) hans
  rw [hcg.result] at hexit
  exact hexit.after id (leads_openBlock hr.clear _) (by simp)

/-- **A loop** is run as its statement says.

**Proof sketch.** By induction on the length of the run. A branch to the loop jumps to the label in
front of it. What is pending outside is the same as before, so from there on the loop is run
again. -/
theorem answers_loop (hg : Grows (openLoop res rs) r2 ss1)
    (hbody : ∀ fuel, S.Follows fuel body (openLoop res rs) r2)
    (ho : iterate S.host S.env.inModule body res fuel ⟨stack, ls, w⟩ = some o) :
    S.Answers rs r3 (ss = []) k F (.running (flattenAll ss ++ k) F w) o := by
  induction fuel generalizing F w ls with
  | zero => cases ho
  | succ fuel ih =>
    obtain ⟨o1, ho1, ho⟩ := Option.bind_eq_some_iff.mp ho
    have hw1 : S.Within rs stack F (openLoop res rs) _ _ := ⟨.of_open rs rfl rfl rfl rfl, hst⟩
    obtain ⟨c, cs, thenTail, tail, hw, hcg, hc, hss⟩ := hw1.closed rfl hg ht2 rfl hclose hT hg3
    have hkind : c.kind = .loop := hcg.kind
    have hne : ss ≠ [] := by simp [hss]
    have hlabel : c.label = some (rs.labels + 1) := hcg.label _ rfl
    have hls : flattenAll ss ++ k = .label (rs.labels + 1) :: .openBlock ::
        (flattenAll ss1 ++ (flattenAll tail ++ .close :: k)) := by
      simp [hss, closed, hkind, hlabel, Stmt.flatten]
    have hlead : S.Leads (.running (flattenAll ss ++ k) F w) (.running
        (flattenAll ss1 ++ (flattenAll tail ++ .close :: k)) F w) := by
      rw [hls]
      exact (leads_labelLine hr.clear (some _) _).trans (leads_openBlock hr.clear _)
    have hsuffix := hk
    rw [hls] at hsuffix
    have hans : S.Granted o1 → _ := hbody fuel hg.code
      ((suffix_cons _ _).trans ((suffix_cons _ _).trans hsuffix)) (continues_inside hr ho1)
    split at ho
    · rename_i again
      obtain ⟨c', F', hc', hkept, hj⟩ : ∃ c' F', r2.constructs[0]? = some c' ∧
          Kept _ _ F F' ∧ S.Jumps c' again F' _ := by
        cases hans trivial with
        | crash _ h =>
          obtain ⟨_, _, h, -⟩ := h
          cases h
        | arrive _ htr =>
          obtain ⟨_, _, h⟩ := htr
          rcases resume_cases h with ⟨_, _, _, h⟩ | ⟨_, _, h⟩ <;> cases h
        | leave h =>
          rcases h with h | h
          · cases h
          · rw [Outcome.branch.injEq, hw.constructs] at h
            exact absurd h.1 (by simp)
        | jump h _ hc' hkept hj =>
          cases h
          exact ⟨_, _, hc', hkept, hj⟩
      rw [hw.constructs, getElem?_cons_zero, Option.some.injEq] at hc'
      subst hc'
      obtain ⟨l, hl, htarget⟩ := hj.leads
      rw [hlabel] at hl
      cases hl
      have hkept := hw1.kept hkept
      have hjump := htarget _ (C.findLabel_of_suffix S.labels hsuffix)
      rw [← hls] at hjump
      exact (ih hj.ready (fun _ _ hr hk => hst hr (hkept.trans hk)) ho).after
        (fun hk => hkept.trans hk) (hlead.trans hjump) fun hnil => absurd hnil hne
    · rename_i hback
      obtain rfl := Option.some.inj ho
      have hexit := hc.exit hw.constructs hw1 rfl (fun _ c hc => ⟨c, hc, .refl c⟩) hc.last
        (fun _ _ h => absurd hkind h) (fun _ => hback)
        (fun hF => leads_close hF none k) (hans (granted_of_exit hgr))
      rw [hcg.result] at hexit
      exact hexit.after id hlead fun hnil => absurd hnil hne

/-- **A conditional with one arm** is run as its statement says. -/
theorem answers_if {cond : Pending} (horder : cond.expr.Orderly)
    (hg : Grows (rs.openConstruct (.ifArm cond) res none) r2 ss1)
    (hbody : S.Follows fuel body (rs.openConstruct (.ifArm cond) res none) r2)
    (ho : (S.eval F cond.expr w).resume (fun x w => arm S.host S.env.inModule fuel
      (if x.isTrue then body else []) res ⟨stack, ls, w⟩) = some o) :
    S.Answers rs r3 (ss = []) k F (.running (flattenAll ss ++ k) F w) o := by
  have hw1 : S.Within rs stack F (rs.openConstruct (.ifArm cond) res none) _ _ :=
    ⟨.of_open rs rfl rfl rfl rfl, hst⟩
  obtain ⟨c, cs, thenTail, tail, hw, hcg, hc, rfl⟩ := hw1.closed rfl hg ht2 rfl hclose hT hg3
  have hkind : c.kind = .ifArm cond := hcg.kind
  have hnone : c.result = none := result_eq_none_of_closes hw.constructs hkind hclose
  have hls : flattenAll [closed c thenTail (ss1 ++ tail)] ++ k =
      .openIf cond.expr :: (flattenAll ss1 ++ (flattenAll tail ++
        .close :: (C.labelLine c.label ++ k))) := by
    simp [closed, hkind, Stmt.flatten]
  rw [hls] at hk ⊢
  rcases line_cases_single (.openIf cond.expr) hr.clear rfl horder ho with hcrash | ⟨x, w1, ho, hl⟩
  · exact .crash (by simp) (hcrash _)
  obtain ⟨o1, ho1, rfl⟩ := Option.map_eq_some_iff.mp ho
  by_cases hx : x.isTrue = true
  · rw [if_pos hx] at ho1
    have hans := hbody hg.code ((suffix_cons _ _).trans hk) (continues_inside hr ho1)
      (granted_of_exit hgr)
    have hexit := hc.exit hw.constructs hw1 rfl (fun _ c hc => ⟨c, hc, .refl c⟩) hc.last
      (fun l hl _ => findLabel_labelLine (.trans ⟨.openIf cond.expr ::
        (flattenAll ss1 ++ (flattenAll tail ++ [.close])), by simp⟩ hk) l hl)
      (by simp [hkind]) (fun hF => leads_close hF _ _) hans
    rw [hcg.result] at hexit
    exact hexit.after id (hl (by simp [Line.perform, hx])) (by simp)
  · rw [if_neg hx] at ho1
    cases fuel with
    | zero => cases ho1
    | succ fuel =>
      cases ho1
      obtain ⟨hlive, htr3⟩ := hc.rejoin (s := ⟨[], ls, w1⟩) (F := F)
        (by simp [reachesEnd, hkind]) (by simp [hkind]) hr
        (by simp [Carries, carriedType, hkind, hnone]) (.refl _ _ F)
      rw [hcg.result] at htr3
      refine .arrive hlive htr3 (.refl _ _ F) ((hl ?_).trans (leads_labelLine hr.clear c.label _))
        (by simp)
      simp [Line.perform, hx, C.behindClose_flattenAll, C.behindClose]

end OneArm

section TwoArms

variable {r5 : Rebuild} {yes no : List Instruction} {res : Option ValueType} {cond : Pending}
  {ssy ssn : List Stmt} {c1 c2 c3 c4 : Construct} {outer1 outer2 outer4 : List Construct}
  {K : List Line}
  (hr : S.Ready ls F) (hgr : S.Granted o)
  (hscope1 : r1.scope = {}) (hgy : Grows r1 r2 ssy) (hyes : S.Follows fuel yes r1 r2)
  (hw2 : S.Within rs stack F r2 c2 outer2) (hkind2 : c2.kind = .ifArm cond)
  (hswitch : Switches r2 es1 r3) (hw3 : S.Within rs stack F r3 c3 outer2) (hscope3 : r3.scope = {})
  (hgn : Grows r3 r4 ssn) (hno : S.Follows fuel no r3 r4) (hcg4 : c3.Grows r3.temps.size c4)
  (hw4 : S.Within rs stack F r4 c4 outer4)
  (ho : (S.eval F cond.expr w).resume (fun x w => arm S.host S.env.inModule fuel
    (if x.isTrue then yes else no) c4.result ⟨stack, ls, w⟩) = some o)

/-- An arm that only computes a value. -/
lemma Answers.silent {silent : Prop} {v : Pending}
    (h : S.Answers r r1 silent K F (.running K F w) o)
    (hsilent : silent) (hvs : r1.scope.values = [v]) : ∃ ls, S.Ready ls F ∧
      (S.eval F v.expr w).resume (fun x w => some (.next ⟨[x], ls, w⟩)) = some o := by
  cases h with
  | crash hs | leave _ hs | jump _ hs => exact absurd hsilent hs
  | arrive _ htr _ _ hs =>
    have hstart := hs hsilent
    rw [Config.running.injEq] at hstart
    obtain ⟨-, rfl, rfl⟩ := hstart
    exact htr.single hvs

include hr hgr hscope1 hgy hyes hw2 hkind2 hswitch hw3 hscope3 hgn hno hcg4 hw4 ho

/-- Two arms that are folded into a choice. -/
lemma answers_choice {cond' thenValue v : Pending} {silent : Prop}
    (hfolds : Folds r4 c4 outer4 cond' thenValue v r5) (hK : K <:+ S.whole) :
    S.Answers rs r5 silent K F (.running K F w) o := by
  obtain ⟨thenCode, live, hk⟩ := hfolds.kind
  rw [hcg4.kind] at hk
  -- only a value that was kept can be folded
  obtain ⟨hkind2', hvalues2, hcode2⟩ := hswitch.kept hw2.constructs hw3.constructs hk
  rw [hkind2, ConstructKind.ifArm.injEq] at hkind2'
  subst hkind2'
  have hssy : ssy = [] := by simpa [hscope1, hcode2] using hgy.code
  have hssn : ssn = [] := by simpa [hscope3, hfolds.code] using hgn.code
  subst hssy hssn
  obtain ⟨t, ht⟩ := isSome_iff_exists.mp hfolds.result
  have hl : r5.reach = .live := by rw [hfolds.choice]; rfl
  have hvalues5 : r5.scope.values = .choose cond thenValue v :: rs.scope.values := by
    rw [hfolds.choice, ← hw4.enclosing]
    rfl
  refine .arrive hl ?_ (.refl _ _ F) (.refl _) fun _ => rfl
  rw [hvalues5]
  rcases resume_cases ho with ⟨x, w1, hx, ho⟩ | ⟨w1, hx, rfl⟩
  · obtain ⟨o1, ho1, rfl⟩ := Option.map_eq_some_iff.mp ho
    have hgr := granted_of_exit hgr
    obtain ⟨ls, hr, hv⟩ : ∃ ls, S.Ready ls F ∧
        (S.eval F (if x.isTrue then thenValue else v).expr w1).resume
          (fun x w => some (.next ⟨[x], ls, w⟩)) = some o1 := by
      by_cases hx : x.isTrue = true
      · rw [if_pos hx] at ho1 ⊢
        exact (hyes (k := K) hgy.code hK
          (by rw [hscope1]; exact continues_inside hr ho1) hgr).silent
          rfl hvalues2
      · rw [if_neg hx] at ho1 ⊢
        exact (hno (k := K) hgn.code hK (by rw [hscope3]; exact continues_inside hr ho1) hgr).silent
          rfl hfolds.values
    rw [ht]
    refine hw4.tracks_value [] hr (.refl _ _ F) ?_
    rw [← hv]
    simp only [Pending.choose, Expr.eval, hx, resume_andThen, resume_ok]
    split <;> rfl
  · exact hw4.tracks_value (t := t) (o := .trap .load w1) [] hr (.refl _ _ F)
      (by simp [Pending.choose, Expr.eval, hx])

/-- Two arms with statements. -/
lemma answers_arms {thenTail tail : List Stmt} (hw1 : S.Within rs stack F r1 c1 outer1)
    (ht2 : r2.Tidy S.env) (hserves3 : Serves c2 c3) (hT : r3.temps.size ≤ S.temps)
    (horder : cond.expr.Orderly) (hc : S.Closing rs stack F r4 c4 outer4 r5 thenTail tail)
    (hg5 : Grows rs r5 ss) (hres : c2.result = c4.result)
    (hsuffix : flattenAll ss ++ K <:+ S.whole) :
    S.Answers rs r5 (ss = []) K F (.running (flattenAll ss ++ K) F w) o := by
  obtain ⟨cond', thenCode, value, live, armTail, hkind, hkind4, hthen, hends⟩ :=
    hw2.ends_first ht2 hswitch hw3.constructs hcg4 hT hc
  rw [hkind2, ConstructKind.ifArm.injEq] at hkind
  subst hkind
  obtain rfl := hc.statement hg5
  have hcode2 : r2.scope.code.toList = ssy := by simpa [hscope1] using hgy.code
  have hcode4 : r4.scope.code.toList = ssn := by simpa [hscope3] using hgn.code
  have hls : flattenAll [closed c4 thenTail (r4.scope.code.toList ++ tail)] ++ K =
      .openIf cond.expr :: (flattenAll ssy ++ (flattenAll armTail ++
        .openElse :: (flattenAll (ssn ++ tail) ++ .close :: (C.labelLine c4.label ++ K)))) := by
    simp [closed, hkind4, hthen, hcode2, hcode4, Stmt.flatten]
  rw [hls] at hsuffix ⊢
  have hlabel : ∀ l, c4.label = some l → c4.kind ≠ .loop →
      C.findLabel l S.whole = some (.label l :: K) := fun l hl _ =>
    findLabel_labelLine (.trans ⟨.openIf cond.expr :: (flattenAll ssy ++
      (flattenAll armTail ++ .openElse :: (flattenAll (ssn ++ tail) ++ [.close]))),
      by simp⟩ hsuffix) l hl
  rcases line_cases_single (.openIf cond.expr) hr.clear rfl horder ho with hcrash | ⟨x, w1, ho, hl⟩
  · exact .crash (by simp) (hcrash _)
  obtain ⟨o1, ho1, rfl⟩ := Option.map_eq_some_iff.mp ho
  have hgr := granted_of_exit hgr
  by_cases hx : x.isTrue = true
  · rw [if_pos hx] at ho1
    have hans := hyes hgy.code ((suffix_cons _ _).trans hsuffix)
      (by rw [hscope1]; exact continues_inside hr ho1) hgr
    have hserves : ∀ (d : Nat) (c : Construct), r2.constructs[d]? = some c →
        ∃ c', r4.constructs[d]? = some c' ∧ Serves c c' := by
      intro d c hc
      rw [hw2.constructs] at hc
      obtain ⟨c', hc', h⟩ : ∃ c', r3.constructs[d]? = some c' ∧ Serves c c' := by
        rw [hw3.constructs]
        cases d with
        | zero =>
          rw [getElem?_cons_zero, Option.some.injEq] at hc
          exact ⟨c3, rfl, hc ▸ hserves3⟩
        | succ d => exact ⟨c, hc, .refl c⟩
      obtain ⟨c'', hc'', h'⟩ := serves_constructs hgn d c' hc'
      exact ⟨c'', hc'', h.trans h'⟩
    have hlen : r4.constructs.length = r2.constructs.length := by
      rw [hgn.length, hw2.constructs, hw3.constructs, length_cons, length_cons]
    exact (hc.exit hw4.constructs hw1 hlen hserves (hres ▸ hends) hlabel
      (by simp [hkind4]) (fun hF => leads_openElse hF _ _ _) hans).after id
        (hl (by simp [Line.perform, hx])) (by simp)
  · rw [if_neg hx] at ho1
    have hans := hno (k := flattenAll tail ++ .close :: (C.labelLine c4.label ++ K))
      hgn.code (.trans ⟨.openIf cond.expr :: (flattenAll ssy ++
        (flattenAll armTail ++ [.openElse])), by simp⟩ hsuffix)
      (by rw [hscope3]; exact continues_inside hr ho1) hgr
    refine (hc.exit hw4.constructs hw3 rfl (fun _ c hc => ⟨c, hc, .refl c⟩) hc.last hlabel
      (by simp [hkind4]) (fun hF => leads_close hF _ _) hans).after
      id (hl ?_) (by simp)
    simp [Line.perform, hx, C.behindClose_flattenAll, C.behindClose]

end TwoArms

section IfElse

variable {r5 r6 : Rebuild} {i el e : Instruction} {yes no : List Instruction}
  {res : Option ValueType} {cond : Pending} {vs : List Pending} {ssy ssn : List Stmt}

/-- **A conditional with two arms** is run as its statement or its choice says. -/
theorem answers_ifElse (horder : cond.expr.Orderly)
    (hgy : Grows (rs.openConstruct (.ifArm cond) res none) r2 ssy)
    (hyes : S.Follows fuel yes (rs.openConstruct (.ifArm cond) res none) r2)
    (ht2 : r2.Tidy S.env) (hswitch : Switches r2 es1 r3) (hgn : Grows r3 r4 ssn)
    (hno : S.Follows fuel no r3 r4) (ht4 : r4.Tidy S.env) (hclose : Closes r4 es2 r5)
    (hT : r5.temps.size ≤ S.temps) (hg5 : Grows rs r5 ss) (hk : flattenAll ss ++ k <:+ S.whole)
    (hr : S.Ready ls F) (hst : S.Stands rs stack F) (hgr : S.Granted o)
    (ho : (S.eval F cond.expr w).resume (fun x w => arm S.host S.env.inModule fuel
      (if x.isTrue then yes else no) res ⟨stack, ls, w⟩) = some o) :
    S.Answers rs r5 (ss = []) k F (.running (flattenAll ss ++ k) F w) o := by
  have hw1 : S.Within rs stack F (rs.openConstruct (.ifArm cond) res none) _ _ :=
    ⟨.of_open rs rfl rfl rfl rfl, hst⟩
  obtain ⟨c2, outer2, hw2, hcg2⟩ := hw1.grown hgy
  obtain ⟨c3, hw3, hresult3, hserves3, hscope3⟩ := hw2.switches hswitch
  obtain ⟨c4, outer4, hw4, hcg4⟩ := hw3.grown hgn
  have hresult4 : c4.result = c2.result := hcg4.result.trans hresult3
  have hT3 : r3.temps.size ≤ S.temps :=
    Nat.le_trans hgn.size_temps (Nat.le_trans hclose.size_temps hT)
  rw [← show c4.result = res from hresult4.trans hcg2.result] at ho
  rcases closing_of_closes hw4 ht4 hclose hT with ⟨_, _, _, hfolds⟩ | ⟨thenTail, tail, hc⟩
  · have hss : ss = [] := by
      have hcode := hg5.code
      rw [hfolds.choice] at hcode
      simpa [push, hw4.enclosing] using hcode
    subst hss
    exact answers_choice hr hgr rfl hgy hyes hw2 hcg2.kind hswitch hw3 hscope3 hgn hno hcg4 hw4 ho
      hfolds hk
  · exact answers_arms hr hgr rfl hgy hyes hw2 hcg2.kind hswitch hw3 hscope3 hgn hno hcg4 hw4 ho hw1
      ht2 hserves3 hT3 horder hc hg5 hresult4.symm hk

end IfElse

/-! ## Balanced code -/

/-- Code without constructs. -/
lemma follows_plain {i : Instruction} (ht : r.Tidy S.env) (hl : r.reach = .live)
    (hi : isPlain i.op = true) (ha : Acts S.env i r es r1) (hT : r1.temps.size ≤ S.temps)
    (hkeeps : S.keeps → ∀ u ∈ r.abandoned S.env i, u.expr.loads = false)
    (hg : Grows r1 r2 ss2) (hrest : r1.reach = .live → S.Follows fuel rest r1 r2) :
    S.Follows (fuel + 1) (i :: rest) r r2 := by
  intro ts k F w o hcode hk hc hgr
  obtain ⟨ls, hr, hc⟩ := hc
  simp only [Wasm.exec_plain _ _ _ hi] at hc
  obtain ⟨o1, hc, ho⟩ := resume_split hc
  obtain ⟨ss, hg1, hans⟩ := simulates_of_acts ht hl ha hT hkeeps ⟨ls, hr, hc⟩
    (granted_of_andThen ho hgr)
  obtain rfl : ts = ss ++ ss2 := append_cancel_left (hcode.symm.trans (hg1.trans hg).code)
  rw [Stmt.flattenAll_append, append_assoc] at hk ⊢
  exact (hans _).andThen hg1 hg hrest ((suffix_append _ _).trans hk) append_eq_nil_iff.mp ho hgr

/-- **The statements for balanced code do what the code does.**

**Proof sketch.** By induction on the code. An instruction emits statements that do what it does; a
construct becomes a statement whose arms are runs of its arms. -/
theorem follows_of_passes {code : List Instruction} {r r1 : Rebuild}
    (h : Passes S.env S.keeps code r r1) (ht : r.Tidy S.env) (hl : r.reach = .live)
    (hT : r1.temps.size ≤ S.temps) (fuel : Nat) : S.Follows fuel code r r1 := by
  induction h generalizing fuel with
  | nil =>
    refine follows_of_succ (fun fuel ss k F w o hcode _ hc _ => ?_) fuel
    obtain rfl : ss = [] := by simpa using hcode
    exact .arrive hl hc (.refl _ _ F) (.refl _) fun _ => rfl
  | dead hd => rw [hd] at hl; cases hl
  | plain _ hi ha hkeeps hrest ih =>
    obtain ⟨ss2, hg⟩ := hrest.grows
    have hT' := Nat.le_trans hg.size_temps hT
    exact follows_of_succ (fun fuel => follows_plain ht hl hi ha hT' hkeeps hg fun hlive' =>
      ih (ht.acts ha) hlive' hT fuel) fuel
  | @construct r r' r2 r3 r4 _ _ i e body rest res _ hres henter hbody he hclose hrest ihbody
      ihrest =>
    obtain ⟨ssb, hgb⟩ := hbody.grows
    obtain ⟨ss2, hg2⟩ := hrest.grows
    have hT3 := Nat.le_trans hg2.size_temps hT
    have hbody' := ihbody (ht.enters henter) ((reach_of_enters henter).trans hl)
      (Nat.le_trans hclose.size_temps hT3)
    have ht2 := hbody.tidy (ht.enters henter)
    have hrest' : r3.reach = .live → ∀ fuel, S.Follows fuel rest r3 r4 := fun hlive' =>
      ihrest (ht2.closes hclose) hlive' hT
    generalize hop : i.op = op at henter
    refine follows_of_succ (fun fuel => ?_) fuel
    cases henter with
    | block =>
      obtain ⟨_, _, hin, -⟩ := Inside.grown hgb (.of_open r.spillAll rfl rfl rfl rfl)
      obtain ⟨ss3, hg3⟩ := hin.closes hclose
      refine follows_of_construct [] (fun _ => arm S.host S.env.inModule fuel body res)
        ht rfl hT3 hg3 hg2 hrest' (fun hlen h => ?_) fun hk hr hst hgr h =>
          answers_block ht2 hclose hT3 hg3 hk hr hst hgr hgb (hbody' fuel) h
      obtain rfl := length_eq_zero_iff.mp hlen
      rw [nil_append, Wasm.exec_block _ _ _ hres he _ hop hbody.balanced] at h
      exact ⟨fuel, bind_eq_some_iff.mp h⟩
    | loop =>
      obtain ⟨_, _, hin, -⟩ := Inside.grown hgb (.of_open r.spillAll rfl rfl rfl rfl)
      obtain ⟨ss3, hg3⟩ := hin.closes hclose
      refine follows_of_construct [] (fun _ => iterate S.host S.env.inModule body res (fuel + 1))
        ht rfl hT3 hg3 hg2 hrest' (fun hlen h => ?_) fun hk hr hst hgr h =>
          answers_loop ht2 hclose hT3 hg3 hk hr hst hgr hgb hbody' h
      obtain rfl := length_eq_zero_iff.mp hlen
      exact Wasm.exec_loop _ _ _ hres he _ hop hbody.balanced h
    | @ifOp cond vs hvs =>
      obtain ⟨_, _, hin, -⟩ := Inside.grown hgb
        (.of_open (r.withValues vs).spillAll rfl rfl rfl rfl)
      obtain ⟨ss3, hg3⟩ := hin.closes hclose
      refine follows_of_construct [cond] (fun xs => arm S.host S.env.inModule fuel
        (if (xs.headD (.i32 0)).isTrue then body else []) res) ht hvs hT3 hg3 hg2 hrest'
        (fun hlen h => ?_) fun hk hr hst hgr h => answers_if ht2 hclose hT3 hg3 hk hr hst hgr
          (ht.uncons hvs).1.sound.orderly hgb (hbody' fuel) ?_
      · obtain ⟨x, rfl⟩ := length_eq_one_iff.mp hlen
        rw [singleton_append, Wasm.exec_if _ _ _ hres he _ hop _ _ _ _ hbody.balanced] at h
        exact ⟨fuel, bind_eq_some_iff.mp h⟩
      · simp only [meaning_single, resume_andThen, resume_ok] at h
        exact h
  | @conditional r r' r2 r3 r4 r5 r6 _ _ _ i el e yes no rest res _ hop hres henter hyes hel
      hswitch hno he hclose hrest ihyes ihno ihrest =>
    obtain ⟨ssy, hgy⟩ := hyes.grows
    obtain ⟨ssn, hgn⟩ := hno.grows
    obtain ⟨ss2, hg2⟩ := hrest.grows
    have hT5 := Nat.le_trans hg2.size_temps hT
    have hT4 := Nat.le_trans hclose.size_temps hT5
    have hT2 := Nat.le_trans hswitch.size_temps (Nat.le_trans hgn.size_temps hT4)
    have ht2 := hyes.tidy (ht.enters henter)
    have ht4 := hno.tidy (ht2.switches hswitch)
    have hyes' := ihyes (ht.enters henter) ((reach_of_enters henter).trans hl) hT2
    have hno' := ihno (ht2.switches hswitch) (reach_of_switches hswitch) hT4
    refine follows_of_succ (fun fuel => ?_) fuel
    cases henter with
    | @ifOp cond vs hvs =>
      obtain ⟨_, _, hin, -⟩ := Inside.grown hgy
        (.of_open (r.withValues vs).spillAll rfl rfl rfl rfl)
      obtain ⟨_, hin, -⟩ := hin.switches hswitch
      obtain ⟨_, _, hin, -⟩ := hin.grown hgn
      obtain ⟨ss5, hg5⟩ := hin.closes hclose
      refine follows_of_construct [cond] (fun xs => arm S.host S.env.inModule fuel
        (if (xs.headD (.i32 0)).isTrue then yes else no) res) ht hvs hT5 hg5 hg2
        (fun hlive' => ihrest (ht4.closes hclose) hlive' hT) (fun hlen h => ?_)
        fun hk hr hst hgr h => answers_ifElse (ht.uncons hvs).1.sound.orderly hgy (hyes' fuel) ht2
          hswitch hgn (hno' fuel) ht4 hclose hT5 hg5 hk hr hst hgr ?_
      · obtain ⟨x, rfl⟩ := length_eq_one_iff.mp hlen
        rw [singleton_append, Wasm.exec_ifElse _ _ _ hres he _ hop _ _ _ _ hyes.balanced hel
          hno.balanced] at h
        exact ⟨fuel, bind_eq_some_iff.mp h⟩
      · simp only [meaning_single, resume_andThen, resume_ok] at h
        exact h

end Setting

end WasmToC

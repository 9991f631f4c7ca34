import WasmToC.Proofs.Following

/-!
# The ends of constructs

A construct is left at the end of one of its arms, or by a branch to it. Its result is then the
value that was left on the stack, the value of its result temporary, or, for a conditional whose
arms only compute values, a choice. What is pending outside is the same as before: nothing inside
can touch it.

## Main definitions

* `Setting.Within` — a construct that is being run, seen from outside.
* `Setting.Closing` — the end of a construct.

## Main results

* `Setting.closing_of_closes` — every end of a construct that is not folded.
* `Setting.Closing.exit` — leaving a construct.
-/

namespace WasmToC

open List
open Wasm (Outcome State)
open C (Expr Stmt Frame Line Config tempName localName)

/-! ## Statements of constructs -/

namespace Rebuild

/-- The statement for a construct whose last arm has the given statements, and whose first arm ends
with further ones. -/
def closed (c : Construct) (thenTail code : List Stmt) : Stmt :=
  match c.kind with
  | .block => .block code c.label
  | .loop => .loop (c.label.getD 0) code
  | .ifArm cond => .onlyIf cond.expr code c.label
  | .elseArm cond thenCode _ _ => .ifElse cond.expr (thenCode.toList ++ thenTail) code c.label

/-- The statement that puts a value that was kept for the first arm into a temporary. -/
def keptTail (temp : Nat) : ConstructKind → List Stmt
  | .elseArm _ _ (some v) _ => [.assign (.temp temp) v.expr]
  | _ => []

lemma statementOf_eq (c : Construct) (code : Array Stmt) :
    statementOf c code = closed c [] code.toList := by
  obtain ⟨kind, result, label, temp, enclosing⟩ := c
  cases kind <;> simp [statementOf, closed]

/-- A construct whose result goes into a temporary. -/
lemma statementOf_carrying (temp : Nat) (c : Construct) (code : Array Stmt) :
    statementOf (carrying temp c) code = closed c (keptTail temp c.kind) code.toList := by
  obtain ⟨kind, result, label, temp', enclosing⟩ := c
  cases kind with
  | elseArm cond thenCode thenValue thenLive => cases thenValue <;> simp [statementOf, carrying,
      storeThenValue, closed, keptTail]
  | block | loop | ifArm => simp [statementOf, carrying, storeThenValue, closed]

/-- The end of a construct can be reached from wherever it could be without its result. -/
lemma reachesEnd_carrying (temp : Nat) (c : Construct) (live : Bool) :
    reachesEnd (carrying temp c) live = reachesEnd c live := by
  obtain ⟨kind, result, label, temp', enclosing⟩ := c
  cases kind with
  | elseArm cond thenCode thenValue thenLive =>
    cases thenValue <;> rfl
  | block | loop | ifArm => rfl

lemma reachesEnd_mono {c : Construct} (h : reachesEnd c false = true) (live : Bool) :
    reachesEnd c live = true := by
  cases live
  · exact h
  · exact reachesEnd_true c

end Rebuild

namespace Setting

open Rebuild

variable {μ σ : Type} {S : Setting μ σ} {v : Pending} {t : ValueType}

/-! ## Outside of a construct -/

variable (S) in
/-- Whatever happens behind the frame `F1`, pending expressions stand for the same operands. -/
def Stands (rs : Rebuild) (stack : List Value) (F1 : Frame) : Prop :=
  ∀ ⦃ls : List Value⦄ ⦃F : Frame⦄, S.Ready ls F →
    Kept rs.temps.size rs.resultTemps F1 F → ∀ u, S.meaning F rs.scope.values u = .ok (stack, u)

variable (S) in
/-- A construct that is being run in a state of reconstruction: what is pending outside of it stands
for the operands outside, whatever happens inside. -/
structure Within (rs : Rebuild) (stack : List Value) (F1 : Frame) (r : Rebuild) (c : Construct)
    (cs : List Construct) : Prop extends Inside rs r c cs where
  /-- What is pending outside stands for the operands outside. -/
  stands : S.Stands rs stack F1

variable {rs r r1 r2 r3 : Rebuild} {stack : List Value} {F F' F1 : Frame} {w w' w1 : World μ σ}
  {s s' : State μ σ} {c : Construct} {cs : List Construct} {o : Outcome μ σ}
  {es : List Line}

/-- What is stable stands for the same values, whatever happens. -/
lemma exists_stands {ls : List Value} (ht : rs.Tidy S.env)
    (hstable : ∀ v ∈ rs.scope.values, v.uses.isStable = true) (hr1 : S.Ready ls F1)
    (hne : S.meaning F1 rs.scope.values w1 ≠ .error none) :
    ∃ stack, S.Stands rs stack F1 := by
  have hdep : ∀ v ∈ rs.scope.values, v.expr.depends = false := fun v hv =>
    not_depends_of_isStable (ht.admits_value hv).sound (hstable v hv)
  cases meaning_fixed hr1.clear hdep with
  | fails h => exact absurd (h w1) hne
  | ok stack h =>
    refine ⟨stack, fun _ _ hr hk u => ?_⟩
    rw [← h u, meaning_congr hr1.clear hr.clear fun v hv => ⟨fun i hi => ?_, fun t htemp => ?_⟩]
    · have hmem := (ht.admits_value hv).sound.locals i hi
      rw [(Footprint.isStable_iff.mp (hstable v hv)).1] at hmem
      cases hmem
    · obtain ⟨hlt, hn⟩ := (ht.admits_value hv).temps t htemp
      exact (hk t hlt hn).symm

/-- A construct is still being run when more has been emitted inside. -/
lemma Within.grown (h : S.Within rs stack F1 r c cs) {ss : List Stmt} (hg : Grows r r1 ss) :
    ∃ c1 outer1, S.Within rs stack F1 r1 c1 outer1 ∧ c.Grows r.temps.size c1 := by
  obtain ⟨c1, outer1, hin, hcg⟩ := h.toInside.grown hg
  exact ⟨c1, outer1, ⟨hin, h.stands⟩, hcg⟩

/-- What is kept inside is kept outside. -/
lemma Within.kept (h : S.Within rs stack F1 r c cs) (hk : Kept r.temps.size r.resultTemps F F') :
    Kept rs.temps.size rs.resultTemps F F' := by
  refine hk.mono h.outside.size_temps fun t hlt hmem => ?_
  obtain ⟨c', hc', htemp⟩ := mem_filterMap.mp hmem
  rw [h.constructs, mem_cons] at hc'
  rcases hc' with rfl | hc'
  · exact absurd (h.temp t htemp) (by omega)
  · exact mem_resultTemps h.outside hlt (mem_filterMap.mpr ⟨c', hc', htemp⟩)

/-- Behind a construct without a result. -/
lemma Within.tracks_plain (h : S.Within rs stack F1 r c cs) (hr : S.Ready s.locals F)
    (hk : Kept rs.temps.size rs.resultTemps F1 F) :
    S.Tracks rs.scope.values (.next (s.leaveWith none stack)) F s.world :=
  ⟨s.locals, hr, by simp [h.stands hr hk, State.leaveWith]⟩

/-- An outcome inside a construct is one outside. -/
lemma resume_exit {α : Type} {x : Expr.Evaluated μ σ α} {f : α → World μ σ → Option (Outcome μ σ)}
    (h : x.resume f = some o) (res : Option ValueType) (stack : List Value) :
    x.resume (fun a w => (f a w).map (Outcome.exit res stack)) = some (o.exit res stack) := by
  rcases resume_cases h with ⟨a, w, rfl, hf⟩ | ⟨w, rfl, rfl⟩
  · simp [hf]
  · rfl

/-- Behind a construct with a result. -/
lemma Within.tracks_value (h : S.Within rs stack F1 r c cs) {ls : List Value} (xs : List Value)
    (hr : S.Ready ls F) (hk : Kept rs.temps.size rs.resultTemps F1 F)
    (hv : (S.eval F v.expr w).resume (fun x w => some (.next ⟨x :: xs, ls, w⟩)) = some o) :
    S.Tracks (v :: rs.scope.values) (o.exit (some t) stack) F w := by
  refine ⟨ls, hr, ?_⟩
  rw [meaning_cons, h.stands hr hk]
  simpa [Outcome.exit, State.leaveWith] using resume_exit hv (some t) stack

/-! ## Ends of arms and constructs -/

variable (S) in
/-- The end of an arm: behind the statements `tail`, the construct has ended. -/
def Ends (rs : Rebuild) (stack : List Value) (F1 : Frame) (res : Option ValueType)
    (r : Rebuild) (tail : List Stmt) (r3 : Rebuild) : Prop :=
  ∀ ⦃o : Outcome μ σ⦄ ⦃F : Frame⦄ ⦃w : World μ σ⦄, r.reach = .live →
    S.Tracks r.scope.values o F w → Kept rs.temps.size rs.resultTemps F1 F →
      S.Performs tail F w (o.exit res stack) fun F' w' => r3.reach = .live ∧
        Kept rs.temps.size rs.resultTemps F1 F' ∧
        S.Tracks r3.scope.values (o.exit res stack) F' w'

variable (S) in
/-- The end of a construct, which becomes a statement. -/
structure Closing (rs : Rebuild) (stack : List Value) (F1 : Frame) (r : Rebuild) (c : Construct)
    (cs : List Construct) (r3 : Rebuild) (thenTail tail : List Stmt) : Prop where
  /-- The statement. -/
  code : r3.scope.code.toList =
    rs.scope.code.toList ++ [closed c thenTail (r.scope.code.toList ++ tail)]
  /-- The construct is not open any more. -/
  constructs : r3.constructs = cs
  /-- The end of the last arm. -/
  last : S.Ends rs stack F1 c.result r tail r3
  /-- The result may be in the result temporary. -/
  rejoin : ∀ {s : State μ σ} {F : Frame}, reachesEnd c false = true → c.kind ≠ .loop →
    S.Ready s.locals F → Carries c s F → Kept rs.temps.size rs.resultTemps F1 F →
      r3.reach = .live ∧ S.Tracks r3.scope.values (.next (s.leaveWith c.result stack)) F s.world
  /-- The value of the first arm may have been kept. -/
  kept : ∀ {cond v : Pending} {thenCode : Array Stmt} {live : Bool},
    c.kind = .elseArm cond thenCode (some v) live → live = true → ∀ {t : ValueType},
      c.result = some t → ∃ temp, thenTail = [.assign (.temp temp) v.expr] ∧ temp < S.temps ∧
        rs.temps.size ≤ temp ∧ r3.reach = .live ∧ r3.scope.values = .temp temp t :: rs.scope.values
  /-- Otherwise nothing is added to the first arm. -/
  unkept : (∀ cond thenCode v live, c.kind ≠ .elseArm cond thenCode (some v) live) →
    thenTail = []

lemma Closing.statement {ss thenTail tail : List Stmt}
    (hc : S.Closing rs stack F1 r c cs r3 thenTail tail) (hg : Grows rs r3 ss) :
    ss = [closed c thenTail (r.scope.code.toList ++ tail)] :=
  append_cancel_left (hg.code.symm.trans hc.code)

lemma Tracks.single {values : List Pending} (h : S.Tracks values o F w) (hvs : values = [v]) :
    ∃ ls, S.Ready ls F ∧
      (S.eval F v.expr w).resume (fun x w => some (.next ⟨[x], ls, w⟩)) = some o := by
  obtain ⟨ls, hr, h⟩ := h
  exact ⟨ls, hr, by simpa [hvs, meaning_single] using h⟩

lemma Tracks.nil {values : List Pending} (h : S.Tracks values o F w) (hvs : values = []) :
    ∃ ls, S.Ready ls F ∧ o = .next ⟨[], ls, w⟩ := by
  obtain ⟨ls, hr, h⟩ := h
  exact ⟨ls, hr, by simpa [hvs, meaning, Expr.evalAll, eq_comm] using h⟩

/-- The end of a conditional whose arms only compute values: it becomes a choice. -/
structure Folds (r : Rebuild) (c : Construct) (cs : List Construct)
    (cond thenValue v : Pending) (r3 : Rebuild) : Prop where
  /-- The value of the first arm has been kept. -/
  kind : ∃ thenCode live, c.kind = .elseArm cond thenCode (some thenValue) live
  /-- The conditional has a result. -/
  result : c.result.isSome = true
  /-- The second arm only computes a value. -/
  code : r.scope.code = #[]
  /-- The value of the second arm. -/
  values : r.scope.values = [v]
  /-- The choice is pending. -/
  choice : r3 = { r with scope := c.enclosing, constructs := cs, reach := .live }.push
    (.choose cond thenValue v)

lemma keptTail_eq_nil {kind : ConstructKind} (temp : Nat)
    (h : ∀ cond thenCode v live, kind ≠ .elseArm cond thenCode (some v) live) :
    keptTail temp kind = [] := by
  unfold keptTail
  split
  · exact absurd rfl (h _ _ _ _)
  · rfl

section Ends

variable (h : S.Within rs stack F1 r c cs) {nested : Nat}
include h

/-- The end of a construct without a result. -/
lemma Within.closing_plain (hres : c.result = none) (hvs : r.reach = .live → r.scope.values = []) :
    S.Closing rs stack F1 r c cs (leaveConstruct c cs (reachesEnd c r.reach.isLive) r) [] []
    where
  code := by simp [leaveConstruct, emit, statementOf_eq, h.enclosing]
  constructs := rfl
  last _ _ _ hlive ht hk := by
    obtain ⟨ls, hr, rfl⟩ := ht.nil (hvs hlive)
    refine .nil ⟨by simp [leaveConstruct, emit, hlive, Reach.isLive, reachesEnd_true], hk, ?_⟩
    rw [hres]
    change S.Tracks c.enclosing.values _ _ _
    rw [h.enclosing]
    exact h.tracks_plain hr hk
  rejoin hend _ hr _ hk := by
    refine ⟨by simp [leaveConstruct, emit, reachesEnd_mono hend], ?_⟩
    rw [hres]
    change S.Tracks c.enclosing.values _ _ _
    rw [h.enclosing]
    exact h.tracks_plain hr hk
  kept _ _ _ ht := by
    rw [hres] at ht
    cases ht
  unkept _ := rfl

/-- The end of a block or loop whose result is the operand that is left. -/
lemma Within.closing_direct (hkind : c.kind = .block ∨ c.kind = .loop)
    (hres : c.result = some t) (hvs : r.scope.values = [v]) (htemp : c.temp = none) :
    S.Closing rs stack F1 r c cs ((leaveConstruct c cs true r).push v) [] [] where
  code := by simp [leaveConstruct, emit, push, statementOf_eq, h.enclosing]
  constructs := rfl
  last _ _ _ hl ht hk := by
    obtain ⟨ls, hr, hv⟩ := ht.single hvs
    refine .nil ⟨rfl, hk, ?_⟩
    rw [hres]
    change S.Tracks (v :: c.enclosing.values) _ _ _
    rw [h.enclosing]
    exact h.tracks_value [] hr hk hv
  rejoin _ hloop _ hcarries _ := by
    have hcarried : carriedType c = some t := by
      rcases hkind with hkind | hkind
      · simp [carriedType, hkind, hres]
      · exact absurd hkind hloop
    obtain ⟨temp, _, _, htemp', -⟩ := hcarries t hcarried
    rw [htemp] at htemp'
    cases htemp'
  kept hkept := by
    rw [hkept] at hkind
    rcases hkind with hkind | hkind <;> cases hkind
  unkept _ := rfl

/-- The end of a construct that cannot be reached. -/
lemma Within.closing_dead {c' : Construct} {r' : Rebuild} {thenTail : List Stmt}
    (hd : r.reach = .dead nested) (hend : reachesEnd c false = false)
    (henclosing : c'.enclosing = c.enclosing)
    (hcode : statementOf c' r'.scope.code = closed c thenTail r.scope.code.toList)
    (hunkept : (∀ cond thenCode v live, c.kind ≠ .elseArm cond thenCode (some v) live) →
      thenTail = []) :
    S.Closing rs stack F1 r c cs (leaveConstruct c' cs false r') thenTail [] where
  code := by simp [leaveConstruct, emit, hcode, henclosing, h.enclosing]
  constructs := rfl
  last _ _ _ hlive := by
    rw [hd] at hlive
    cases hlive
  rejoin hend' := by
    rw [hend] at hend'
    cases hend'
  kept hkind hlive := by simp [reachesEnd, hkind, hlive] at hend
  unkept := hunkept

lemma Within.resultTemp_lt (ht : r.Tidy S.env)
    (hT : (r.resultTemp 0 c t).2.temps.size ≤ S.temps) : (r.resultTemp 0 c t).1 < S.temps :=
  Nat.lt_of_lt_of_le (Setting.resultTemp_lt ht t (by rw [h.constructs]; rfl) rfl).1 hT

/-- A construct is being run, whatever is pending inside. -/
lemma Within.withValues (values : List Pending) : S.Within rs stack F1 (r.withValues values) c cs :=
  ⟨h.toInside.withValues values, h.stands⟩

/-- The end of an arm that puts its value into a temporary. -/
lemma Within.ends_assign {temp : Nat} (ht : r.Tidy S.env) (hvs : r.scope.values = [v])
    (hlt : temp < S.temps) (hle : rs.temps.size ≤ temp) (hreach : r3.reach = .live)
    (hvalues3 : r3.scope.values = .temp temp t :: rs.scope.values) :
    S.Ends rs stack F1 (some t) r [.assign (.temp temp) v.expr] r3 := by
  intro o F w _ htr hk
  obtain ⟨ls, hr, hv⟩ := htr.single hvs
  refine performs_assignTemp hr hlt (ht.uncons hvs).1.sound.orderly
    (resume_exit hv (some t) stack) fun x w1 hx => ?_
  have hset := hr.setTemp hlt x
  have hk' := hk.trans (kept_set (.inl hle) x)
  refine ⟨hreach, hk', ?_⟩
  rw [hvalues3, ← Option.some.inj hx]
  exact h.tracks_value [] hset hk' (by rw [eval_temp hset (set_self _ _ _) t]; rfl)

/-- The end of a construct whose result is in its result temporary. -/
lemma Within.closing_temp {r0 : Rebuild} {temp : Nat} {tail : List Stmt}
    (hres : c.result = some t) (htemp : ∀ t, c.temp = some t → temp = t)
    (hlt : temp < S.temps) (hle : rs.temps.size ≤ temp)
    (hcode : r0.scope.code.toList = r.scope.code.toList ++ tail)
    (hlast : ∀ {r3}, r3.reach = .live → r3.scope.values = .temp temp t :: rs.scope.values →
      S.Ends rs stack F1 (some t) r tail r3) :
    S.Closing rs stack F1 r c cs ((leaveConstruct (carrying temp c) cs true r0).push (.temp temp t))
      (keptTail temp c.kind) tail := by
  have hvals : ((leaveConstruct (carrying temp c) cs true r0).push
      (.temp temp t)).scope.values = .temp temp t :: rs.scope.values := by
    simp [leaveConstruct, emit, push, carrying, h.enclosing]
  refine ⟨?_, rfl, hres ▸ hlast rfl hvals, ?_, ?_, keptTail_eq_nil _⟩
  · simp only [leaveConstruct, emit, push, statementOf_carrying, hcode]
    simp [carrying, h.enclosing]
  · intro s F _ hloop hr hcarries hk
    have hcarried : carriedType c = some t := by
      rw [carriedType, hres]
      split
      · exact absurd ‹_› hloop
      · rfl
    obtain ⟨temp', x, xs, htemp', hstack, hx⟩ := hcarries t hcarried
    obtain ⟨_, ls, w⟩ := s
    subst hstack
    rw [hvals, hres, htemp temp' htemp']
    exact ⟨rfl, h.tracks_value xs hr hk (by rw [eval_temp hr hx t w]; rfl)⟩
  · intro cond u thenCode live hkind _ t' ht'
    rw [hres, Option.some.injEq] at ht'
    subst ht'
    exact ⟨_, by rw [hkind]; rfl, hlt, hle, rfl, hvals⟩

/-- **Every end of a construct is the end of a statement or a choice.** -/
theorem closing_of_closes (ht : r.Tidy S.env) (hc : Closes r es r3) (hT : r3.temps.size ≤ S.temps) :
    (∃ cond thenValue v, Folds r c cs cond thenValue v r3) ∨
      ∃ thenTail tail, S.Closing rs stack F1 r c cs r3 thenTail tail := by
  cases hc.innermost h.constructs with
  | folded hk _ hres hvs hcode =>
    exact .inl ⟨_, _, _, ⟨_, _, hk⟩, by simp [hres], hcode, hvs, rfl⟩
  | plain hres hvs => exact .inr ⟨_, _, h.closing_plain hres hvs⟩
  | direct hk _ hres hvs htemp =>
    exact .inr ⟨_, _, h.closing_direct hk hres hvs htemp⟩
  | unreached _ hd hend =>
    exact .inr ⟨_, _, h.closing_dead hd hend rfl (statementOf_eq c _) fun _ => rfl⟩
  | @store v t _ _ hres hvs =>
    have hlt := (h.withValues []).resultTemp_lt (ht.uncons hvs).2 hT
    have hle := (h.withValues []).resultTemp_le t
    refine .inr ⟨_, _, h.closing_temp hres (fun _ htemp => by rw [resultTemp_some t htemp]) hlt
      hle ?_ fun hr hvals => h.ends_assign ht hvs hlt hle hr hvals⟩
    simp [carryTo, emit, scope_resultTemp, withValues]
  | @carried _ t _ hd hres =>
    refine .inr ⟨_, _, h.closing_temp hres (fun _ htemp => by rw [resultTemp_some t htemp])
      (h.resultTemp_lt ht hT) (h.resultTemp_le t) (by rw [scope_resultTemp, append_nil])
      fun _ _ o F w hl => ?_⟩
    rw [hd] at hl
    cases hl
  | carriedUnreached _ hd _ _ hend =>
    rw [reachesEnd_carrying] at hend
    exact .inr ⟨_, _, h.closing_dead hd hend rfl
      (by rw [statementOf_carrying, scope_resultTemp]) (keptTail_eq_nil _)⟩

/-- **A construct with one arm becomes a statement.** -/
theorem Within.closed {ss ss1 : List Stmt} (hscope : r.scope = {}) (hg : Grows r r2 ss1)
    (ht : r2.Tidy S.env) (hk : ConstructKind.isElse c.kind = false) (hc : Closes r2 es r3)
    (hT : r3.temps.size ≤ S.temps) (hg3 : Grows rs r3 ss) :
    ∃ c2 outer2 thenTail tail, S.Within rs stack F1 r2 c2 outer2 ∧ c.Grows r.temps.size c2 ∧
      S.Closing rs stack F1 r2 c2 outer2 r3 thenTail tail ∧
        ss = [Rebuild.closed c2 thenTail (ss1 ++ tail)] := by
  obtain ⟨c2, outer2, hw, hcg⟩ := h.grown hg
  rcases closing_of_closes hw ht hc hT with ⟨_, _, _, hfolds⟩ | ⟨thenTail, tail, hc⟩
  · obtain ⟨_, _, hkind'⟩ := hfolds.kind
    rw [← hcg.kind, hkind'] at hk
    cases hk
  · have hcode : r2.scope.code.toList = ss1 := by simpa [hscope] using hg.code
    rw [← hcode]
    exact ⟨c2, outer2, thenTail, tail, hw, hcg, hc, hc.statement hg3⟩

/-- The second arm of a conditional starts. -/
lemma Within.switches (hs : Switches r es r1) :
    ∃ c1, S.Within rs stack F1 r1 c1 cs ∧ c1.result = c.result ∧ Serves c c1 ∧ r1.scope = {} := by
  obtain ⟨c1, hin, h1⟩ := h.toInside.switches hs
  exact ⟨c1, ⟨hin, h.stands⟩, h1⟩

/-- The end of the first arm of a conditional with two arms. -/
lemma Within.ends_first (ht : r.Tidy S.env) (hs : Switches r es r1)
    {thenTail tail : List Stmt} {c1 c2 : Construct} {outer1 outer2 : List Construct}
    (hcs1 : r1.constructs = c1 :: outer1) (hcg : c1.Grows r1.temps.size c2)
    (hT : r1.temps.size ≤ S.temps)
    (hc : S.Closing rs stack F1 r2 c2 outer2 r3 thenTail tail) :
    ∃ cond thenCode value live armTail, c.kind = .ifArm cond ∧
      c2.kind = .elseArm cond thenCode value live ∧
      thenCode.toList ++ thenTail = r.scope.code.toList ++ armTail ∧
      S.Ends rs stack F1 c.result r armTail r3 := by
  obtain ⟨cond, hkind, hs⟩ := hs.innermost h.constructs
  cases hs with
  | @keep v t _ hres hvs =>
    cases hcs1
    obtain ⟨temp, rfl, hlt, hle, hreach, hvalues3⟩ :=
      hc.kept hcg.kind rfl (hcg.result.trans hres)
    exact ⟨cond, _, _, _, _, hkind, hcg.kind, rfl,
      hres ▸ h.ends_assign ht hvs hlt hle hreach hvalues3⟩
  | @store v t _ _ hvs =>
    cases hcs1
    have hlt := (h.withValues []).resultTemp_lt (ht.uncons hvs).2 hT
    have hunkept : thenTail = [] := hc.unkept fun _ _ _ _ hk2 => by
      rw [hcg.kind] at hk2
      cases hk2
    subst hunkept
    refine ⟨cond, _, _, _, [.assign (.temp ((r.withValues []).resultTemp 0 c t).1) v.expr],
      hkind, hcg.kind, ?_, ?_⟩
    · simp [carryTo, emit, scope_resultTemp, Rebuild.withValues]
    intro o F w _ htr hk
    obtain ⟨ls, hr, hv⟩ := htr.single hvs
    refine performs_assignTemp hr hlt (ht.uncons hvs).1.sound.orderly
      (resume_exit hv c.result stack) fun x w1 hx => ?_
    have hset := hr.setTemp hlt x
    have hk' := hk.trans (kept_set (.inl ((h.withValues []).resultTemp_le t)) x)
    obtain ⟨hreach, htr'⟩ := hc.rejoin (s := ⟨[x], ls, w1⟩) (by simp [reachesEnd, hcg.kind])
      (by rw [hcg.kind]; simp) hset
      (fun _ _ => ⟨_, x, [], hcg.temp _ rfl, rfl, set_self _ _ _⟩) hk'
    rw [← Option.some.inj hx, ← hcg.result]
    exact ⟨hreach, hk', htr'⟩
  | plain hvs =>
    cases hcs1
    have hunkept : thenTail = [] := hc.unkept fun _ _ _ _ hk2 => by
      rw [hcg.kind] at hk2
      cases hk2
    subst hunkept
    refine ⟨cond, _, _, _, [], hkind, hcg.kind, rfl, ?_⟩
    intro o F w hlive htr hk
    obtain ⟨hres, hnil⟩ := hvs hlive
    obtain ⟨ls, hr, rfl⟩ := htr.nil hnil
    have hnone : c2.result = none := hcg.result.trans hres
    obtain ⟨hreach, htr'⟩ := hc.rejoin (s := ⟨[], ls, w⟩)
      (by simp [reachesEnd, hcg.kind, hlive, Reach.isLive]) (by rw [hcg.kind]; simp) hr
      (fun t hcarried => by simp [carriedType, hcg.kind, hnone] at hcarried) hk
    rw [← hcg.result]
    exact .nil ⟨hreach, hk, htr'⟩

end Ends

/-! ## Leaving a construct -/

lemma leads_labelLine (hF : S.naming.Clear F) (label : Option Nat) (K : List Line) :
    S.Leads (.running (C.labelLine label ++ K) F w) (.running K F w) := by
  cases label with
  | none => exact .refl _
  | some l => exact leads_line hF rfl rfl

lemma leads_openBlock (hF : S.naming.Clear F) (k : List Line) :
    S.Leads (.running (.openBlock :: k) F w) (.running k F w) :=
  leads_line hF rfl rfl

lemma leads_close (hF : S.naming.Clear F) (label : Option Nat) (K : List Line) :
    S.Leads (.running (.close :: (C.labelLine label ++ K)) F w) (.running K F w) :=
  (leads_line hF rfl rfl).trans (leads_labelLine hF label K)

/-- Behind the first arm of a conditional, the second is skipped. -/
lemma leads_openElse (hF : S.naming.Clear F) (no : List Stmt) (label : Option Nat) (K : List Line) :
    S.Leads (.running (.openElse :: (Stmt.flattenAll no ++ .close :: (C.labelLine label ++ K))) F w)
      (.running K F w) := by
  refine (leads_line hF rfl ?_).trans (leads_labelLine hF label K)
  simp [Line.perform, C.behindClose_flattenAll, C.behindClose]

/-- A construct with a label can be left. -/
lemma reachesEnd_of_label {l : Nat} (hlabel : c.label = some l) (hloop : c.kind ≠ .loop) :
    reachesEnd c false = true := by
  unfold reachesEnd
  split
  · simp [hlabel]
  · exact absurd ‹_› hloop
  · rfl
  · simp [hlabel]

lemma granted_of_exit {res : Option ValueType} (h : S.Granted (o.exit res stack)) :
    S.Granted o := by
  cases o with
  | next | branch | leave => trivial
  | trap => exact h

/-- **Leaving a construct.** A run of an arm, which ends in the state `r2`, leaves the construct as
it is left in WebAssembly: a branch to it goes on behind it. -/
theorem Closing.exit {silent : Prop} {thenTail lastTail tail : List Stmt} {k K : List Line}
    {start : Config μ σ} {r4 : Rebuild} {c1 : Construct} {outer1 : List Construct}
    (hc : S.Closing rs stack F1 r4 c cs r3 thenTail lastTail)
    (hcs : r4.constructs = c :: cs) (hw1 : S.Within rs stack F1 r1 c1 outer1)
    (hlen : r4.constructs.length = r2.constructs.length)
    (hserves : ∀ (d : Nat) (c : Construct), r2.constructs[d]? = some c →
      ∃ c', r4.constructs[d]? = some c' ∧ Serves c c')
    (hends : S.Ends rs stack F1 c.result r2 tail r3)
    (hlabel : ∀ l, c.label = some l → c.kind ≠ .loop → C.findLabel l S.whole = some (.label l :: K))
    (hloop : c.kind = .loop → ∀ s, o ≠ .branch 0 s)
    (hskip : ∀ {F : Frame} {w : World μ σ}, S.naming.Clear F →
      S.Leads (.running k F w) (.running K F w))
    (h : S.Answers r1 r2 silent (Stmt.flattenAll tail ++ k) F1 start o) :
    S.Answers rs r3 False K F1 start (o.exit c.result stack) := by
  have hlen : r2.constructs.length = r3.constructs.length + 1 := by
    rw [← hlen, hcs, length_cons, hc.constructs]
  cases h with
  | crash _ h =>
    obtain ⟨cause, w, rfl, h⟩ := h
    exact .crash id ⟨cause, w, rfl, h⟩
  | arrive hlive htr hk hl =>
    rcases hends hlive htr (hw1.kept hk) with
      ⟨-, hcrash⟩ | ⟨F', w', ⟨hlive', hk', htr'⟩, hruns, -⟩
    · exact .crash id ((hcrash k).after hl)
    · obtain ⟨ls, hr, h⟩ := htr'
      exact .arrive hlive' ⟨ls, hr, h⟩ hk' (hl.trans ((hruns k).trans (hskip hr.clear))) False.elim
  | leave ho _ h =>
    refine .leave ?_ id h
    rcases ho with rfl | rfl
    · exact .inl rfl
    · exact .inr (by rw [hlen]; rfl)
  | @jump c' d s F' ho _ hc' hk hj =>
    subst ho
    obtain ⟨c'', hc'', hs⟩ := hserves d c' hc'
    have hj := hj.serves hs
    have hk' := hw1.kept hk
    rw [hcs] at hc''
    cases d with
    | zero =>
      rw [getElem?_cons_zero, Option.some.injEq] at hc''
      subst hc''
      have hkind : c.kind ≠ .loop := fun hkind => hloop hkind s rfl
      obtain ⟨l, hl, ht⟩ := hj.leads
      obtain ⟨hlive, htr⟩ := hc.rejoin (reachesEnd_of_label hl hkind) hkind hj.ready hj.carries hk'
      exact .arrive hlive htr hk'
        ((ht _ (hlabel l hl hkind)).trans (leads_labelLine hj.ready.clear (some l) K)) False.elim
    | succ d => exact .jump rfl id (by rw [hc.constructs]; exact hc'') hk' hj

end Setting

end WasmToC

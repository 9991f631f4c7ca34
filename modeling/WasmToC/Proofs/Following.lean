import WasmToC.Proofs.Tracking
import WasmToC.Proofs.Nesting

/-!
# Following an instruction

One instruction of a running WebAssembly function against the C code that its reconstruction emits.
Whatever the instruction does, the C code does it too: it goes on, jumps to the label of the
construct that a branch leads to, or returns. If a store is out of bounds, it is in the C code. A
load that is out of bounds stays pending, and the C code comes to it when it is evaluated, unless it
is thrown away.

## Main definitions

* `Setting.Returns` — the C function returns what the WebAssembly function does.
* `Setting.Jumps` — the C function is at the label that a branch leads to.
* `Setting.Answers` — the C function does what an outcome says.

## Main results

* `Setting.simulates_of_acts` — every instruction that is not part of a construct.
-/

namespace WasmToC

open List Option Wasm Pending Rebuild
open C (Expr Stmt Frame Line Config tempName localName)

namespace Setting

variable {μ σ : Type} {S : Setting μ σ} {c c' : Construct} {silent : Prop} {start : Config μ σ}
  {ls vs : List Value} {values : List Pending} {n d depth : Nat} {cond u : Pending}
  {c1 c2 start' : Config μ σ} {silent' : Prop} {off : Nat} {e : Expr}

/-! ## Outcomes -/

variable (S) in
/-- The C function returns what a WebAssembly function that ends in a given state returns. -/
def Returns (s : State μ σ) (c : Config μ σ) : Prop :=
  ∃ v, s.result? S.env.type.result = some v ∧ S.Leads c (.returned v s.world)

/-- The result temporary of a construct has the value that a branch to the construct takes along. -/
def Carries (c : Construct) (s : State μ σ) (F : Frame) : Prop :=
  ∀ t, carriedType c = some t →
    ∃ temp x xs, c.temp = some temp ∧ s.stack = x :: xs ∧ F (tempName temp) = some x

variable (S) in
/-- The C function jumps to the label of a construct, in the state that a branch to the construct
leaves. -/
structure Jumps (c : Construct) (s : State μ σ) (F : Frame) (start : Config μ σ) : Prop where
  /-- The variables are there. -/
  ready : S.Ready s.locals F
  /-- A value is taken along. -/
  carries : Carries c s F
  /-- The label is reached. -/
  leads : ∃ l, c.label = some l ∧ ∀ target, C.findLabel l S.whole = some target →
    S.Leads start (.running target F s.world)

variable (S) in
/-- From a configuration `start` with the frame `F`, the C function does what the outcome of
WebAssembly code says, if the lines `k` follow the statements for that code; these statements were
emitted between two states of reconstruction. Where there are no statements, `start` is where they
would end. -/
inductive Answers (r r1 : Rebuild) (silent : Prop) (k : List Line) (F : Frame) (start : Config μ σ)
    (o : Outcome μ σ) : Prop
  /-- It ends at an access that is out of bounds. -/
  | crash (hs : ¬ silent) (h : S.Crashes o start)
  /-- It gets to the lines that follow. -/
  | arrive {F' : Frame} {w' : World μ σ} (hlive : r1.reach = .live)
      (h : S.Tracks r1.scope.values o F' w') (hk : Kept r.temps.size r.resultTemps F F')
      (hl : S.Leads start (.running k F' w')) (hs : silent → start = .running k F' w')
  /-- It returns. -/
  | leave {s : State μ σ} (ho : o = .leave s ∨ o = .branch r1.constructs.length s)
      (hs : ¬ silent) (h : S.Returns s start)
  /-- It jumps. -/
  | jump {c : Construct} {d : Nat} {s : State μ σ} {F' : Frame} (ho : o = .branch d s)
      (hs : ¬ silent) (hc : r1.constructs[d]? = some c)
      (hk : Kept r.temps.size r.resultTemps F F') (h : S.Jumps c s F' start)

variable (S) in
/-- The code that is emitted between two states of reconstruction does what an outcome says,
whatever follows. -/
def Simulates (r r1 : Rebuild) (F : Frame) (w : World μ σ) (o : Outcome μ σ) : Prop :=
  ∃ ss, Grows r r1 ss ∧ ∀ k, S.Answers r r1 (ss = []) k F (.running (Stmt.flattenAll ss ++ k) F w) o

variable {r r1 r2 : Rebuild} {s s' : State μ σ} {F F' F1 : Frame} {w w' w1 : World μ σ}
  {o : Outcome μ σ} {ss ts : List Stmt} {k : List Line} {es : List Line}
  {P : Frame → World μ σ → Prop}

lemma Jumps.after (h : S.Jumps c s F c2) (hl : S.Leads c1 c2) : S.Jumps c s F c1 := by
  obtain ⟨l, hlabel, ht⟩ := h.leads
  exact ⟨h.ready, h.carries, l, hlabel, fun target hfind => hl.trans (ht target hfind)⟩

lemma Returns.after (h : S.Returns s c2) (hl : S.Leads c1 c2) : S.Returns s c1 := by
  obtain ⟨v, hv, hr⟩ := h
  exact ⟨v, hv, hl.trans hr⟩

/-- Code that comes before. -/
lemma Answers.after (h : S.Answers r1 r2 silent' k F1 start' o)
    (hkept : ∀ {F'}, Kept r1.temps.size r1.resultTemps F1 F' → Kept r.temps.size r.resultTemps F F')
    (hl : S.Leads start start') (hsilent : silent → silent' ∧ start = start') :
    S.Answers r r2 silent k F start o := by
  cases h with
  | crash hs h => exact .crash (fun h => hs (hsilent h).1) (h.after hl)
  | arrive hlive h hk hl' hs =>
    refine .arrive hlive h (hkept hk) (hl.trans hl') fun h => ?_
    rw [(hsilent h).2]
    exact hs (hsilent h).1
  | leave ho hs h => exact .leave ho (fun h => hs (hsilent h).1) (h.after hl)
  | jump ho hs hc hk h => exact .jump ho (fun h => hs (hsilent h).1) hc (hkept hk) (h.after hl)

/-- A jump to a construct that still serves. -/
lemma Jumps.serves (h : S.Jumps c s F start) (hs : Serves c c') : S.Jumps c' s F start := by
  obtain ⟨l, hl, ht⟩ := h.leads
  refine ⟨h.ready, fun t hcarried => ?_, l, hs.label l hl, ht⟩
  obtain ⟨temp, x, xs, htemp, hr⟩ := h.carries t (hs.carried ▸ hcarried)
  exact ⟨temp, x, xs, hs.temp temp htemp, hr⟩

lemma serves_constructs (hg : Grows r r1 ss) (d : Nat) (c : Construct)
    (hc : r.constructs[d]? = some c) : ∃ c', r1.constructs[d]? = some c' ∧ Serves c c' := by
  obtain ⟨c', hc', hcg⟩ := hg.construct d c hc
  exact ⟨c', hc', serves_of_grows hcg⟩

/-- Code that comes behind other code. -/
lemma Advances.behind (h : S.Advances r r1 F w o P) (hg : Grows r1 r2 ts) :
    ∃ ss, Grows r r2 (ss ++ ts) ∧ ∀ k, (∀ F1 w1, P F1 w1 →
        S.Answers r1 r2 (ts = []) k F1 (.running (Stmt.flattenAll ts ++ k) F1 w1) o) →
      S.Answers r r2 (ss ++ ts = []) k F (.running (Stmt.flattenAll (ss ++ ts) ++ k) F w) o := by
  obtain ⟨ss, hss, h⟩ := h
  refine ⟨ss, hss.trans hg, fun k h' => ?_⟩
  rw [Stmt.flattenAll_append, append_assoc]
  rcases h with ⟨hne, hcrash⟩ | ⟨F1, w1, ⟨hk, hP⟩, hruns, hnil⟩
  · exact .crash (by simp [hne]) (hcrash _)
  · refine (h' F1 w1 hP).after (fun hk' => hk.trans (hk'.grown hss)) (hruns _) fun hts => ?_
    obtain ⟨rfl, rfl⟩ := append_eq_nil_iff.mp hts
    obtain ⟨rfl, rfl⟩ := hnil rfl
    exact ⟨rfl, rfl⟩

lemma Advances.followed (h : S.Advances r r1 F w o P) (hg : Grows r1 r2 ts)
    (h' : ∀ F1 w1, P F1 w1 → ∀ k,
      S.Answers r1 r2 (ts = []) k F1 (.running (Stmt.flattenAll ts ++ k) F1 w1) o) :
    S.Simulates r r2 F w o := by
  obtain ⟨ss, hss, h⟩ := h.behind hg
  exact ⟨ss ++ ts, hss, fun k => h k fun F1 w1 hP => h' F1 w1 hP k⟩

lemma Advances.simulated (h : S.Advances r r1 F w o P) (hw : Rebuild.Writes r1 es r2)
    (h' : ∀ F1 w1, P F1 w1 → S.Simulates r1 r2 F1 w1 o) : S.Simulates r r2 F w o := by
  obtain ⟨ts, hts, -⟩ := hw
  refine h.followed hts fun F1 w1 hP => ?_
  obtain ⟨us, hus, h⟩ := h' F1 w1 hP
  obtain rfl : us = ts := append_cancel_left (hus.code.symm.trans hts.code)
  exact h

/-- Code that is run to its end. -/
lemma Advances.simulates (h : S.Advances r r1 F w o (S.Tracks r1.scope.values o))
    (hlive : r1.reach = .live) : S.Simulates r r1 F w o :=
  h.followed (.refl r1) fun F1 w1 ht k => by
    simpa using Answers.arrive hlive ht (.refl _ _ F1) (.refl _) fun _ => rfl

/-! ## Instructions that push an operand -/

variable {v : Pending} {x : Value} {xs : List Value} {below : List Pending} {i : Instruction}
  {g : State μ σ → Option (Outcome μ σ)}

/-- **An operator** is applied to its operands: if an instruction does with their values what the
operator does, the C function follows it. -/
theorem simulates_operator (args : List Pending) (hlive : r1.reach = .live)
    (h : S.Advances r r1 F w o (S.Continues (args.reverse ++ below) g o))
    (halt : v.expr.alternatives = []) (hf : v.expr.first = args.map expr)
    (hv : ∀ {ls : List Value} {F : Frame}, S.Ready ls F → ∀ {vs ys : List Value}
      {w : World μ σ}, vs.length = args.length → g ⟨vs.reverse ++ ys, ls, w⟩ = some o →
        (v.expr.apply S.host S.naming F w vs).resume
          (fun x w => some (.next ⟨x :: ys, ls, w⟩)) = some o) :
    S.Simulates r ((r1.withValues below).push v) F w o := by
  refine (h.thenNothing ((grows_withValues below).thenNothing (grows_push v)) ?_).simulates hlive
  rintro F1 w1 ⟨ls, hr, hc⟩
  refine ⟨ls, hr, ?_⟩
  change (S.meaning F1 (v :: below) w1).resume _ = _
  rw [meaning_append, resume_andThen] at hc
  rw [meaning_cons, resume_andThen]
  refine resume_mono hc fun ys w hys => ?_
  rw [eval, Expr.eval_apply halt, hf]
  simp only [meaning_reverse, resume_andThen, resume_ok] at hys ⊢
  rcases resume_cases hys with ⟨vs, w', hev, hg⟩ | ⟨w', hev, rfl⟩ <;> rw [hev]
  · exact hv hr (by simpa using Expr.length_evalAll hev) hg
  · rfl

/-- An operand is pushed. -/
lemma simulates_push (hlive : r.reach = .live) (h : S.Continues r.scope.values g o F w)
    (halt : v.expr.alternatives = []) (hf : v.expr.first = [])
    (hv : ∀ {ls : List Value} {F : Frame}, S.Ready ls F → ∀ {ys : List Value}
      {w : World μ σ}, g ⟨ys, ls, w⟩ = some o → (v.expr.apply S.host S.naming F w []).resume
        (fun x w => some (.next ⟨x :: ys, ls, w⟩)) = some o) :
    S.Simulates r (r.push v) F w o :=
  simulates_operator [] hlive (.refl h) halt hf fun hr _ _ _ hlen hg => by
    obtain rfl := length_eq_zero_iff.mp hlen
    exact hv hr hg

/-- An operator is applied to the last operand. -/
lemma simulates_unary (hlive : r.reach = .live) (h : S.Continues r.scope.values g o F w)
    (hvs : r.scope.values = u :: below) (halt : v.expr.alternatives = [])
    (hf : v.expr.first = [u.expr])
    (hv : ∀ {ls : List Value} {F : Frame}, S.Ready ls F → ∀ {x : Value} {ys : List Value}
      {w : World μ σ}, g ⟨x :: ys, ls, w⟩ = some o → (v.expr.apply S.host S.naming F w [x]).resume
        (fun x w => some (.next ⟨x :: ys, ls, w⟩)) = some o) :
    S.Simulates r ((r.withValues below).push v) F w o := by
  rw [hvs] at h
  refine simulates_operator [u] hlive (.refl h) halt hf fun hr vs _ _ hlen hg => ?_
  obtain ⟨x, rfl⟩ := length_eq_one_iff.mp hlen
  exact hv hr hg

lemma apply_var (hr : S.Ready ls F) {index : Nat} (h : ls[index]? = some x) (w : World μ σ) :
    Expr.apply S.host S.naming F w (.var index) vs = .ok (x, w) := by
  simp [Expr.apply, C.Naming.read_of_not_mem (hr.clear.local_not_mem _), hr.locals, h, Expr.answer]

/-- A call by name is a call of the function. -/
lemma call_function (hF : S.naming.Clear F) {f : Nat} {t : FuncType}
    (h : S.env.inModule.functionType? f = some t) (w : World μ σ) (args : List Value) :
    S.naming.call S.host F w (S.naming.symbols.function f) args = w.call S.host f args := by
  simp [C.Naming.call, C.Naming.callee?, hF.function_eq_none f, S.function f t h]

lemma popMany_append (xs ys : List Value) (w : World μ σ) (hcount : xs.length = n) :
    (⟨xs.reverse ++ ys, ls, w⟩ : State μ σ).popMany n = some (xs, ⟨ys, ls, w⟩) := by
  subst hcount
  simp [State.popMany]

variable (ht : r.Tidy S.env) (hlive : r.reach = .live)
  (h : S.Continues r.scope.values (perform S.host S.env.inModule i) o F w) (hgr : S.Granted o)

include hlive h in
/-- A local is read. -/
lemma simulates_getLocal {index : Nat} {t : ValueType} (hop : i.op = .getLocal)
    (himm : i.imm.index? = some index) : S.Simulates r (r.push (.var index t)) F w o := by
  refine simulates_push hlive h rfl rfl fun hr ys w hp => ?_
  simp only [perform, hop, himm, bind_eq_bind, bind_some, Option.pure_def,
    bind_eq_some_iff, Option.some.injEq] at hp
  obtain ⟨x, hx, rfl⟩ := hp
  simp [Pending.var, apply_var hr hx, State.push]

include hlive h in
/-- A global is read. -/
lemma simulates_getGlobal {index : Nat} {t : GlobalType} (hop : i.op = .getGlobal)
    (himm : i.imm.index? = some index) (htype : S.env.inModule.globalType? index = some t) :
    S.Simulates r (r.push (.global index t.content)) F w o := by
  refine simulates_push hlive h rfl rfl fun hr ys w hp => ?_
  simp [perform, hop, himm] at hp
  subst hp
  simp [Pending.global, Expr.apply, C.Naming.read_of_eq_none (hr.clear.global_eq_none index),
    S.global index t htype, Expr.answer, State.push]

include hlive h hgr in
/-- The memory grows. -/
lemma simulates_growMemory (hop : i.op = .growMemory) (hvs : r.scope.values = v :: below) :
    S.Simulates r ((r.withValues below).push (.memoryGrow v)) F w o := by
  refine simulates_unary hlive h hvs rfl rfl fun hr x ys w hp => ?_
  simp only [perform, hop, State.pop, bind_eq_bind, bind_some, Option.pure_def, Option.some.injEq,
    State.resume] at hp
  rcases hgrow : w.grow S.host x with _ | ⟨y, w'⟩ <;> rw [hgrow] at hp <;> subst hp
  · cases hgr
  · simp [Pending.memoryGrow, Expr.apply, hgrow, Expr.answer]

include hlive h in
/-- A load. -/
lemma simulates_load {op : Load} (hop : i.op = .load op) (himm : i.imm.offset? = some off)
    (hvs : r.scope.values = v :: below) :
    S.Simulates r ((r.withValues below).push (.load op v off)) F w o := by
  refine simulates_unary hlive h hvs rfl rfl fun hr x ys w hp => ?_
  simp only [perform, hop, himm, State.pop, bind_eq_bind, bind_some, Option.pure_def,
    Option.some.injEq] at hp
  cases hload : w.load S.host op x off <;> rw [hload] at hp <;> subst hp <;>
    simp [Pending.load, Expr.apply, hload, Expr.answer, State.push]

include ht hlive h in
/-- A numeric instruction. -/
lemma simulates_numeric {args : List Pending} {op : Numeric} (hop : i.op = .numeric op)
    (hvs : (r.sequence op.shape.arity).scope.values = args.reverse ++ below)
    (hcount : args.length = op.shape.arity)
    (hT : (r.sequence op.shape.arity).temps.size ≤ S.temps) :
    S.Simulates r
      (((r.sequence op.shape.arity).withValues below).push (.numeric op args)) F w o := by
  have hadv := advances_sequence ht _ hT h
  rw [hvs] at hadv
  refine simulates_operator args ((reach_sequence _).trans hlive) hadv rfl rfl
    fun hr vs ys w hlen hp => ?_
  simp [perform, hop, popMany_append vs ys w (hlen.trans hcount), State.push] at hp
  subst hp
  rfl

/-! ## Instructions that emit a statement -/

/-- What is not in the way of a change of the world does not depend on the world. -/
lemma not_depends_of_writes {hz : Hazard} (hz' : hz.writesState = true) (hu : u.Sound)
    (h : hz.conflicts u.uses = false) : u.expr.depends = false :=
  hu.not_depends ((Hazard.conflicts_eq_false.mp h).2.1 hz')

/-- A statement with effects takes its operands, after they have been put in sequence. -/
lemma simulates_statement (args : List Pending) (ht : r.Tidy S.env) (hlive : r.reach = .live)
    (h : S.Continues r.scope.values g o F w)
    (hvs : (r.sequence n).scope.values = args.reverse ++ below)
    (hcount : args.length = n) (henough : n ≤ r.scope.values.length)
    (hT : (((r.sequence n).withValues below).settle .effect).temps.size ≤ S.temps) {t : Stmt}
    (hflat : t.flatten = [.run t]) (hops : (Line.run t).operands = args.map expr)
    (hperform : ∀ {ls : List Value} {F : Frame}, S.naming.Clear F → ∀ {vs ys : List Value}
      {w : World μ σ}, vs.length = n → g ⟨vs.reverse ++ ys, ls, w⟩ = some o →
        (∃ w', o = .next ⟨ys, ls, w'⟩ ∧ ∀ k, (Line.run t).perform S.host S.naming F S.whole vs k
          w = some (.running k F w')) ∨ (Line.run t).isStore = true ∧ o = .trap .store w ∧
            ∀ k, (Line.run t).perform S.host S.naming F S.whole vs k w = none) :
    S.Simulates r ((((r.sequence n).withValues below).settle .effect).emit t) F w o := by
  have hle : (r.sequence n).temps.size ≤ S.temps :=
    Nat.le_trans (size_temps_spill (r := (r.sequence n).withValues below)) hT
  obtain ⟨-, hadmits, hpair⟩ := ht.args hvs hcount henough
  have htidy : ((r.sequence n).withValues below).Tidy S.env :=
    (ht.sequence n).withValues fun v hv => by simp [hvs, hv]
  have hseq := advances_sequence ht n hle h
  rw [hvs] at hseq
  have hadv := Advances.settle args.reverse
    (hseq.thenNothing (grows_withValues below) fun _ _ => id) htidy
    (fun v hv => (hadmits v (mem_reverse.mp hv)).withValues below) .effect hT
  refine (hadv.append (grows_emit t) ?_).simulates
    ((settle_reach _).trans ((reach_sequence _).trans hlive))
  rintro F1 w1 ⟨ls, hr, hc⟩
  have hdep : ∀ u ∈ (((r.sequence n).withValues below).settle .effect).scope.values,
      u.expr.depends = false := fun u hu =>
    not_depends_of_writes rfl ((htidy.settle .effect).admits_value hu).sound
      (not_conflicts_of_mem_settle hu)
  have ho : Expr.AllOrderly (Line.run t).operands := by
    rw [hops]
    exact allOrderly_map (fun a ha => (hadmits a ha).sound) hpair
  rw [meaning_append, resume_andThen] at hc
  cases meaning_fixed (F := F1) hr.clear hdep with
  | fails hys =>
    rw [hys] at hc
    cases hc
  | ok ys hys =>
    simp only [hys, meaning_reverse, resume_andThen, resume_ok] at hc
    refine performs_line hflat ?_
    rcases line_cases hr.clear ho (hops ▸ hc) with hcrash | ⟨vs, w2, hv, hg, hl⟩
    · exact .inl hcrash
    have hlen : vs.length = n := by simpa [hops, hcount] using Expr.length_evalAll hv
    rcases hperform hr.clear hlen hg with ⟨w', rfl, hp⟩ | ⟨hs, rfl, hp⟩
    · exact .inr ⟨F1, w', ⟨.refl _ _ F1, ls, hr, by simp [emit, hys w']⟩, fun k => hl (hp k)⟩
    · exact .inl fun k => crashes_of_exec hr.clear ho (by simp [Line.exec, hv, hp, hs]) .store

section Call

variable {args : List Pending} {f : Nat} {t : FuncType} (hop : i.op = .call)
  (himm : i.imm.index? = some f) (htype : S.env.inModule.functionType? f = some t)
  (hvs : (r.sequence t.params.length).scope.values = args.reverse ++ below)
  (hcount : args.length = t.params.length)

include hop himm htype hgr in
/-- A call that comes back. -/
lemma perform_call {vs ys : List Value} (hlen : vs.length = t.params.length)
    (hp : perform S.host S.env.inModule i ⟨vs.reverse ++ ys, ls, w⟩ = some o) :
    ∃ v w', w.call S.host f vs = some (v, w') ∧
      o = .next ⟨if t.result.isSome then v :: ys else ys, ls, w'⟩ := by
  simp only [perform, hop, himm, htype, popMany_append vs ys w hlen, bind_eq_bind, bind_some,
    Option.pure_def, Option.some.injEq, State.resume] at hp
  cases hcall : w.call S.host f vs <;> rw [hcall] at hp <;> subst hp
  · cases hgr
  · exact ⟨_, _, rfl, rfl⟩

include ht hlive h hgr hop himm htype hvs hcount

/-- A call with a result. -/
lemma simulates_call {res : ValueType} (hres : t.result = some res)
    (hT : (r.sequence t.params.length).temps.size ≤ S.temps) :
    S.Simulates r (((r.sequence t.params.length).withValues below).push (.call f args res)) F w
      o := by
  have hadv := advances_sequence ht _ hT h
  rw [hvs] at hadv
  refine simulates_operator args ((reach_sequence _).trans hlive) hadv rfl rfl
    fun hr vs ys w hlen hp => ?_
  obtain ⟨x, w', hcall, rfl⟩ := perform_call hgr hop himm htype (hlen.trans hcount) hp
  simp [Pending.call, Expr.apply, call_function hr.clear htype, hcall, Expr.answer, hres]

/-- A call without a result. -/
lemma simulates_callPlain (hres : t.result = none)
    (henough : t.params.length ≤ r.scope.values.length)
    (hT : (((r.sequence t.params.length).withValues below).settle .effect).temps.size ≤ S.temps) :
    S.Simulates r ((((r.sequence t.params.length).withValues below).settle .effect).emit
      (.call f (args.map expr))) F w o := by
  refine simulates_statement args ht hlive h hvs hcount henough hT rfl rfl
    fun hF vs ys w hlen hp => ?_
  obtain ⟨x, w', hcall, rfl⟩ := perform_call hgr hop himm htype hlen hp
  exact .inl ⟨w', by simp [hres], fun k => by
    simp [Line.perform, call_function hF htype, hcall]⟩

end Call

include ht hlive h in
/-- A store. -/
lemma simulates_store {op : Store} {value addr : Pending} (hop : i.op = .store op)
    (himm : i.imm.offset? = some off)
    (hvs : (r.sequence 2).scope.values = value :: addr :: below)
    (henough : 2 ≤ r.scope.values.length)
    (hT : (((r.sequence 2).withValues below).settle .effect).temps.size ≤ S.temps) :
    S.Simulates r ((((r.sequence 2).withValues below).settle .effect).emit
      (.store op addr.expr off value.expr)) F w o := by
  refine simulates_statement [addr, value] ht hlive h hvs rfl henough hT rfl rfl
    fun hF vs ys w hlen hp => ?_
  obtain ⟨x, y, rfl⟩ := length_eq_two.mp hlen
  simp only [perform, hop, himm, State.pop, bind_eq_bind, bind_some, reverse_cons, reverse_nil,
    nil_append, cons_append, Option.pure_def, Option.some.injEq] at hp
  cases hstore : w.store S.host op x off y <;> rw [hstore] at hp <;> subst hp
  · exact .inr ⟨rfl, rfl, fun k => by simp [Line.perform, hstore]⟩
  · exact .inl ⟨_, rfl, fun k => by simp [Line.perform, hstore]⟩

/-- What the hazard of two things is not in the way of is in the way of neither. -/
lemma not_conflicts_and {a b : Hazard} {f : Footprint} (ha : a.assigns = none ∨ b.assigns = none)
    (h : (a.and b).conflicts f = false) : a.conflicts f = false ∧ b.conflicts f = false := by
  rwa [Hazard.conflicts_and ha, Bool.or_eq_false_iff] at h

/-- What does not read a local does not notice that it is assigned. -/
lemma agree_setLocal (hu : u.Sound) {index : Nat} (hn : index ∉ u.uses.locals) (y : Value) :
    Expr.Agree S.naming F (F.set (localName S.naming.params index) y) u.expr := by
  refine ⟨fun j hj => ?_, fun t _ => ?_⟩
  · refine (set_of_ne _ (fun hname => ?_) y).symm
    exact hn (C.localName_inj hname ▸ hu.locals j hj)
  · exact (set_of_ne _ (Ne.symm (C.localName_ne_tempName _ _ _)) y).symm

section Assignment

variable {index : Nat} {t : ValueType} (htype : S.env.locals[index]? = some t)
  (hvs : r.scope.values = v :: below)
  (hr1 : r1 = (r.withValues below).settle ((Hazard.assigning index).and (.evaluating v.uses)))
  (hT : r1.temps.size ≤ S.temps)
include ht h htype hvs hr1 hT

/-- A local is assigned: the state behind the assignment. -/
lemma advances_assignLocal :
    S.Advances r (r1.emit (.assign (.var index) v.expr)) F w o fun F' w' => ∃ ls x,
      S.Ready (ls.set index x) F' ∧ index < ls.length ∧
      (S.meaning F' r1.scope.values w').resume
        (fun xs w => perform S.host S.env.inModule i ⟨x :: xs, ls, w⟩) = some o := by
  subst hr1
  obtain ⟨hadmits, htidy⟩ := ht.uncons hvs
  refine (advances_pop ht hvs (fun f hf => (not_conflicts_and (.inr rfl) hf).2) hT h).append
    (grows_emit _) ?_
  rintro F1 w1 ⟨ls, hr, hv⟩
  have hi : index < ls.length := by
    rw [hr.length]
    exact (List.getElem?_eq_some_iff.mp htype).1
  refine performs_single rfl hr.clear rfl hadmits.sound.orderly hv fun x w2 hx => ?_
  have hset := hr.setLocal hi x
  refine ⟨_, w2, ⟨fun t _ _ => set_of_ne _ (Ne.symm (C.localName_ne_tempName _ _ _)) x, ls, x,
    hset, hi, ?_⟩, fun k => ?_⟩
  · rwa [← meaning_congr hr.clear hset.clear fun u hu => ?_]
    have hconf := (not_conflicts_and (.inr rfl) (not_conflicts_of_mem_settle hu)).1
    exact agree_setLocal ((htidy.settle _).admits_value hu).sound
      ((Hazard.conflicts_eq_false.mp hconf).1 index rfl) x
  · have hy := hr.locals index
    rw [getElem?_eq_getElem hi] at hy
    simp [Line.perform, C.Place.text, C.Naming.assign, hy]

include hlive in
/-- A local is assigned. -/
lemma simulates_setLocal (hop : i.op = .setLocal) (himm : i.imm.index? = some index) :
    S.Simulates r (r1.emit (.assign (.var index) v.expr)) F w o := by
  refine ((advances_assignLocal ht h htype hvs hr1 hT).thenNothing (.refl _) ?_).simulates
    (by rw [hr1]; exact (settle_reach _).trans hlive)
  rintro F' w' ⟨ls, x, hr, -, hx⟩
  exact ⟨_, hr, by simpa [perform, hop, himm, State.pop, emit] using hx⟩

include hlive in
/-- A local is assigned and read. -/
lemma simulates_teeLocal (hop : i.op = .teeLocal) (himm : i.imm.index? = some index) :
    S.Simulates r ((r1.emit (.assign (.var index) v.expr)).push (.var index t)) F w o := by
  refine ((advances_assignLocal ht h htype hvs hr1 hT).thenNothing (grows_push _) ?_).simulates
    (by rw [hr1]; exact (settle_reach _).trans hlive)
  rintro F' w' ⟨ls, x, hr, hi, hx⟩
  refine ⟨_, hr, ?_⟩
  change (S.meaning F' (.var index t :: r1.scope.values) w').resume _ = _
  simpa [perform, hop, himm, State.pop, meaning_cons, Pending.var, Expr.eval,
    apply_var hr (getElem?_set_self hi)] using hx

end Assignment

include ht hlive h in
/-- A global is assigned. -/
lemma simulates_setGlobal {index : Nat} {t : GlobalType} (hop : i.op = .setGlobal)
    (himm : i.imm.index? = some index) (htype : S.env.inModule.globalType? index = some t)
    (hvs : r.scope.values = v :: below) (hT : ((r.withValues below).settle
      ((Hazard.evaluating v.uses).and .writing)).temps.size ≤ S.temps) :
    S.Simulates r (((r.withValues below).settle ((Hazard.evaluating v.uses).and .writing)).emit
      (.assign (.global index) v.expr)) F w o := by
  obtain ⟨hadmits, htidy⟩ := ht.uncons hvs
  refine ((advances_pop ht hvs (fun f hf => (not_conflicts_and (.inl rfl) hf).1) hT h).append
    (grows_emit _) ?_).simulates ((settle_reach _).trans hlive)
  rintro F1 w1 ⟨ls, hr, hv⟩
  have hdep : ∀ u ∈ ((r.withValues below).settle
      ((Hazard.evaluating v.uses).and .writing)).scope.values, u.expr.depends = false :=
    fun u hu => not_depends_of_writes rfl ((htidy.settle _).admits_value hu).sound
      (not_conflicts_and (.inl rfl) (not_conflicts_of_mem_settle hu)).2
  refine performs_single rfl hr.clear rfl hadmits.sound.orderly hv fun x w2 hx => ?_
  cases meaning_fixed (F := F1) hr.clear hdep with
  | fails hxs =>
    rw [hxs] at hx
    cases hx
  | ok xs hxs =>
    simp [hxs, perform, hop, himm, State.pop] at hx
    subst hx
    exact ⟨F1, w2.setGlobal index x, ⟨.refl _ _ F1, ls, hr, by simp [emit, hxs]⟩, fun k => by
      simp [Line.perform, C.Place.text, C.Naming.assign, hr.clear.global_eq_none index,
        S.global index t htype]⟩

/-! ## Operands that are thrown away -/

/-- What neither has effects nor loads has a value, in the same world. -/
lemma resume_of_quiet {α : Type} {y : Expr.Evaluated μ σ α}
    {f : α → World μ σ → Option (Outcome μ σ)} (hs : Expr.Stays w y)
    (hload : S.keeps → y ≠ .error (some w)) (hgr : S.Granted o) (h : y.resume f = some o) :
    ∃ x, f x w = some o := by
  cases hs with
  | ok x => exact ⟨x, h⟩
  | faults =>
    cases h
    exact absurd rfl (hload hgr)
  | fails => cases h

/-- What is not in the way of leaving has values, in the same world. -/
lemma resume_of_leaving {f : List Value → World μ σ → Option (Outcome μ σ)}
    (hs : ∀ u ∈ values, u.Sound) (hc : ∀ u ∈ values, Hazard.leaving.conflicts u.uses = false)
    (hkeeps : S.keeps → ∀ u ∈ values, u.expr.loads = false) (hgr : S.Granted o)
    (h : (S.meaning F values w).resume f = some o) : ∃ xs, f xs w = some o := by
  refine resume_of_quiet (meaning_stays (fun u hu => ?_) w) (fun hk => ?_) hgr h
  · exact (hs u hu).not_effects ((Hazard.conflicts_eq_false.mp (hc u hu)).2.2 rfl)
  · refine Expr.Evaluated.andThen_ne_error (Expr.evalAll_ne_error (fun e he w' => ?_) w) (by simp)
    obtain ⟨u, hu, rfl⟩ := List.mem_map.mp he
    exact Expr.eval_ne_fault (hkeeps hk u (mem_reverse.mp hu)) w' w

/-- An operand is evaluated for its effects. -/
lemma advances_discard (g' : State μ σ → Option (Outcome μ σ)) (ht : r.Tidy S.env)
    (h : S.Continues r.scope.values g o F w) (hgr : S.Granted o)
    (hvs : r.scope.values = v :: below)
    (hkeeps : S.keeps → v.uses.effects = false → v.expr.loads = false)
    (hT : ((r.withValues below).discard v).temps.size ≤ S.temps)
    (hg : ∀ x xs ls w, g ⟨x :: xs, ls, w⟩ = g' ⟨xs, ls, w⟩) :
    S.Advances r ((r.withValues below).discard v) F w o
      (S.Continues ((r.withValues below).discard v).scope.values g' o) := by
  obtain ⟨hadmits, htidy⟩ := ht.uncons hvs
  unfold Rebuild.discard at hT ⊢
  split
  · rename_i heff
    rw [if_pos heff] at hT
    refine (advances_pop ht hvs (fun f hf => hf) hT h).append (grows_emit _) ?_
    rintro F1 w1 ⟨ls, hr, hv⟩
    simp only [hg] at hv
    exact performs_single rfl hr.clear rfl hadmits.sound.orderly hv fun x w2 hx =>
      ⟨F1, w2, ⟨.refl _ _ F1, ls, hr, hx⟩, fun k => rfl⟩
  · rename_i heff
    replace heff : v.uses.effects = false := by simpa using heff
    rw [hvs] at h
    refine (Advances.refl h).thenNothing (grows_withValues below) ?_
    rintro F1 w1 ⟨ls, hr, hc⟩
    refine ⟨ls, hr, ?_⟩
    rw [meaning_cons, resume_andThen] at hc
    refine resume_mono hc fun xs w hx => ?_
    rw [resume_andThen] at hx
    obtain ⟨x, hx⟩ := resume_of_quiet (Expr.eval_stays (hadmits.sound.not_effects heff) w)
      (fun hk => Expr.eval_ne_fault (hkeeps hk heff) w w) hgr hx
    simpa [hg] using hx

lemma not_depends_of_isStable (hu : u.Sound) (h : u.uses.isStable = true) :
    u.expr.depends = false :=
  hu.not_depends (Footprint.isStable_iff.mp h).2

include ht hlive h in
/-- A choice between two operands. -/
lemma simulates_select {second first : Pending} (hop : i.op = .select)
    (hvs : (r.spill (fun i _ => i = 1 || i = 2) .none).scope.values =
      cond :: second :: first :: below)
    (hT : (r.spill (fun i _ => i = 1 || i = 2) .none).temps.size ≤ S.temps) :
    S.Simulates r (((r.spill (fun i _ => i = 1 || i = 2) .none).withValues below).push
      (.choose cond first second)) F w o := by
  have hlen : (r.spill (fun i _ => i = 1 || i = 2) .none).scope.values.length =
      r.scope.values.length := length_values_spill
  rw [hvs, length_cons, length_cons, length_cons] at hlen
  have hsound :=
    fun u hu => ((ht.spill (fun i _ => i = 1 || i = 2) .none).admits_value (v := u) hu).sound
  rw [hvs] at hsound
  have hstable : ∀ {j : Nat} {u : Pending}, (j = 1 ∨ j = 2) →
      (cond :: second :: first :: below)[j]? = some u → u.expr.depends = false := by
    intro j u hj hu
    have hlt : j < r.scope.values.length := by omega
    rw [← hvs] at hu
    have := isStable_of_getElem?_spill (getElem?_eq_getElem hlt) (by simpa using hj) hu
    exact not_depends_of_isStable (hsound u (hvs ▸ mem_of_getElem? hu)) this
  have hadv := Advances.spill [] (.refl h) ht (by simp) _ .none hT
  rw [nil_append, hvs] at hadv
  refine (hadv.thenNothing ((grows_withValues below).thenNothing (grows_push _)) ?_).simulates
    ((spill_reach _ _).trans hlive)
  rintro F1 w1 ⟨ls, hr, hc⟩
  refine ⟨ls, hr, ?_⟩
  change (S.meaning F1 (.choose cond first second :: below) w1).resume _ = _
  simp only [meaning_cons, resume_andThen, Expr.Evaluated.andThen_andThen] at hc ⊢
  refine resume_mono hc fun xs w hx => ?_
  -- Both alternatives leave the world alone.
  cases Expr.eval_fixed (H := S.host) hr.clear (hstable (.inr rfl) rfl) with
  | fails hf => simp [hf, Expr.Evaluated.resume] at hx
  | ok x hf =>
    cases Expr.eval_fixed (H := S.host) hr.clear (hstable (.inl rfl) rfl) with
    | fails hsecond => simp [hf, hsecond, Expr.Evaluated.resume] at hx
    | ok y hsecond =>
      simp only [hf, hsecond, resume_ok] at hx
      simp only [Pending.choose, Expr.eval, resume_andThen]
      refine resume_mono hx fun c w hp => ?_
      simp [perform, hop, State.pop, State.push] at hp
      subst hp
      split <;> simp [hf, hsecond]

/-! ## Leaving -/

section Leaving

variable {f : Value → World μ σ → Option (Outcome μ σ)} (hr : S.Ready ls F) (ho : v.expr.Orderly)
  (hv : (S.eval F v.expr w).resume f = some o)
include hr ho hv

/-- The function returns a value. -/
lemma answers_leave {t : ValueType} (hres : S.env.type.result = some t)
    (hf : ∀ x w, f x w = some o → ∃ xs, o = .leave ⟨x :: xs, ls, w⟩ ∨
      o = .branch r1.constructs.length ⟨x :: xs, ls, w⟩) (k : List Line) :
    S.Answers r r1 False k F (.running (.run (.leave (some v.expr)) :: k) F w) o := by
  rcases line_cases_single (.run (.leave (some v.expr))) hr.clear rfl ho hv with
    hcrash | ⟨x, w1, hx, hl⟩
  · exact .crash id (hcrash k)
  · obtain ⟨xs, ho⟩ := hf x w1 hx
    exact .leave ho id ⟨some x, by simp [State.result?, hres], hl rfl⟩

/-- Control goes to a construct, with a value. -/
lemma answers_carry (r1 : Rebuild) {temp l : Nat} (hlt : temp < S.temps)
    (hapart : r.temps.size ≤ temp ∨ temp ∈ r.resultTemps) (hc : r1.constructs[d]? = some c)
    (htemp : c.temp = some temp) (hlabel : c.label = some l)
    (hf : ∀ x w, f x w = some o → ∃ xs, o = .branch d ⟨x :: xs, ls, w⟩) (k : List Line) :
    S.Answers r r1 False k F
      (.running (.run (.assign (.temp temp) v.expr) :: .run (.jump l) :: k) F w) o := by
  have hperform := performs_assignTemp (P := fun F' w1 => ∃ x, F' = F.set (tempName temp) x ∧
    f x w1 = some o) hr hlt ho hv fun x w1 hx => ⟨x, rfl, hx⟩
  rcases hperform with ⟨-, hcrash⟩ | ⟨_, w1, ⟨x, rfl, hx⟩, hruns, -⟩
  · exact .crash id (hcrash _)
  · obtain ⟨xs, rfl⟩ := hf x w1 hx
    have hset := hr.setTemp hlt x
    refine .jump rfl id hc (kept_set hapart x) ⟨hset, fun _ _ =>
      ⟨temp, x, xs, htemp, rfl, set_self _ _ _⟩, l, hlabel, fun target hfind => (hruns _).trans ?_⟩
    exact leads_line hset.clear rfl (by simp [Line.perform, hfind])

end Leaving

/-- Control goes to a construct, without a value. -/
lemma answers_jump (r1 : Rebuild) {l : Nat} (hr : S.Ready ls F) (hc : r1.constructs[d]? = some c)
    (hcarried : carriedType c = none) (hlabel : c.label = some l)
    (ho : o = .branch d ⟨xs, ls, w⟩) (k : List Line) :
    S.Answers r r1 False k F (.running (.run (.jump l) :: k) F w) o :=
  .jump ho id hc (.refl _ _ F) ⟨hr, fun t ht => (by rw [hcarried] at ht; cases ht), l, hlabel,
    fun target hfind => leads_line hr.clear rfl (by simp [Line.perform, hfind])⟩

/-- What has been settled for leaving with a value. -/
lemma Tidy.leavingWith (ht : r.Tidy S.env) (hvs : r.scope.values = v :: below) :
    (r.leavingWith v below).Tidy S.env ∧
      ∀ u ∈ (r.leavingWith v below).scope.values, Hazard.leaving.conflicts u.uses = false :=
  ⟨(ht.uncons hvs).2.settle _, fun _ hu =>
    (not_conflicts_and (.inl rfl) (not_conflicts_of_mem_settle hu)).2⟩

/-- The last operand is taken to leave with it. -/
lemma advances_leaving (ht : r.Tidy S.env) (h : S.Continues r.scope.values g o F w)
    (hgr : S.Granted o) (hvs : r.scope.values = v :: below)
    (hkeeps : S.keeps → ∀ u ∈ (r.leavingWith v below).scope.values, u.expr.loads = false)
    (hT : (r.leavingWith v below).temps.size ≤ S.temps) :
    S.Advances r (r.leavingWith v below) F w o fun F1 w1 => ∃ ls, S.Ready ls F1 ∧
      ∃ f, (S.eval F1 v.expr w1).resume f = some o ∧
        ∀ x w, f x w = some o → ∃ xs, g ⟨x :: xs, ls, w⟩ = some o := by
  obtain ⟨htidy, hconf⟩ := Tidy.leavingWith ht hvs
  refine (advances_pop ht hvs (fun f hf => (not_conflicts_and (.inl rfl) hf).1) hT h).thenNothing
    (.refl _) ?_
  rintro F1 w1 ⟨ls, hr, hv⟩
  exact ⟨ls, hr, _, hv, fun x w hx => resume_of_leaving
    (fun u hu => (htidy.admits_value hu).sound) hconf hkeeps hgr hx⟩

/-- Everything that has effects is evaluated to leave. -/
lemma advances_leaving_plain (ht : r.Tidy S.env) (h : S.Continues r.scope.values g o F w)
    (hgr : S.Granted o)
    (hkeeps : S.keeps → ∀ u ∈ (r.settle .leaving).scope.values, u.expr.loads = false)
    (hT : (r.settle .leaving).temps.size ≤ S.temps) :
    S.Advances r (r.settle .leaving) F w o fun F1 w1 => ∃ ls, S.Ready ls F1 ∧
      ∃ xs, g ⟨xs, ls, w1⟩ = some o := by
  refine (Advances.settle [] (.refl h) ht (by simp) .leaving hT).thenNothing (.refl _) ?_
  rintro F1 w1 ⟨ls, hr, hc⟩
  exact ⟨ls, hr, resume_of_leaving (fun u hu => ((ht.settle .leaving).admits_value hu).sound)
    (fun u hu => not_conflicts_of_mem_settle hu) hkeeps hgr hc⟩

/-- The function is left. -/
lemma simulates_leaves (ht : r.Tidy S.env) (h : S.Continues r.scope.values g o F w)
    (hgr : S.Granted o) (hl : Leaves S.env r es r1) (hT : r1.temps.size ≤ S.temps)
    (hkeeps : S.keeps → ∀ u ∈ r.passedOver S.env r.constructs.length, u.expr.loads = false)
    (hg : ∀ s, g s = some o → o = .leave s ∨ o = .branch r.constructs.length s) :
    S.Simulates r r1 F w o := by
  obtain ⟨_, hgrows, -⟩ := writes_of_leaves hl
  have hg := fun s hs => hgrows.length ▸ hg s hs
  cases hl with
  | @value t v below hres hvs =>
    refine (advances_leaving ht h hgr hvs
      (by simpa [passedOver, takesValue, hres, hvs] using hkeeps)
      hT).followed ((grows_emit _).thenNothing grows_kill) ?_
    rintro F1 w1 ⟨ls, hr, f, hv, hf⟩ k
    simpa [Stmt.flatten] using answers_leave hr (ht.uncons hvs).1.sound.orderly hv hres
      (fun x w hx => (hf x w hx).imp fun xs hs => hg _ hs) k
  | plain hres =>
    refine (advances_leaving_plain ht h hgr (by simpa [passedOver, takesValue, hres] using hkeeps)
      hT).followed ((grows_emit _).thenNothing grows_kill) ?_
    rintro F1 w1 ⟨ls, hr, xs, hs⟩ k
    have hleads : S.Leads (.running (.run (.leave none) :: k) F1 w1) (.returned none w1) :=
      leads_line hr.clear rfl rfl
    simpa [Stmt.flatten] using Answers.leave (hg _ hs) id
      ⟨none, by simp [State.result?, hres], hleads⟩

/-! ## Branches -/

/-- The result temporary of a construct exists, and is one from before or new. -/
lemma resultTemp_lt (ht : r.Tidy S.env) (t : ValueType) (hc : r.constructs[d]? = some c')
    (hc' : c'.temp = c.temp) :
    (r.resultTemp d c t).1 < (r.resultTemp d c t).2.temps.size ∧
      (r.temps.size ≤ (r.resultTemp d c t).1 ∨ (r.resultTemp d c t).1 ∈ r.resultTemps) := by
  cases htemp : c.temp with
  | none =>
    rw [resultTemp_none t htemp]
    exact ⟨by simp, .inl (Nat.le_refl _)⟩
  | some temp =>
    rw [resultTemp_some t htemp]
    have hmem : temp ∈ r.resultTemps :=
      mem_filterMap.mpr ⟨c', mem_of_getElem? hc, hc'.trans htemp⟩
    exact ⟨ht.bounded hmem, .inr hmem⟩

lemma resultTemps_labelOf (r : Rebuild) (d : Nat) (c : Construct) :
    (r.labelOf d c).2.resultTemps = r.resultTemps := by
  cases h : c.label with
  | none =>
    rw [labelOf_none h]
    exact filterMap_modify fun _ _ => rfl
  | some l => rw [labelOf_some h]

/-- The construct that is jumped to has its label. -/
lemma getElem?_jumpTo (hc : r.constructs[d]? = some c') (hc' : c'.label = c.label) :
    (jumpTo d c r).constructs[d]? = some { c' with label := some (r.labelOf d c).1 } := by
  have heq : r.labelOf d c = r.labelOf d c' := by simp only [labelOf, hc']
  change (r.labelOf d c).2.constructs[d]? = _
  rw [heq]
  exact getElem?_labelOf hc

/-- A branch. -/
lemma simulates_branches (ht : r.Tidy S.env) (h : S.Continues r.scope.values g o F w)
    (hgr : S.Granted o) (hb : Branches S.env depth r es r1) (hT : r1.temps.size ≤ S.temps)
    (hkeeps : S.keeps → ∀ u ∈ r.passedOver S.env depth, u.expr.loads = false)
    (hg : ∀ s, g s = some o → o = .branch depth s) : S.Simulates r r1 F w o := by
  cases hb with
  | leave hd hl =>
    subst hd
    exact simulates_leaves ht h hgr hl hT hkeeps fun s hs => .inr (hg s hs)
  | @value c t v below hc hcarried hvs =>
    obtain ⟨htidy, -⟩ := Tidy.leavingWith ht hvs
    have hc0 := getElem?_leavingWith v below hc
    rw [temps_jumpTo] at hT
    obtain ⟨hlt, hapart⟩ := resultTemp_lt htidy t hc0 rfl
    have hgrows := grows_resultTemp t hc0 rfl
    have hc1 := getElem?_resultTemp t hc0 rfl
    refine (advances_leaving ht h hgr hvs
      (by simpa [passedOver, takesValue, hc, hcarried, hvs] using hkeeps)
      (Nat.le_trans hgrows.size_temps hT)).followed ((hgrows.trans (grows_emit _)).trans
        ((grows_labelOf (r := carryTo depth c t v (r.leavingWith v below)) hc1 rfl).trans
          ((grows_emit _).thenNothing grows_kill))) ?_
    rintro F1 w1 ⟨ls, hr, f, hv, hf⟩ k
    simpa [Stmt.flatten] using answers_carry hr (ht.uncons hvs).1.sound.orderly hv _
      (Nat.lt_of_lt_of_le hlt hT) hapart
        (getElem?_jumpTo (c := c) (r := carryTo depth c t v (r.leavingWith v below)) hc1 rfl) rfl
      rfl (fun x w hx => (hf x w hx).imp fun xs hs => hg _ hs) k
  | @plain c hc hcarried =>
    have hc0 : (r.settle .leaving).constructs[depth]? = some c := by rwa [settle_constructs]
    rw [temps_jumpTo] at hT
    refine (advances_leaving_plain ht h hgr
      (by simpa [passedOver, takesValue, hc, hcarried] using hkeeps)
      hT).followed ((grows_labelOf hc0 rfl).trans ((grows_emit _).thenNothing grows_kill)) ?_
    rintro F1 w1 ⟨ls, hr, xs, hs⟩ k
    simpa [Stmt.flatten] using answers_jump _ hr (getElem?_jumpTo hc0 rfl) hcarried rfl (hg _ hs) k

/-- A conditional statement: if its condition holds, it becomes other lines. -/
lemma simulates_conditional (r1 : Rebuild) (taken : List Line) {t : Stmt}
    (hflat : t.flatten = [.run t])
    (hgrows : Grows r r1 []) (hscope : r1.scope = r.scope) (hlive : r1.reach = .live)
    (hr : S.Ready ls F) (ho : cond.expr.Orderly) (hops : (Line.run t).operands = [cond.expr])
    (hcond : (S.eval F cond.expr w).resume (fun x w => (S.meaning F r.scope.values w).resume
      fun xs w => some (if x.isTrue then .branch depth ⟨xs, ls, w⟩ else
        .next ⟨xs, ls, w⟩)) = some o)
    (hperform : ∀ x k w, (Line.run t).perform S.host S.naming F S.whole [x] k w =
      some (.running (if x.isTrue then taken ++ k else k) F w))
    (htaken : ∀ w k, (S.meaning F r.scope.values w).resume
      (fun xs w => some (.branch depth ⟨xs, ls, w⟩)) = some o →
        S.Answers r (r1.emit t) False k F (.running (taken ++ k) F w) o) :
    S.Simulates r (r1.emit t) F w o := by
  refine ⟨[t], hgrows.trans (grows_emit t), fun k => ?_⟩
  rw [Stmt.flattenAll_cons, Stmt.flattenAll_nil, hflat]
  rcases line_cases_single _ hr.clear hops ho hcond with hcrash | ⟨x, w1, hx, hl⟩
  · exact .crash (by simp) (hcrash _)
  have hl := hl (hperform x k w1)
  split at hl <;> rename_i hxt
  · simp only [hxt, if_true] at hx
    exact (htaken w1 k hx).after id hl (by simp)
  · simp only [hxt] at hx
    refine .arrive hlive ⟨ls, hr, ?_⟩ (.refl _ _ F) hl (by simp)
    change (S.meaning F r1.scope.values w1).resume _ = _
    rwa [hscope]

/-- A conditional branch whose condition is evaluated. -/
lemma simulates_branchesIf (ht : r.Tidy S.env) (hlive : r.reach = .live) (hgr : S.Granted o)
    (hr : S.Ready ls F) (hb : BranchesIf S.env depth cond r es r1)
    (hT : r1.temps.size ≤ S.temps) (ho : cond.expr.Orderly)
    (hcond : (S.eval F cond.expr w).resume (fun x w => (S.meaning F r.scope.values w).resume
      fun xs w => some (if x.isTrue then .branch depth ⟨xs, ls, w⟩ else
        .next ⟨xs, ls, w⟩)) = some o)
    (hc : ∀ v ∈ r.scope.values, Hazard.leaving.conflicts v.uses = false)
    (hkeeps : S.keeps → ∀ u ∈ (if r.takesValue S.env depth then r.scope.values.tail else
      r.scope.values), u.expr.loads = false) : S.Simulates r r1 F w o := by
  have hsound := fun v hv => (ht.admits_value (v := v) hv).sound
  -- what is taken along is evaluated behind what is left
  have hlast : ∀ {v : Pending} {below : List Pending} {w : World μ σ},
      r.scope.values = v :: below → r.takesValue S.env depth = true →
      (S.meaning F r.scope.values w).resume
        (fun xs w => some (.branch depth ⟨xs, ls, w⟩)) = some o →
      ∃ xs, (S.eval F v.expr w).resume
        (fun x w => some (.branch depth ⟨x :: xs, ls, w⟩)) = some o := by
    intro v below w hvs htakes h
    rw [hvs, meaning_cons, resume_andThen] at h
    rw [hvs, forall_mem_cons] at hsound hc
    rw [if_pos htakes, hvs] at hkeeps
    obtain ⟨xs, hxs⟩ := resume_of_leaving hsound.2 hc.2 hkeeps hgr h
    exact ⟨xs, by simpa using hxs⟩
  have hall : ∀ {w : World μ σ}, r.takesValue S.env depth = false →
      (S.meaning F r.scope.values w).resume
        (fun xs w => some (.branch depth ⟨xs, ls, w⟩)) = some o →
      ∃ xs, o = .branch depth ⟨xs, ls, w⟩ := by
    intro w htakes h
    rw [htakes] at hkeeps
    obtain ⟨xs, hxs⟩ := resume_of_leaving hsound hc hkeeps hgr h
    exact ⟨xs, (Option.some.inj hxs).symm⟩
  cases hb with
  | @leaveWith t v below hdepth hres hvs =>
    refine simulates_conditional r [.run (.leave (some v.expr))] rfl
      (.refl r) rfl hlive hr ho rfl hcond
      (fun _ _ _ => rfl) fun w k h => ?_
    obtain ⟨xs, hv⟩ := hlast hvs (by simp [takesValue, hdepth, hres]) h
    exact answers_leave hr (hsound v (by simp [hvs])).orderly hv hres
      (fun x w hx => ⟨xs, .inr (by rw [← Option.some.inj hx, hdepth]; rfl)⟩) k
  | leave hdepth hres =>
    refine simulates_conditional r [.run (.leave none)] rfl (.refl r) rfl hlive hr ho rfl hcond
      (fun _ _ _ => rfl) fun w k h => ?_
    obtain ⟨xs, rfl⟩ := hall (by simp [takesValue, hdepth, hres]) h
    exact .leave (.inr (by rw [hdepth]; rfl)) id
      ⟨none, by simp [State.result?, hres], leads_line hr.clear rfl rfl⟩
  | @value b t v below hb hcarried hvs =>
    have hb1 := getElem?_labelOf hb
    have hb2 := getElem?_resultTemp (c := b) t hb1 rfl
    obtain ⟨hlt, hapart⟩ := resultTemp_lt (ht.labelOf hb) (c := b) t hb1 rfl
    rw [temps_labelOf, resultTemps_labelOf] at hapart
    refine simulates_conditional ((r.labelOf depth b).2.resultTemp depth b t).2
      [.run (.assign (.temp _) v.expr), .run (.jump (r.labelOf depth b).1)] rfl
      ((grows_labelOf hb rfl).trans (grows_resultTemp t hb1 rfl))
      ((scope_resultTemp _ _ _ _).trans (scope_labelOf _ _ _))
      ((reach_resultTemp _ _ _).trans ((reach_labelOf _ _).trans hlive)) hr ho rfl hcond
      (fun _ _ _ => rfl) fun w k h => ?_
    obtain ⟨xs, hv⟩ := hlast hvs (by simp [takesValue, hb, hcarried]) h
    exact answers_carry hr (hsound v (by simp [hvs])).orderly hv (jumpIfWith depth b t cond v r)
      (Nat.lt_of_lt_of_le hlt hT) hapart hb2 rfl rfl
      (fun x w hx => ⟨xs, (Option.some.inj hx).symm⟩) k
  | @plain b hb hcarried =>
    refine simulates_conditional (r.labelOf depth b).2 [.run (.jump (r.labelOf depth b).1)] rfl
      (grows_labelOf hb rfl)
      (scope_labelOf _ _ _) ((reach_labelOf _ _).trans hlive) hr ho rfl hcond (fun _ _ _ => rfl)
      fun w k h => ?_
    obtain ⟨xs, hv⟩ := hall (by simp [takesValue, hb, hcarried]) h
    exact answers_jump (jumpIf depth b cond r) hr (getElem?_labelOf hb) hcarried rfl hv k

section Thrown

variable (hkeeps : S.keeps → ∀ u ∈ r.abandoned S.env i, u.expr.loads = false)
include ht h hgr hkeeps

/-- A conditional branch. -/
lemma simulates_brIf (hlive : r.reach = .live) (hop : i.op = .brIf)
    (himm : i.imm.depth? = some depth) (hvs : r.scope.values = cond :: below)
    (hb : BranchesIf S.env depth cond (r.leavingWith cond below) es r1)
    (hT : r1.temps.size ≤ S.temps) : S.Simulates r r1 F w o := by
  obtain ⟨_, hg, -⟩ := writes_of_branchesIf hb
  obtain ⟨htidy, hconf⟩ := Tidy.leavingWith ht hvs
  refine (advances_pop ht hvs (fun f hf => (not_conflicts_and (.inl rfl) hf).1)
    (Nat.le_trans hg.size_temps hT) h).simulated (writes_of_branchesIf hb) ?_
  rintro F1 w1 ⟨ls, hr, hv⟩
  simp only [perform, hop, himm, State.pop, bind_eq_bind, bind_some, Option.pure_def] at hv
  refine simulates_branchesIf (r := r.leavingWith cond below) htidy
    ((settle_reach _).trans hlive) hgr hr hb hT
    (ht.uncons hvs).1.sound.orderly hv hconf ?_
  have htakes : (r.leavingWith cond below).takesValue S.env depth =
      r.takesValue S.env depth := by rw [takesValue, takesValue, leavingWith_constructs]
  simpa only [abandoned, hop, himm, hvs, htakes, elim_some] using hkeeps

/-- A branch table without targets. -/
lemma simulates_brTable {index : Pending} (hop : i.op = .brTable) (himm : i.imm = .table [] depth)
    (hvs : r.scope.values = index :: below)
    (hb : Branches S.env depth ((r.withValues below).discard index) es r1)
    (hT : r1.temps.size ≤ S.temps) : S.Simulates r r1 F w o := by
  obtain ⟨_, hg, -⟩ := writes_of_branches hb
  simp only [abandoned, hop, himm, hvs, mem_append, or_imp, forall_and] at hkeeps
  refine (advances_discard (fun s => some (.branch depth s)) ht h hgr hvs
    (fun hk heff => hkeeps.1 hk index (by simp [heff])) (Nat.le_trans hg.size_temps hT)
    fun x xs ls w => by simp [perform, hop, himm, State.pop]).simulated (writes_of_branches hb) ?_
  intro F1 w1 hc
  exact simulates_branches ((ht.uncons hvs).2.discard index) hc hgr hb hT
    hkeeps.2 fun s hs => (Option.some.inj hs).symm

/-- An operand is dropped. -/
lemma simulates_drop (hlive : r.reach = .live) (hop : i.op = .drop)
    (hvs : r.scope.values = v :: below)
    (hT : ((r.withValues below).discard v).temps.size ≤ S.temps) :
    S.Simulates r ((r.withValues below).discard v) F w o :=
  (advances_discard _ ht h hgr hvs
    (fun hk heff => hkeeps hk v (by simp [abandoned, hop, hvs, heff])) hT
    fun x xs ls w => by simp [perform, hop, State.pop]).simulates ((reach_discard _).trans hlive)

/-- A trap. -/
lemma simulates_unreachable (hop : i.op = .unreachable)
    (hT : (r.settle .leaving).temps.size ≤ S.temps) :
    S.Simulates r ((r.settle .leaving).emit (.trap .unreachable)).kill F w o := by
  refine (advances_leaving_plain ht h hgr (by simpa [abandoned, hop] using hkeeps) hT).followed
    ((grows_emit _).thenNothing grows_kill) ?_
  rintro F1 w1 ⟨ls, hr, xs, hs⟩
  simp only [perform, hop] at hs
  cases hs
  cases hgr

omit ht in
/-- An indirect call traps for a reason of its own. -/
lemma not_granted_callIndirect {typeIndex : Nat} {reserved : Bool}
    (hop : i.op = .callIndirect) (himm : i.imm = .callIndirect typeIndex reserved) : False := by
  obtain ⟨ls, -, hc⟩ := h
  rcases resume_cases hc with ⟨stack, w1, -, hp⟩ | ⟨w1, hm, rfl⟩
  · simp only [perform, hop, himm, bind_eq_bind, Option.pure_def, bind_eq_some_iff,
      Option.some.injEq] at hp
    obtain ⟨t, -, ⟨slot, s1⟩, -, ⟨args, s2⟩, -, rfl⟩ := hp
    simp only [World.callIndirect, S.indirect, map_none, State.resume] at hgr
    cases hgr
  · -- nothing that is pending loads
    refine Expr.Evaluated.andThen_ne_error (Expr.evalAll_ne_error (fun e he w' => ?_) w)
      (by simp) hm
    obtain ⟨u, hu, rfl⟩ := List.mem_map.mp he
    exact Expr.eval_ne_fault (hkeeps hgr u (by simpa [abandoned, hop] using hu)) w' w1

end Thrown

/-- **Every instruction that is not part of a construct is followed.** -/
theorem simulates_of_acts (ht : r.Tidy S.env) (hlive : r.reach = .live) (ha : Acts S.env i r es r1)
    (hT : r1.temps.size ≤ S.temps)
    (hkeeps : S.keeps → ∀ u ∈ r.abandoned S.env i, u.expr.loads = false)
    (h : S.Continues r.scope.values (perform S.host S.env.inModule i) o F w)
    (hgr : S.Granted o) : S.Simulates r r1 F w o := by
  cases ha with
  | nop hop =>
    refine (Advances.refl ?_).simulates hlive
    obtain ⟨ls, hr, hc⟩ := h
    exact ⟨ls, hr, by simpa [perform, hop] using hc⟩
  | unreachable hop => exact simulates_unreachable ht h hgr hkeeps hop hT
  | br hop himm hb =>
    exact simulates_branches ht h hgr hb hT (by simpa [abandoned, hop, himm] using hkeeps)
      fun s hs => by simpa [perform, hop, himm, eq_comm] using hs
  | brIf hop himm hvs hb => exact simulates_brIf ht h hgr hkeeps hlive hop himm hvs hb hT
  | brTable hop himm hvs hb => exact simulates_brTable ht h hgr hkeeps hop himm hvs hb hT
  | returnOp hop hl =>
    exact simulates_leaves ht h hgr hl hT (by simpa [abandoned, hop] using hkeeps)
      fun s hs => .inl (by simpa [perform, hop, eq_comm] using hs)
  | call hop himm htype hres hvs hcount =>
    exact simulates_call ht hlive h hgr hop himm htype hvs hcount hres hT
  | callPlain hop himm htype hres hvs hcount henough =>
    exact simulates_callPlain ht hlive h hgr hop himm htype hvs hcount hres henough hT
  | callIndirect hop himm | callIndirectPlain hop himm =>
    exact (not_granted_callIndirect h hgr hkeeps hop himm).elim
  | drop hop hvs => exact simulates_drop ht h hgr hkeeps hlive hop hvs hT
  | select hop hvs => exact simulates_select ht hlive h hop hvs hT
  | getLocal hop himm => exact simulates_getLocal hlive h hop himm
  | setLocal hop himm htype hvs =>
    exact simulates_setLocal ht hlive h htype hvs rfl hT hop himm
  | teeLocal hop himm htype hvs =>
    exact simulates_teeLocal ht hlive h htype hvs rfl hT hop himm
  | getGlobal hop himm htype => exact simulates_getGlobal hlive h hop himm htype
  | setGlobal hop himm htype hvs => exact simulates_setGlobal ht hlive h hop himm htype hvs hT
  | currentMemory hop =>
    exact simulates_push hlive h rfl rfl fun _ _ _ hp => by rwa [perform, hop] at hp
  | growMemory hop hvs => exact simulates_growMemory hlive h hgr hop hvs
  | const hop himm =>
    exact simulates_push hlive h rfl rfl fun _ _ _ hp => by rwa [perform, hop, himm] at hp
  | load hop himm hvs => exact simulates_load hlive h hop himm hvs
  | store hop himm hvs henough => exact simulates_store ht hlive h hop himm hvs henough hT
  | numeric hop hvs hcount => exact simulates_numeric ht hlive h hop hvs hcount hT

end Setting

end WasmToC

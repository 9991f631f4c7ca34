import WasmToC.Proofs.Growth
import WasmToC.Proofs.Names
import WasmToC.Proofs.WasmRun

/-!
# Running what has been emitted

While a body is reconstructed, the operands of the WebAssembly stack are pending expressions, and so
is what their evaluation does to the world. Here the two sides are tied together: the pending
expressions, evaluated one after the other, give the values on the stack and the world that goes
with them, or come to the load at which WebAssembly code has trapped. Spilling evaluates some of
them early and keeps that relation, because whatever stays pending commutes with what is evaluated.

## Main definitions

* `Setting` — a function body that runs.
* `Setting.meaning` — what pending expressions stand for.
* `Setting.Crashes` — the C function ends at an access that is out of bounds, as WebAssembly does.
* `Setting.Performs` — the effect of straight-line code.
* `Setting.Continues`, `Setting.Tracks` — a C function follows a WebAssembly function.

## Main results

* `Setting.meaning_exchange` — an expression that commutes with what is pending below it
  can be evaluated first.
* `Setting.Advances.spill` — spilling keeps what pending expressions stand for.
-/

namespace WasmToC

open List
open C (Expr Stmt Frame Line Config tempName localName)
open C.Expr (Evaluated)
open Wasm (Outcome State)

/-! ## Evaluations and outcomes -/

section Resume

variable {μ σ α β : Type} {f g : α → World μ σ → Option (Outcome μ σ)} {o : Outcome μ σ}

/-- The outcome of WebAssembly code that goes on with what an evaluation comes to. A load that is
out of bounds is a trap. -/
def C.Expr.Evaluated.resume (x : Evaluated μ σ α) (f : α → World μ σ → Option (Outcome μ σ)) :
    Option (Outcome μ σ) :=
  match x with
  | .ok (a, w) => f a w
  | .error (some w) => some (.trap .load w)
  | .error none => none

@[simp] lemma resume_ok (a : α) (w : World μ σ) : Evaluated.resume (.ok (a, w)) f = f a w := rfl

@[simp] lemma resume_fault (w : World μ σ) :
    Evaluated.resume (.error (some w)) f = some (.trap .load w) := rfl

@[simp] lemma resume_andThen (x : Evaluated μ σ α) (h : α → World μ σ → Evaluated μ σ β)
    (f : β → World μ σ → Option (Outcome μ σ)) :
    (x.andThen h).resume f = x.resume fun a w => (h a w).resume f := by
  rcases x with (_ | _) | _ <;> rfl

/-- Code goes on with a value, or there is none because of a load. -/
lemma resume_cases {x : Evaluated μ σ α} (h : x.resume f = some o) :
    (∃ a w, x = .ok (a, w) ∧ f a w = some o) ∨ ∃ w, x = .error (some w) ∧ o = .trap .load w := by
  rcases x with (_ | w) | ⟨a, w⟩
  · cases h
  · exact .inr ⟨w, rfl, (Option.some.inj h).symm⟩
  · exact .inl ⟨a, w, rfl, h⟩

lemma resume_mono {x : Evaluated μ σ α} (h : x.resume f = some o)
    (hfg : ∀ a w, f a w = some o → g a w = some o) : x.resume g = some o := by
  rcases resume_cases h with ⟨a, w, rfl, hf⟩ | ⟨w, rfl, rfl⟩
  · exact hfg a w hf
  · rfl

lemma ne_error_of_resume {x : Evaluated μ σ α} (h : x.resume f = some o) : x ≠ .error none := by
  rintro rfl
  cases h

/-- What happens first and what happens next. -/
lemma resume_split {x : Evaluated μ σ α} {next : State μ σ → Option (Outcome μ σ)}
    (h : x.resume (fun a w => (f a w).bind fun o => o.andThen next) = some o) :
    ∃ o1, x.resume f = some o1 ∧ o1.andThen next = some o := by
  rcases resume_cases h with ⟨a, w, rfl, ha⟩ | ⟨w, rfl, rfl⟩
  · exact Option.bind_eq_some_iff.mp ha
  · exact ⟨_, rfl, rfl⟩

end Resume

/-- A function body that runs, with what it needs to run as it should. -/
structure Setting (μ σ : Type) where
  /-- Numeric instructions, memory accesses and callees. -/
  host : Host μ σ
  /-- The names in use. -/
  naming : C.Naming
  /-- What the WebAssembly body stands in. -/
  env : Surroundings
  /-- The number of temporaries declared. -/
  temps : Nat
  /-- The lines of the C body. -/
  whole : List Line
  /-- No label is defined twice. -/
  labels : (C.labelsOf whole).Nodup
  /-- The names of functions are their own. -/
  function : ∀ f t, env.inModule.functionType? f = some t →
    naming.symbols.functions.idxOf? (naming.symbols.function f) = some f
  /-- The names of globals are their own. -/
  global : ∀ i t, env.inModule.globalType? i = some t →
    naming.symbols.globals.idxOf? (naming.symbols.global i) = some i
  /-- Whether what loads from memory is evaluated before it is thrown away. -/
  keeps : Prop
  /-- Indirect calls trap. -/
  indirect : ∀ typeIndex slot args shared, host.callIndirect typeIndex slot args shared = none

namespace Setting

variable {μ σ : Type} (S : Setting μ σ) {bound t : Nat} {apart : List Nat} {F1 F2 : Frame}
  {w1 : World μ σ} {line : Line} {k : List Line} {c : Config μ σ} {e : Expr} {o : Outcome μ σ}

/-- The value of an expression, its operands evaluated from left to right. -/
abbrev eval (F : Frame) (e : Expr) (w : World μ σ) : Evaluated μ σ Value :=
  e.eval S.host S.naming F w

/-- Every run from one configuration passes through another. -/
def Leads (c c' : Config μ σ) : Prop :=
  ∀ goal, Eventually (C.Step S.host S.naming S.whole) goal c' →
    Eventually (C.Step S.host S.naming S.whole) goal c

/-- Every run ends at an access that is out of bounds, in the world in which WebAssembly code has
trapped. -/
def Crashes (o : Outcome μ σ) (c : Config μ σ) : Prop :=
  ∃ cause w, o = .trap cause w ∧
    Eventually (C.Step S.host S.naming S.whole) (C.Faulted S.host S.naming S.whole w) c

/-- Outcomes that the C function has too. It does not follow a trap for other reasons, and a trap
at a load only if what loads is kept. -/
def Granted : Outcome μ σ → Prop
  | .trap .other _ => False
  | .trap .load _ => S.keeps
  | _ => True

variable {S}

lemma Leads.refl (c : Config μ σ) : S.Leads c c := fun _ h => h

lemma Leads.trans {c1 c2 c3 : Config μ σ} (h1 : S.Leads c1 c2) (h2 : S.Leads c2 c3) :
    S.Leads c1 c3 :=
  fun goal h => h1 goal (h2 goal h)

lemma Crashes.after {c1 c2 : Config μ σ} (h : S.Crashes o c2) (hl : S.Leads c1 c2) :
    S.Crashes o c1 := by
  obtain ⟨cause, w, ho, h⟩ := h
  exact ⟨cause, w, ho, hl _ h⟩

/-! ## Frames -/

variable (S) in
/-- A frame with the variables of the function, whose locals have given values. -/
structure Ready (ls : List Value) (F : Frame) : Prop where
  /-- No variable hides a symbol. -/
  clear : S.naming.Clear F
  /-- There are as many locals as the function has. -/
  length : ls.length = S.env.locals.length
  /-- Parameters and locals are there, with their values. -/
  locals : ∀ i, F (localName S.naming.params i) = ls[i]?
  /-- Temporaries are there. -/
  temps : ∀ t < S.temps, (F (tempName t)).isSome = true

variable {ls : List Value} {F F' : Frame} {w w' : World μ σ}

/-- A variable may be assigned. -/
lemma clear_set {n : C.Naming} (h : n.Clear F) {x : String} (hx : (F x).isSome = true) (v : Value) :
    n.Clear (F.set x v) := by
  have hne : ∀ y, F y = none → (F.set x v) y = none := by
    intro y hy
    have hyx : y ≠ x := by
      rintro rfl
      simp [hy] at hx
    simp [Frame.set, hyx, hy]
  exact ⟨h.local_not_mem, h.temp_not_mem, fun i => hne _ (h.global_eq_none i),
    fun i => hne _ (h.function_eq_none i)⟩

@[simp] lemma set_self (F : Frame) (x : String) (v : Value) : F.set x v x = some v := by
  simp [Frame.set]

lemma set_of_ne (F : Frame) {x y : String} (h : y ≠ x) (v : Value) : F.set x v y = F y := by
  simp [Frame.set, h]

/-- Assigning a temporary leaves the frame as it should be. -/
lemma Ready.setTemp (h : S.Ready ls F) (ht : t < S.temps) (v : Value) :
    S.Ready ls (F.set (tempName t) v) where
  clear := clear_set h.clear (h.temps t ht) v
  length := h.length
  locals i := by
    rw [set_of_ne _ (C.localName_ne_tempName _ _ _)]
    exact h.locals i
  temps u hu := by
    by_cases hut : tempName u = tempName t
    · simp [hut]
    · rw [set_of_ne _ hut]
      exact h.temps u hu

/-- Assigning a local leaves the frame as it should be. -/
lemma Ready.setLocal (h : S.Ready ls F) {i : Nat} (hi : i < ls.length) (v : Value) :
    S.Ready (ls.set i v) (F.set (localName S.naming.params i) v) where
  clear := clear_set h.clear (by rw [h.locals, getElem?_eq_getElem hi]; rfl) v
  length := by rw [length_set, h.length]
  locals j := by
    by_cases hij : j = i
    · rw [hij, set_self, getElem?_set_self hi]
    · rw [set_of_ne _ fun hname => hij (C.localName_inj hname), h.locals,
        getElem?_set_ne (Ne.symm hij)]
  temps t ht := by
    rw [set_of_ne _ (Ne.symm (C.localName_ne_tempName _ _ _))]
    exact h.temps t ht

/-- Temporaries below a bound, apart from some, keep their values. -/
def Kept (bound : Nat) (apart : List Nat) (F F' : Frame) : Prop :=
  ∀ t < bound, t ∉ apart → F' (tempName t) = F (tempName t)

lemma Kept.refl (bound : Nat) (apart : List Nat) (F : Frame) : Kept bound apart F F :=
  fun _ _ _ => rfl

lemma Kept.trans {F3 : Frame} (h1 : Kept bound apart F1 F2) (h2 : Kept bound apart F2 F3) :
    Kept bound apart F1 F3 :=
  fun t ht hn => (h2 t ht hn).trans (h1 t ht hn)

lemma Kept.mono {bound' : Nat} {apart' : List Nat} (h : Kept bound' apart' F F')
    (hle : bound ≤ bound') (hsub : ∀ t < bound, t ∈ apart' → t ∈ apart) : Kept bound apart F F' :=
  fun t ht hn => h t (by omega) fun hm => hn (hsub t ht hm)

/-- A temporary that is not among them is assigned. -/
lemma kept_set (ht : bound ≤ t ∨ t ∈ apart) (v : Value) :
    Kept bound apart F (F.set (tempName t) v) := by
  intro u hu hn
  refine set_of_ne _ (fun hname => ?_) v
  have := C.tempName_inj hname
  subst this
  rcases ht with ht | ht
  · omega
  · exact hn ht

/-! ## Pending expressions -/

variable (S) in
/-- What pending expressions, the last one first, stand for: their values, when they are evaluated
one after the other. -/
def meaning (F : Frame) (values : List Pending) (w : World μ σ) : Evaluated μ σ (List Value) :=
  (Expr.evalAll S.host S.naming F (values.reverse.map Pending.expr) w).andThen
    fun xs w => .ok (xs.reverse, w)

variable {values below : List Pending} {v : Pending} {xs : List Value} {x : Value}
  {r r1 r2 : Rebuild}

/-- Some expressions on top of others. -/
lemma meaning_append (above below : List Pending) (w : World μ σ) :
    S.meaning F (above ++ below) w = (S.meaning F below w).andThen fun ys w =>
      (S.meaning F above w).andThen fun xs w => .ok (xs ++ ys, w) := by
  simp [meaning, Expr.evalAll_append]

/-- Operands, the oldest one first. -/
lemma meaning_reverse (args : List Pending) (w : World μ σ) :
    S.meaning F args.reverse w = (Expr.evalAll S.host S.naming F (args.map Pending.expr) w).andThen
      fun xs w => .ok (xs.reverse, w) := by
  rw [meaning, reverse_reverse]

lemma meaning_cons (v : Pending) (below : List Pending) (w : World μ σ) :
    S.meaning F (v :: below) w = (S.meaning F below w).andThen fun xs w =>
      (S.eval F v.expr w).andThen fun x w => .ok (x :: xs, w) := by
  simp [meaning, Expr.evalAll_append, Expr.evalAll]

lemma meaning_single (v : Pending) (w : World μ σ) :
    S.meaning F [v] w = (S.eval F v.expr w).andThen fun x w => .ok ([x], w) :=
  meaning_cons v [] w

lemma length_meaning (h : S.meaning F values w = .ok (xs, w')) : xs.length = values.length := by
  obtain ⟨vs, w1, hvs, h⟩ := Expr.Evaluated.andThen_eq_ok.mp h
  cases h
  simpa using Expr.length_evalAll hvs

/-- What matters to the expressions is the same in two frames. -/
lemma meaning_congr (hF : S.naming.Clear F) (hF' : S.naming.Clear F')
    (hagree : ∀ v ∈ values, Expr.Agree S.naming F F' v.expr) (w : World μ σ) :
    S.meaning F values w = S.meaning F' values w := by
  induction values generalizing w with
  | nil => rfl
  | cons v below ih =>
    obtain ⟨hv, hb⟩ := forall_mem_cons.mp hagree
    simp only [meaning_cons, ih hb, eval, Expr.eval_congr hF hF' hv]

/-- Expressions without effects leave the world alone. -/
lemma meaning_stays (heff : ∀ v ∈ values, v.expr.effects = false) (w : World μ σ) :
    Expr.Stays w (S.meaning F values w) :=
  (Expr.evalAll_stays (by simpa using heff) w).andThen fun _ => .ok _

/-- Expressions that do not depend on the world have the same values in every world. -/
lemma meaning_fixed (hF : S.naming.Clear F) (hdep : ∀ v ∈ values, v.expr.depends = false) :
    Expr.Fixed (S.meaning F values) :=
  (Expr.evalAll_fixed hF (by simpa using hdep)).andThen fun _ => .ok _ fun _ => rfl

/-- What reads variables that are there does not fail. -/
lemma eval_ne_fails {ls : List Value} (hv : r.Admits S.env v) (hr : S.Ready ls F)
    (hT : r.temps.size ≤ S.temps) (heff : v.expr.effects = false) (w : World μ σ) :
    S.eval F v.expr w ≠ .error none := by
  refine Expr.eval_ne_error (fun p hp vs w => ?_) w
  have hscope := hv.typed.inScope p hp
  have hread : ∀ {x : Option Value}, x.isSome = true →
      Expr.answer none (x.map (·, w)) ≠ .error (none : Option (World μ σ)) := by
    rintro (_ | y) hx h
    · cases hx
    · cases h
  cases p with
  | memoryGrow | call => simpa [Expr.isEffect] using any_eq_false.mp heff _ hp
  | var i =>
    refine hread ?_
    rw [C.Naming.read_of_not_mem (hr.clear.local_not_mem i), hr.locals, getElem?_eq_getElem
      (hr.length ▸ hscope)]
    rfl
  | temp i =>
    refine hread ?_
    rw [C.Naming.read_of_not_mem (hr.clear.temp_not_mem i)]
    exact hr.temps i (Nat.lt_of_lt_of_le (by simpa [Expr.InScope] using hscope) hT)
  | global i =>
    obtain ⟨t, ht⟩ := Option.isSome_iff_exists.mp hscope
    refine hread ?_
    rw [C.Naming.read_of_eq_none (hr.clear.global_eq_none i), S.global i t ht]
    rfl
  | load op a off =>
    rcases vs with _ | ⟨x, _ | _⟩
    · simp [Expr.apply]
    · cases h : w.load S.host op x off <;> simp [Expr.apply, h, Expr.answer]
    · simp [Expr.apply]
  | _ => simp [Expr.apply]

/-- **Exchange**: an expression that commutes with everything below it can be evaluated before the
expressions below.

**Proof sketch.** If the world does not matter to the expression, it has the same value everywhere.
If it does, nothing below has effects, so that the world is the same before and behind it. -/
theorem meaning_exchange (hF : S.naming.Clear F) (hcomm : ∀ u ∈ below, v.expr.Compatible u.expr)
    (hread : v.expr.effects = false → S.eval F v.expr w ≠ .error none)
    (hne : S.meaning F (v :: below) w ≠ .error none) :
    S.meaning F (v :: below) w = (S.eval F v.expr w).andThen fun x w =>
      (S.meaning F below w).andThen fun xs w => .ok (x :: xs, w) := by
  rw [meaning_cons] at hne ⊢
  cases hdep : v.expr.depends with
  | false =>
    cases Expr.eval_fixed (H := S.host) hF hdep with
    | ok x hx => simp [hx]
    | fails hx => exact absurd (hx w) (hread (Expr.not_effects_of_not_depends hdep))
  | true =>
    have heff : ∀ u ∈ below, u.expr.effects = false := by
      intro u hu
      by_contra hue
      rw [(hcomm u hu).2 (by simpa using hue)] at hdep
      cases hdep
    cases hve : v.expr.effects with
    | true =>
      cases meaning_fixed hF fun u hu => (hcomm u hu).1 hve with
      | ok xs hxs => simp [hxs]
      | fails hxs => simp [hxs] at hne
    | false =>
      have hb := meaning_stays (S := S) (F := F) heff w
      have hv := Expr.eval_stays (H := S.host) (n := S.naming) (F := F) hve w
      generalize hz : v.expr.eval S.host S.naming F w = z at hv
      generalize hy : S.meaning F below w = y at hb
      cases hb with
      | ok xs => cases hv <;> simp [hy, hz]
      | faults =>
        cases hv with
        | ok | faults => simp [hy, hz]
        | fails => exact absurd hz (hread hve)
      | fails => simp [hy] at hne

/-! ## Lines -/

variable {f : List Value → World μ σ → Option (Outcome μ σ)}

lemma crashes_of_exec (hF : S.naming.Clear F) (ho : Expr.AllOrderly line.operands)
    (h : line.exec S.host S.naming F S.whole k w = .error (some w')) (cause : Wasm.Trap) :
    S.Crashes (.trap cause w') (.running (line :: k) F w) := by
  refine ⟨cause, w', rfl, C.Line.eventually hF ho (by simp [h]) ?_ ?_⟩
  · intro c hc
    rw [h] at hc
    cases hc
  · intro u hu c hc
    rw [h] at hu
    cases hu
    exact hc

lemma leads_of_exec (hF : S.naming.Clear F) (ho : Expr.AllOrderly line.operands)
    (h : line.exec S.host S.naming F S.whole k w = .ok c) :
    S.Leads (.running (line :: k) F w) c := by
  intro goal hgoal
  refine C.Line.eventually hF ho (by simp [h]) ?_ ?_
  · intro c' hc'
    rw [h] at hc'
    cases hc'
    exact hgoal
  · intro u hu
    rw [h] at hu
    cases hu

/-- **A line** is performed once its operands are evaluated, unless a load is out of bounds. -/
theorem line_cases (hF : S.naming.Clear F) (ho : Expr.AllOrderly line.operands)
    (h : (Expr.evalAll S.host S.naming F line.operands w).resume f = some o) :
    (∀ k, S.Crashes o (.running (line :: k) F w)) ∨
      ∃ vs w1, Expr.evalAll S.host S.naming F line.operands w = .ok (vs, w1) ∧ f vs w1 = some o ∧
        ∀ {k c}, line.perform S.host S.naming F S.whole vs k w1 = some c →
          S.Leads (.running (line :: k) F w) c := by
  rcases resume_cases h with ⟨vs, w1, hv, hf⟩ | ⟨w1, hv, rfl⟩
  · exact .inr ⟨vs, w1, hv, hf, fun hc => leads_of_exec hF ho (by simp [Line.exec, hv, hc])⟩
  · exact .inl fun k => crashes_of_exec hF ho (by simp [Line.exec, hv]) .load

/-- A line with one operand. -/
lemma line_cases_single (line : Line) {f : Value → World μ σ → Option (Outcome μ σ)}
    (hF : S.naming.Clear F)
    (hops : line.operands = [e]) (ho : e.Orderly) (h : (S.eval F e w).resume f = some o) :
    (∀ k, S.Crashes o (.running (line :: k) F w)) ∨ ∃ x w1, f x w1 = some o ∧
      ∀ {k c}, line.perform S.host S.naming F S.whole [x] k w1 = some c →
        S.Leads (.running (line :: k) F w) c := by
  have hall : Expr.AllOrderly line.operands := by
    rw [hops]
    exact ⟨ho, by simp, trivial⟩
  have heq : (Expr.evalAll S.host S.naming F line.operands w).resume
      (fun vs w => f (vs.headD (.i32 0)) w) = some o := by
    simpa [hops, Expr.evalAll] using h
  rcases line_cases hF hall heq with hcrash | ⟨vs, w1, hv, hf, hl⟩
  · exact .inl hcrash
  · have hlen := Expr.length_evalAll hv
    rw [hops] at hlen
    obtain ⟨x, rfl⟩ := length_eq_one_iff.mp hlen
    exact .inr ⟨x, w1, hf, hl⟩

/-- A line without operands. -/
lemma leads_line (hF : S.naming.Clear F) (hops : line.operands = [])
    (hp : line.perform S.host S.naming F S.whole [] k w = some c) :
    S.Leads (.running (line :: k) F w) c :=
  leads_of_exec hF (by rw [hops]; trivial) (by simp [Line.exec, hops, Expr.evalAll, hp])

/-! ## Straight-line code -/

variable (S) in
/-- The effect of code that is run from its first statement to its last. -/
def Runs (ss : List Stmt) (F : Frame) (w : World μ σ) (F' : Frame) (w' : World μ σ) : Prop :=
  (∀ k, S.Leads (.running (Stmt.flattenAll ss ++ k) F w) (.running k F' w')) ∧
    (ss = [] → F' = F ∧ w' = w)

variable (S) in
/-- The effect of code that is run from its first statement to its last, where WebAssembly code has
a given outcome: it ends in a frame and a world with a given property, or at an access that is out
of bounds. -/
def Performs (ss : List Stmt) (F : Frame) (w : World μ σ) (o : Outcome μ σ)
    (P : Frame → World μ σ → Prop) : Prop :=
  ss ≠ [] ∧ (∀ k, S.Crashes o (.running (Stmt.flattenAll ss ++ k) F w)) ∨
    ∃ F' w', P F' w' ∧ S.Runs ss F w F' w'

variable {P Q : Frame → World μ σ → Prop} {ss ts : List Stmt}

lemma Performs.nil (h : P F w) : S.Performs [] F w o P := by
  refine .inr ⟨F, w, h, fun k => ?_, fun _ => ⟨rfl, rfl⟩⟩
  rw [Stmt.flattenAll_nil, nil_append]
  exact .refl _

/-- One piece of code after the other. -/
lemma Performs.append (h : S.Performs ss F w o P)
    (h' : ∀ F1 w1, P F1 w1 → S.Performs ts F1 w1 o Q) : S.Performs (ss ++ ts) F w o Q := by
  simp only [Performs, Stmt.flattenAll_append, append_assoc]
  rcases h with ⟨hne, hcrash⟩ | ⟨F1, w1, hP, hruns, hnil⟩
  · exact .inl ⟨by simp [hne], fun k => hcrash _⟩
  rcases h' F1 w1 hP with ⟨hne, hcrash⟩ | ⟨F2, w2, hQ, hruns', hnil'⟩
  · exact .inl ⟨by simp [hne], fun k => (hcrash k).after (hruns _)⟩
  · refine .inr ⟨F2, w2, hQ, fun k => ?_, fun hts => ?_⟩
    · rw [Stmt.flattenAll_append, append_assoc]
      exact (hruns _).trans (hruns' k)
    · obtain ⟨hss, hts⟩ := append_eq_nil_iff.mp hts
      obtain ⟨rfl, rfl⟩ := hnil hss
      exact hnil' hts

lemma Performs.mono (h : S.Performs ss F w o P) (hPQ : ∀ F' w', P F' w' → Q F' w') :
    S.Performs ss F w o Q :=
  h.imp_right fun ⟨F', w', hP, hruns⟩ => ⟨F', w', hPQ F' w' hP, hruns⟩

/-- A statement of one line. -/
lemma performs_line {s : Stmt} (hs : s.flatten = [.run s])
    (h : (∀ k, S.Crashes o (.running (.run s :: k) F w)) ∨
      ∃ F' w', P F' w' ∧ ∀ k, S.Leads (.running (.run s :: k) F w) (.running k F' w')) :
    S.Performs [s] F w o P := by
  simp only [Performs, Runs, Stmt.flattenAll_cons, Stmt.flattenAll_nil, hs]
  refine h.imp (fun hcrash => ⟨by simp, hcrash⟩) ?_
  rintro ⟨F', w', hP, hl⟩
  exact ⟨F', w', hP, hl, by simp⟩

/-- A statement of one line with one operand. -/
lemma performs_single {f : Value → World μ σ → Option (Outcome μ σ)} {s : Stmt}
    (hs : s.flatten = [.run s]) (hF : S.naming.Clear F) (hops : (Line.run s).operands = [e])
    (ho : e.Orderly) (h : (S.eval F e w).resume f = some o)
    (hp : ∀ x w1, f x w1 = some o → ∃ F' w', P F' w' ∧
      ∀ k, (Line.run s).perform S.host S.naming F S.whole [x] k w1 = some (.running k F' w')) :
    S.Performs [s] F w o P := by
  refine performs_line hs ((line_cases_single _ hF hops ho h).imp_right ?_)
  rintro ⟨x, w1, hx, hl⟩
  obtain ⟨F', w', hP, hperform⟩ := hp x w1 hx
  exact ⟨F', w', hP, fun k => hl (hperform k)⟩

/-- The assignment of a temporary. -/
lemma performs_assignTemp {f : Value → World μ σ → Option (Outcome μ σ)}
    (hr : S.Ready ls F) (ht : t < S.temps) (ho : e.Orderly)
    (h : (S.eval F e w).resume f = some o)
    (hp : ∀ x w1, f x w1 = some o → P (F.set (tempName t) x) w1) :
    S.Performs [.assign (.temp t) e] F w o P := by
  refine performs_single rfl hr.clear rfl ho h fun x w1 hx => ⟨_, w1, hp x w1 hx, fun k => ?_⟩
  obtain ⟨y, hy⟩ := Option.isSome_iff_exists.mp (hr.temps t ht)
  simp [Line.perform, C.Place.text, C.Naming.assign, hy]

/-! ## Spilling -/

/-- Expressions whose footprints do not conflict commute. -/
lemma compatible_of_not_conflicts {u v : Pending} (hu : u.Sound) (hv : v.Sound)
    (h : (Hazard.evaluating v.uses).conflicts u.uses = false) : v.expr.Compatible u.expr := by
  obtain ⟨-, hw, hr⟩ := Hazard.conflicts_eq_false.mp h
  refine ⟨fun heff => ?_, fun heff => ?_⟩
  · exact hu.not_depends (hw (hv.effects heff))
  · have := hu.effects heff
    cases hd : v.expr.depends with
    | false => rfl
    | true => rw [hr (hv.depends hd)] at this; cases this

/-- An expression does not notice that other temporaries are assigned. -/
lemma agree_of_kept (apart : List Nat) (hr : S.Ready ls F) (hr' : S.Ready ls F')
    (hk : Kept bound apart F F')
    (ht : ∀ t, .temp t ∈ e.parts → t < bound ∧ t ∉ apart) : Expr.Agree S.naming F F' e := by
  refine ⟨fun i _ => ?_, fun t hmem => ?_⟩
  · rw [hr.locals, hr'.locals]
  · obtain ⟨hlt, hn⟩ := ht t hmem
    exact (hk t hlt hn).symm

/-- Expressions that are admitted agree where other temporaries are assigned. -/
lemma agree_of_admits (hv : r.Admits S.env v) (hr : S.Ready ls F)
    (hr' : S.Ready ls F') (hk : Kept r.temps.size r.resultTemps F F') :
    Expr.Agree S.naming F F' v.expr :=
  agree_of_kept _ hr hr' hk hv.temps

lemma eval_temp (hr : S.Ready ls F) (h : F (tempName t) = some x) (type : ValueType)
    (w : World μ σ) : S.eval F (Pending.temp t type).expr w = .ok (x, w) := by
  simp [Pending.temp, Expr.eval, Expr.apply, C.Naming.read_of_not_mem (hr.clear.temp_not_mem _), h,
    Expr.answer]

open Rebuild in
/-- Evaluating marked operands keeps what pending expressions stand for.

**Proof sketch.** By induction on the operands; those below are evaluated first. An operand that is
evaluated commutes with what stays pending below it, and goes into a new temporary. -/
theorem performs_evaluateMarked {marks : List (Pending × Bool)} {r : Rebuild} {h : Hazard}
    (hs : Settled h marks) (hm : ∀ v ∈ marks.map Prod.fst, r.Admits S.env v)
    (hT : (evaluateMarked marks r).2.temps.size ≤ S.temps) (hr : S.Ready ls F)
    (hh : (S.meaning F (marks.map Prod.fst) w).resume f = some o) :
    S.Performs (evaluations marks r) F w o fun F' w' => S.Ready ls F' ∧
      Kept r.temps.size r.resultTemps F F' ∧
      (S.meaning F' (evaluateMarked marks r).1 w').resume f = some o := by
  induction marks generalizing h f with
  | nil => exact .nil ⟨hr, .refl _ _ F, hh⟩
  | cons mark below ih =>
    obtain ⟨v, marked⟩ := mark
    obtain ⟨hv, hmb⟩ := forall_mem_cons.mp hm
    have hTb : (evaluateMarked below r).2.temps.size ≤ S.temps := by
      rw [evaluateMarked_cons] at hT
      split at hT
      · rw [temps_save, Array.size_push] at hT
        omega
      · exact hT
    obtain ⟨h', hs', hconf⟩ : ∃ h', Settled h' below ∧
        (marked = true → ∀ f, h'.conflicts f = false →
          (Hazard.evaluating v.uses).conflicts f = false) := by
      cases marked with
      | false => exact ⟨h, hs.2, fun h => by cases h⟩
      | true =>
        refine ⟨_, hs, fun _ f hf => ?_⟩
        rw [Hazard.conflicts_and (.inr rfl), Bool.or_eq_false_iff] at hf
        exact hf.2
    rw [map_cons, meaning_cons, resume_andThen] at hh
    rw [evaluateMarked_cons, evaluations]
    refine (ih hs' hmb hTb hh).append fun F1 w1 hP => ?_
    obtain ⟨hr1, hk1, hh1⟩ := hP
    have hv1 : ∀ w, S.eval F v.expr w = S.eval F1 v.expr w :=
      Expr.eval_congr hr.clear hr1.clear (agree_of_admits hv hr hr1 hk1)
    have hh1 : (S.meaning F1 (v :: (evaluateMarked below r).1) w1).resume f = some o := by
      simpa [meaning_cons, hv1] using hh1
    split
    · rename_i hmarked
      rw [evaluateMarked_cons, if_pos hmarked, temps_save, Array.size_push] at hT
      have hle := size_temps_evaluateMarked below r
      have hcomm : ∀ u ∈ (evaluateMarked below r).1, v.expr.Compatible u.expr := by
        intro u hu
        refine compatible_of_not_conflicts ?_ hv.sound
          (hconf (by simp_all) _ (not_conflicts_of_mem_evaluateMarked hs' hu))
        rcases oldOrNew_of_mem_evaluateMarked hu with hu | ⟨t, type, rfl, -, -⟩
        · exact (hmb u hu).sound
        · exact Pending.sound_temp t type
      rw [meaning_exchange hr1.clear hcomm (fun heff => eval_ne_fails hv hr1 (by omega) heff w1)
        (ne_error_of_resume hh1), resume_andThen] at hh1
      refine performs_assignTemp hr1 (by omega) hv.sound.orderly hh1 fun x w2 hx => ?_
      have hset := hr1.setTemp (t := (evaluateMarked below r).2.temps.size) (by omega) x
      refine ⟨hset, hk1.trans (kept_set (.inl hle) x), ?_⟩
      -- The new temporary is not used below.
      rw [meaning_cons, ← meaning_congr hr1.clear hset.clear]
      · simpa [eval_temp hset (set_self _ _ _)] using hx
      · intro u hu
        refine agree_of_kept [] hr1 hset (kept_set (.inl (Nat.le_refl _)) x) fun t ht =>
          ⟨?_, not_mem_nil⟩
        rcases oldOrNew_of_mem_evaluateMarked hu with hu | ⟨t', type, rfl, -, htype⟩
        · have := ((hmb u hu).temps t ht).1
          omega
        · have hlt := (List.getElem?_eq_some_iff.mp htype).1
          simp [Pending.temp, Expr.parts] at ht
          simpa [ht] using hlt
    · exact .nil ⟨hr1, hk1, hh1⟩

/-! ## States -/

variable (S) in
/-- A running C function follows a running WebAssembly function: the locals are the same, and with
the operand stack and the world that the pending expressions stand for, WebAssembly code has a given
outcome. -/
def Continues (values : List Pending) (f : State μ σ → Option (Outcome μ σ)) (o : Outcome μ σ)
    (F : Frame) (w : World μ σ) : Prop :=
  ∃ ls, S.Ready ls F ∧ (S.meaning F values w).resume (fun stack w => f ⟨stack, ls, w⟩) = some o

variable (S) in
/-- A running C function follows a WebAssembly function that has run to some point, or has trapped
at a load that is still pending. -/
def Tracks (values : List Pending) (o : Outcome μ σ) (F : Frame) (w : World μ σ) : Prop :=
  S.Continues values (fun s => some (.next s)) o F w

variable {g : State μ σ → Option (Outcome μ σ)} {o1 : Outcome μ σ}

/-- Code that goes on behind other code. -/
lemma Tracks.andThen (h : S.Tracks values o1 F w) (ho : o1.andThen g = some o) :
    S.Continues values g o F w := by
  obtain ⟨ls, hr, h⟩ := h
  refine ⟨ls, hr, ?_⟩
  rcases resume_cases h with ⟨stack, w1, hm, h⟩ | ⟨w1, hm, rfl⟩
  · cases h
    rw [hm]
    exact ho
  · rw [hm]
    exact ho

lemma granted_of_andThen (h : o1.andThen g = some o) (ho : S.Granted o) : S.Granted o1 := by
  cases o1 with
  | next => trivial
  | branch | leave | trap =>
    cases h
    exact ho

/-- Result temporaries that are not new were there before. -/
lemma mem_resultTemps (h : Rebuild.Grows r r1 ss) {t : Nat} (ht : t < r.temps.size)
    (hmem : t ∈ r1.resultTemps) : t ∈ r.resultTemps := by
  obtain ⟨c1, hc1, htemp⟩ := mem_filterMap.mp hmem
  obtain ⟨d, hd⟩ := mem_iff_getElem?.mp hc1
  have hlt : d < r.constructs.length := by
    have := (List.getElem?_eq_some_iff.mp hd).1
    rwa [h.length] at this
  obtain ⟨c2, hc2, hg⟩ := h.construct d _ (getElem?_eq_getElem hlt)
  rw [hd] at hc2
  cases hc2
  rcases hg.newTemp t htemp with htemp | hle
  · exact mem_filterMap.mpr ⟨_, getElem_mem hlt, htemp⟩
  · omega

lemma Kept.grown (h : Kept r1.temps.size r1.resultTemps F F') (hg : Rebuild.Grows r r1 ss) :
    Kept r.temps.size r.resultTemps F F' :=
  h.mono hg.size_temps fun _ => mem_resultTemps hg

variable (S) in
/-- The effect of the code that is emitted between two states of reconstruction. -/
def Advances (r r1 : Rebuild) (F : Frame) (w : World μ σ) (o : Outcome μ σ)
    (P : Frame → World μ σ → Prop) : Prop :=
  ∃ ss, Rebuild.Grows r r1 ss ∧
    S.Performs ss F w o fun F' w' => Kept r.temps.size r.resultTemps F F' ∧ P F' w'

lemma Advances.refl (h : P F w) : S.Advances r r F w o P :=
  ⟨[], .refl r, .nil ⟨.refl _ _ F, h⟩⟩

/-- Code behind code that has been emitted before. -/
lemma Advances.append (h : S.Advances r r1 F w o P) (hg : Rebuild.Grows r1 r2 ts)
    (h' : ∀ F1 w1, P F1 w1 → S.Performs ts F1 w1 o fun F2 w2 =>
      Kept r1.temps.size r1.resultTemps F1 F2 ∧ Q F2 w2) : S.Advances r r2 F w o Q := by
  obtain ⟨ss, hss, h⟩ := h
  refine ⟨ss ++ ts, hss.trans hg, h.append fun F1 w1 hP => (h' F1 w1 hP.2).mono ?_⟩
  rintro F2 w2 ⟨hk, hQ⟩
  exact ⟨hP.1.trans (hk.grown hss), hQ⟩

lemma Advances.thenNothing (h : S.Advances r r1 F w o P) (hg : Rebuild.Grows r1 r2 [])
    (hPQ : ∀ F' w', P F' w' → Q F' w') : S.Advances r r2 F w o Q :=
  h.append hg fun F1 w1 hP => .nil ⟨.refl _ _ F1, hPQ F1 w1 hP⟩

open Rebuild in
/-- **Spilling keeps what pending expressions stand for.** -/
theorem Advances.spill (above : List Pending)
    (h : S.Advances r r1 F w o (S.Continues (above ++ r1.scope.values) g o)) (ht : r1.Tidy S.env)
    (habove : ∀ v ∈ above, r1.Admits S.env v) (marked : Nat → Pending → Bool) (hz : Hazard)
    (hT : (r1.spill marked hz).temps.size ≤ S.temps) :
    S.Advances r (r1.spill marked hz) F w o
      (S.Continues (above ++ (r1.spill marked hz).scope.values) g o) := by
  refine h.append (grows_spill marked hz) fun F1 w1 hc => ?_
  obtain ⟨ls, hr, hc⟩ := hc
  have hvs := map_fst_marksOf marked hz r1.scope.values
  rw [meaning_append, resume_andThen, ← hvs] at hc
  refine (performs_evaluateMarked (settled_markConflicts hz _)
    (fun v hv => ht.admits_value (hvs ▸ hv)) hT hr hc).mono ?_
  rintro F2 w2 ⟨hr2, hk, hc⟩
  refine ⟨hk, ls, hr2, ?_⟩
  rw [meaning_append, resume_andThen]
  refine resume_mono hc fun ys w hys => ?_
  rwa [← meaning_congr hr.clear hr2.clear fun v hv => agree_of_admits (habove v hv) hr hr2 hk]

lemma Advances.settle (above : List Pending)
    (h : S.Advances r r1 F w o (S.Continues (above ++ r1.scope.values) g o)) (ht : r1.Tidy S.env)
    (habove : ∀ v ∈ above, r1.Admits S.env v) (hz : Hazard)
    (hT : (r1.settle hz).temps.size ≤ S.temps) :
    S.Advances r (r1.settle hz) F w o (S.Continues (above ++ (r1.settle hz).scope.values) g o) :=
  h.spill above ht habove _ hz hT

open Rebuild in
/-- Putting operands in sequence keeps what pending expressions stand for. -/
lemma advances_sequence (ht : r.Tidy S.env) (count : Nat)
    (hT : (r.sequence count).temps.size ≤ S.temps) (h : S.Continues r.scope.values g o F w) :
    S.Advances r (r.sequence count) F w o (S.Continues (r.sequence count).scope.values g o) := by
  rcases sequence_eq r count with heq | ⟨marked, heq⟩
  · rw [heq]
    exact .refl h
  · rw [heq] at hT ⊢
    exact Advances.spill [] (.refl h) ht (by simp) marked .none hT

open Rebuild in
/-- The last operand is taken and everything that it conflicts with is evaluated: then it can be
evaluated first. -/
lemma advances_pop {hz : Hazard} (ht : r.Tidy S.env) (hvs : r.scope.values = v :: below)
    (hconf : ∀ f, hz.conflicts f = false → (Hazard.evaluating v.uses).conflicts f = false)
    (hT : ((r.withValues below).settle hz).temps.size ≤ S.temps)
    (h : S.Continues r.scope.values g o F w) :
    S.Advances r ((r.withValues below).settle hz) F w o fun F1 w1 => ∃ ls, S.Ready ls F1 ∧
      (S.eval F1 v.expr w1).resume (fun x w =>
        (S.meaning F1 ((r.withValues below).settle hz).scope.values w).resume fun xs w =>
          g ⟨x :: xs, ls, w⟩) = some o := by
  obtain ⟨hadmits, htidy⟩ := ht.uncons hvs
  rw [hvs] at h
  refine (Advances.settle [v]
    ((Advances.refl h).thenNothing (grows_withValues below) fun _ _ => id) htidy
    (by simpa using hadmits) hz hT).thenNothing (.refl _) ?_
  rintro F1 w1 ⟨ls, hr, hc⟩
  refine ⟨ls, hr, ?_⟩
  have hle : r.temps.size ≤ S.temps := Nat.le_trans (size_temps_spill (r := r.withValues below)) hT
  have hcomm : ∀ u ∈ ((r.withValues below).settle hz).scope.values, v.expr.Compatible u.expr :=
    fun u hu => compatible_of_not_conflicts ((htidy.settle hz).admits_value hu).sound hadmits.sound
      (hconf _ (not_conflicts_of_mem_settle hu))
  rw [singleton_append, meaning_exchange hr.clear hcomm
    (fun heff => eval_ne_fails hadmits hr hle heff w1) (ne_error_of_resume hc)] at hc
  simpa using hc

end Setting

end WasmToC

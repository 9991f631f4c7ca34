import WasmToC.Proofs.CRun

/-!
# Evaluation in a fixed order

Expressions evaluated from left to right. What an expression reads and does is read off its parts.
An expression is orderly if no two operands of one operator or call can observe each other.

## Main definitions

* `C.Expr.effects`, `C.Expr.depends` — whether it calls or grows the memory, and
  whether globals or memory matter to it at all.
* `C.Expr.Orderly` — no operand can observe another one.
* `C.Expr.eval` — evaluation from left to right.

## Main results

* `C.Expr.eval_stays` — an expression without effects leaves the world alone.
* `C.Expr.eval_fixed` — an expression that does not depend on the world has the same value in
  all of them.
* `C.Expr.eval_congr` — only the variables that occur in an expression matter.
-/

namespace WasmToC.C

open List Option

variable {μ σ : Type} {e : Expr} {es : List Expr} {vs : List Value} {w' : World μ σ}

namespace Expr

/-! ## Parts of an expression -/

mutual

/-- An expression and everything inside it. -/
def parts : Expr → List Expr
  | .memoryGrow delta => .memoryGrow delta :: delta.parts
  | .load op addr off => .load op addr off :: addr.parts
  | .call f args => .call f args :: allParts args
  | .numeric op args => .numeric op args :: allParts args
  | .choose cond yes no =>
    .choose cond yes no :: (cond.parts ++ (yes.parts ++ no.parts))
  | .const v => [.const v]
  | .zero t => [.zero t]
  | .var i => [.var i]
  | .temp i => [.temp i]
  | .global i => [.global i]
  | .memorySize => [.memorySize]

/-- Several expressions and everything inside them. -/
def allParts : List Expr → List Expr
  | [] => []
  | e :: es => e.parts ++ allParts es

end

/-- Whether the expression itself, apart from its operands, calls a function or grows the memory. -/
def isEffect : Expr → Bool
  | .memoryGrow _ | .call _ _ => true
  | _ => false

/-- Whether the expression itself, apart from its operands, reads a global or the memory. -/
def isRead : Expr → Bool
  | .global _ | .memorySize | .load _ _ _ => true
  | _ => false

/-- Whether an expression calls a function or grows the memory. -/
def effects (e : Expr) : Bool := e.parts.any isEffect

/-- Whether an expression reads a global or the memory. -/
def reads (e : Expr) : Bool := e.parts.any isRead

/-- Whether globals and memory matter to an expression. -/
def depends (e : Expr) : Bool := e.reads || e.effects

/-- Whether one of several expressions calls a function or grows the memory. -/
def anyEffects (es : List Expr) : Bool := es.any effects

/-- Whether globals and memory matter to one of several expressions. -/
def anyDepends (es : List Expr) : Bool := es.any depends

/-- Induction on expressions, with the operands of a call or operator taken together. -/
@[elab_as_elim]
lemma induct {P : Expr → Prop} (const : ∀ v, P (.const v)) (zero : ∀ t, P (.zero t))
    (var : ∀ i, P (.var i)) (temp : ∀ i, P (.temp i)) (global : ∀ i, P (.global i))
    (memorySize : P .memorySize) (memoryGrow : ∀ delta, P delta → P (.memoryGrow delta))
    (load : ∀ op addr off, P addr → P (.load op addr off))
    (call : ∀ f args, (∀ a ∈ args, P a) → P (.call f args))
    (numeric : ∀ op args, (∀ a ∈ args, P a) → P (.numeric op args))
    (choose : ∀ cond yes no, P cond → P yes → P no → P (.choose cond yes no))
    (e : Expr) : P e :=
  @Expr.rec P (fun es => ∀ a ∈ es, P a)
    const zero var temp global memorySize memoryGrow load call numeric choose
    (fun _ h => absurd h not_mem_nil)
    (fun _ _ he hes _ ha => (mem_cons.mp ha).elim (fun h => h ▸ he) (hes _)) e

@[simp] lemma allParts_eq_flatMap (es : List Expr) : allParts es = es.flatMap parts := by
  induction es with
  | nil => rfl
  | cons e es ih => rw [allParts, ih, flatMap_cons]

/-- The operands of an expression. -/
def operands : Expr → List Expr
  | .memoryGrow delta => [delta]
  | .load _ addr _ => [addr]
  | .call _ args => args
  | .numeric _ args => args
  | .choose cond yes no => [cond, yes, no]
  | _ => []

lemma parts_eq (e : Expr) : e.parts = e :: e.operands.flatMap parts := by
  cases e <;> simp [parts, operands]

lemma forall_parts {P : Expr → Prop} :
    (∀ p ∈ e.parts, P p) ↔ P e ∧ ∀ a ∈ e.operands, ∀ p ∈ a.parts, P p := by
  rw [parts_eq, forall_mem_cons, forall_mem_flatMap]

lemma effects_eq (e : Expr) : e.effects = (e.isEffect || anyEffects e.operands) := by
  rw [effects, parts_eq, any_cons, any_flatMap]
  rfl

lemma reads_eq (e : Expr) : e.reads = (e.isRead || e.operands.any reads) := by
  rw [reads, parts_eq, any_cons, any_flatMap]
  rfl

/-- Globals and memory matter to an expression by itself or by an operand. -/
lemma depends_eq (e : Expr) : e.depends = (e.isRead || e.isEffect || anyDepends e.operands) := by
  have h : anyDepends e.operands = (e.operands.any reads || anyEffects e.operands) := by
    rw [anyDepends, anyEffects]
    induction e.operands with
    | nil => rfl
    | cons a as ih => simp only [any_cons, ih, depends]; grind
  rw [depends, reads_eq, effects_eq, h]
  grind

/-- The operands of an expression without effects have none. -/
lemma effects_operand {a : Expr} (h : e.effects = false) (ha : a ∈ e.operands) :
    a.effects = false := by
  rw [effects_eq, Bool.or_eq_false_iff] at h
  simpa using any_eq_false.mp h.2 a ha

/-- What does not depend on the world has no operands that do. -/
lemma depends_operand {a : Expr} (h : e.depends = false) (ha : a ∈ e.operands) :
    a.depends = false := by
  rw [depends_eq, Bool.or_eq_false_iff] at h
  simpa using any_eq_false.mp h.2 a ha

lemma not_effects_of_not_depends (h : e.depends = false) : e.effects = false := by
  simp only [depends, Bool.or_eq_false_iff] at h
  exact h.2

/-! ## Orderly expressions -/

/-- Two operands cannot observe each other: if one has effects, the world does not matter to the
other. -/
def Compatible (a b : Expr) : Prop :=
  (a.effects = true → b.depends = false) ∧ (b.effects = true → a.depends = false)

mutual

/-- No two operands of an operator or call can observe each other. A choice evaluates its condition
first, so that its parts may observe each other. -/
def Orderly : Expr → Prop
  | .memoryGrow delta => delta.Orderly
  | .load _ addr _ => addr.Orderly
  | .call _ args => AllOrderly args
  | .numeric _ args => AllOrderly args
  | .choose cond yes no => cond.Orderly ∧ yes.Orderly ∧ no.Orderly
  | _ => True

/-- Several operands that are orderly and cannot observe each other. -/
def AllOrderly : List Expr → Prop
  | [] => True
  | e :: es => e.Orderly ∧ (∀ a ∈ es, e.Compatible a) ∧ AllOrderly es

end

/-- Operands are orderly together if each is and any two are compatible. -/
lemma allOrderly_iff : AllOrderly es ↔ (∀ e ∈ es, e.Orderly) ∧ es.Pairwise Compatible := by
  induction es with
  | nil => simp [AllOrderly]
  | cons e es ih =>
    rw [AllOrderly, ih, pairwise_cons, forall_mem_cons]
    constructor
    · rintro ⟨he, hc, hes, hp⟩
      exact ⟨⟨he, hes⟩, hc, hp⟩
    · rintro ⟨⟨he, hes⟩, hc, hp⟩
      exact ⟨he, hc, hes, hp⟩

/-! ## Evaluation from left to right -/

/-- The operands that are evaluated first. -/
def first : Expr → List Expr
  | .memoryGrow delta => [delta]
  | .load _ addr _ => [addr]
  | .call _ args => args
  | .numeric _ args => args
  | .choose cond _ _ => [cond]
  | _ => []

/-- The operands of which one is evaluated afterwards. -/
def alternatives : Expr → List Expr
  | .choose _ yes no => [yes, no]
  | _ => []

lemma operands_eq (e : Expr) : e.operands = e.first ++ e.alternatives := by
  cases e <;> simp [operands, first, alternatives]

/-- Whether an expression is not a constant. -/
def isOpen : Expr → Bool
  | .const _ => false
  | _ => true

/-- Induction on expressions, with all operands taken together. -/
@[elab_as_elim]
lemma induct_operands {P : Expr → Prop} (h : ∀ e, (∀ a ∈ e.operands, P a) → P e) (e : Expr) :
    P e := by
  induction e using Expr.induct with
  | const | zero | var | temp | global | memorySize => exact h _ (forall_mem_nil _)
  | memoryGrow _ ih | load _ _ _ ih => exact h _ (forall_mem_singleton.mpr ih)
  | call _ _ ih | numeric _ _ ih => exact h _ ih
  | choose _ _ _ ihc ihy ihn => exact h _ (by simp [operands, ihc, ihy, ihn])

/-- What an evaluation comes to: a value and the world afterwards, or no value. If a load was out
of bounds, the world in which it was comes with it. -/
abbrev Evaluated (μ σ α : Type) := Except (Option (World μ σ)) (α × World μ σ)

/-- Goes on behind an evaluation that comes to a value. -/
def Evaluated.andThen {α β : Type} (x : Evaluated μ σ α) (g : α → World μ σ → Evaluated μ σ β) :
    Evaluated μ σ β :=
  match x with
  | .ok (a, w) => g a w
  | .error fault => .error fault

section AndThen

variable {α β γ : Type}

@[simp] lemma Evaluated.andThen_ok (a : α) (w : World μ σ)
    (g : α → World μ σ → Evaluated μ σ β) : Evaluated.andThen (.ok (a, w)) g = g a w := rfl

@[simp] lemma Evaluated.andThen_error (fault : Option (World μ σ))
    (g : α → World μ σ → Evaluated μ σ β) : Evaluated.andThen (.error fault) g = .error fault := rfl

@[simp] lemma Evaluated.andThen_andThen (x : Evaluated μ σ α)
    (g : α → World μ σ → Evaluated μ σ β) (h : β → World μ σ → Evaluated μ σ γ) :
    (x.andThen g).andThen h = x.andThen fun a w => (g a w).andThen h := by
  cases x <;> rfl

@[simp] lemma Evaluated.andThen_pure (x : Evaluated μ σ α) :
    (x.andThen fun a w => .ok (a, w)) = x := by
  cases x <;> rfl

lemma Evaluated.andThen_eq_ok {x : Evaluated μ σ α} {g : α → World μ σ → Evaluated μ σ β}
    {res : β × World μ σ} : x.andThen g = .ok res ↔ ∃ a w, x = .ok (a, w) ∧ g a w = .ok res := by
  rcases x with _ | ⟨a, w⟩ <;> simp [and_assoc]

lemma Evaluated.andThen_ne_error {x : Evaluated μ σ α} {g : α → World μ σ → Evaluated μ σ β}
    {fault : Option (World μ σ)} (hx : x ≠ .error fault) (hg : ∀ a w, g a w ≠ .error fault) :
    x.andThen g ≠ .error fault := by
  rcases x with fault' | ⟨a, w⟩
  · simpa using hx
  · exact hg a w

end AndThen

/-- What an evaluation comes to that depends on an answer. -/
def answer (fault : Option (World μ σ)) : Option (Value × World μ σ) → Evaluated μ σ Value
  | some a => .ok a
  | none => .error fault

variable (H : Host μ σ) (n : Naming) (F : Frame)

/-- What an expression that is not a choice comes to once its operands are values. There are always
as many values as it has operands. -/
def apply (w : World μ σ) : Expr → List Value → Evaluated μ σ Value
  | .const v, _ => .ok (v, w)
  | .zero t, _ => .ok (t.zero, w)
  | .var i, _ => answer none ((n.read F w (localName n.params i)).map (·, w))
  | .temp i, _ => answer none ((n.read F w (tempName i)).map (·, w))
  | .global i, _ => answer none ((n.read F w (n.symbols.global i)).map (·, w))
  | .memorySize, _ => .ok (w.memorySize H, w)
  | .memoryGrow _, [delta] => answer none (w.grow H delta)
  | .load op _ off, [addr] => answer (some w) ((w.load H op addr off).map (·, w))
  | .call f _, args => answer none (n.call H F w (n.symbols.function f) args)
  | .numeric op _, args => .ok (H.numeric op args, w)
  | _, _ => .ok (.i32 0, w)

/-- What an expression becomes once the operands that are evaluated first are values. -/
def reduce (w : World μ σ) : Expr → List Value → Evaluated μ σ Expr
  | .choose _ yes no, [cond] => .ok (if cond.isTrue then yes else no, w)
  | e, vs => (apply H n F w e vs).andThen fun v w => .ok (.const v, w)

mutual

/-- The value of an expression whose operands are evaluated from left to right, and the world
afterwards. -/
def eval : Expr → World μ σ → Evaluated μ σ Value
  | .choose cond yes no, w =>
    (eval cond w).andThen fun v w => if v.isTrue then eval yes w else eval no w
  | .memoryGrow delta, w => (eval delta w).andThen fun v w => apply H n F w (.memoryGrow delta) [v]
  | .load op addr off, w =>
    (eval addr w).andThen fun v w => apply H n F w (.load op addr off) [v]
  | .call f args, w => (evalAll args w).andThen fun vs w => apply H n F w (.call f args) vs
  | .numeric op args, w => (evalAll args w).andThen fun vs w => apply H n F w (.numeric op args) vs
  | e, w => apply H n F w e []

/-- The values of expressions that are evaluated from left to right. -/
def evalAll : List Expr → World μ σ → Evaluated μ σ (List Value)
  | [], w => .ok ([], w)
  | e :: es, w => (eval e w).andThen fun v w => (evalAll es w).andThen fun vs w => .ok (v :: vs, w)

end

variable {H n F}

/-- An expression is evaluated by evaluating some of its operands and then what it becomes. -/
lemma eval_eq (w : World μ σ) : eval H n F e w = (evalAll H n F e.first w).andThen fun vs w =>
      (reduce H n F w e vs).andThen fun e w => eval H n F e w := by
  cases e with
  | choose c yes no =>
    simp only [eval, first, evalAll, reduce, Evaluated.andThen_andThen, Evaluated.andThen_ok]
    congr
    funext v w
    split <;> rfl
  | _ => simp [eval, first, evalAll, reduce, apply]

/-- An expression that is not a choice is evaluated by evaluating its operands. -/
lemma eval_apply (h : e.alternatives = []) (w : World μ σ) :
    eval H n F e w = (evalAll H n F e.first w).andThen fun vs w => apply H n F w e vs := by
  cases e with
  | choose => simp [alternatives] at h
  | _ => simp [eval, first, evalAll, apply]

lemma length_evalAll {w : World μ σ} (h : evalAll H n F es w = .ok (vs, w')) :
    vs.length = es.length := by
  induction es generalizing w vs w' with
  | nil =>
    cases h
    rfl
  | cons e es ih =>
    simp only [evalAll, Evaluated.andThen_eq_ok] at h
    obtain ⟨v, w1, -, us, w2, hes, h⟩ := h
    cases h
    rw [length_cons, length_cons, ih hes]

lemma evalAll_consts (vs : List Value) (w : World μ σ) :
    evalAll H n F (vs.map .const) w = .ok (vs, w) := by
  induction vs with
  | nil => rfl
  | cons v vs ih => simp [evalAll, eval, apply, ih]

/-- A list of expressions is evaluated in two parts. -/
lemma evalAll_append (es fs : List Expr) (w : World μ σ) :
    evalAll H n F (es ++ fs) w = (evalAll H n F es w).andThen fun us w =>
      (evalAll H n F fs w).andThen fun vs w => .ok (us ++ vs, w) := by
  induction es generalizing w with
  | nil => simp [evalAll]
  | cons e es ih => simp [evalAll, ih]

/-! ## What the world is to an expression -/

section Parts

variable {G : Frame}
  {R : ∀ {α : Type}, (World μ σ → Evaluated μ σ α) → (World μ σ → Evaluated μ σ α) → Prop}
  (pure : ∀ {α : Type} (a : α), R (fun w => .ok (a, w)) fun w => .ok (a, w))
  (bind : ∀ {α β : Type} {f f' : World μ σ → Evaluated μ σ α}
    {g g' : α → World μ σ → Evaluated μ σ β},
    R f f' → (∀ a, R (g a) (g' a)) → R (fun w => (f w).andThen g) fun w => (f' w).andThen g')
include pure bind

/-- What holds of each of several evaluations holds of all of them together. -/
lemma evalAll_of_forall (h : ∀ e ∈ es, R (eval H n F e) (eval H n G e)) :
    R (evalAll H n F es) (evalAll H n G es) := by
  induction es with
  | nil => exact pure []
  | cons e es ih =>
    obtain ⟨he, hes⟩ := forall_mem_cons.mp h
    exact bind he fun v => bind (ih hes) fun vs => pure (v :: vs)

/-- **What holds of the parts of an expression holds of its evaluation**, if it is a property that
evaluations one after the other have. -/
theorem eval_of_parts
    (h : ∀ p ∈ e.parts, ∀ vs, R (fun w => apply H n F w p vs) fun w => apply H n G w p vs) :
    R (eval H n F e) (eval H n G e) := by
  induction e using induct_operands with
  | _ e ih =>
    obtain ⟨he, hoperands⟩ := forall_parts.mp h
    have ih := fun a ha => ih a ha (hoperands a ha)
    rw [operands_eq, forall_mem_append] at ih
    rw [funext (eval_eq (e := e)), funext (eval_eq (H := H) (F := G) (e := e))]
    refine bind (evalAll_of_forall pure bind ih.1) fun vs => ?_
    unfold reduce
    split
    · simp only [Evaluated.andThen_ok]
      split
      · exact ih.2 _ (by simp [alternatives])
      · exact ih.2 _ (by simp [alternatives])
    · simpa [eval, apply] using he vs

end Parts

end Expr

/-! ## Names that do not get in each other's way -/
/-- The names of variables and those at file scope do not get in each other's way. -/
structure Naming.Clear (n : Naming) (F : Frame) : Prop where
  /-- No global has the name of a parameter or local. -/
  local_not_mem : ∀ i, localName n.params i ∉ n.symbols.globals
  /-- No global has the name of a temporary. -/
  temp_not_mem : ∀ i, tempName i ∉ n.symbols.globals
  /-- No variable has the name of a global. -/
  global_eq_none : ∀ i, F (n.symbols.global i) = none
  /-- No variable has the name of a function. -/
  function_eq_none : ∀ i, F (n.symbols.function i) = none

namespace Naming

variable {n : Naming} {F F' : Frame} {w : World μ σ} {x : String}

lemma read_of_not_mem (hx : x ∉ n.symbols.globals) : n.read F w x = F x := by
  unfold read
  cases h : F x with
  | some v => rfl
  | none => simp [idxOf?_eq_none_iff.mpr hx]

lemma read_of_eq_none (hx : F x = none) :
    n.read F w x = (n.symbols.globals.idxOf? x).map w.shared.globals := by
  simp [read, hx]

/-- What a call does depends on the variables only by their names. -/
lemma call_congr {H : Host μ σ} (hx : F x = none) (hx' : F' x = none) (args : List Value) :
    n.call H F w x args = n.call H F' w x args := by
  simp [call, callee?, hx, hx']

end Naming

namespace Expr

variable {H : Host μ σ} {n : Naming} {F F' : Frame}

/-- An evaluation that leaves a world alone. -/
inductive Stays (w : World μ σ) {α : Type} : Evaluated μ σ α → Prop
  /-- It comes to a value. -/
  | ok (a : α) : Stays w (.ok (a, w))
  /-- It comes to a load that is out of bounds. -/
  | faults : Stays w (.error (some w))
  /-- It fails. -/
  | fails : Stays w (.error none)

lemma Stays.andThen {α β : Type} {w : World μ σ} {x : Evaluated μ σ α}
    {g : α → World μ σ → Evaluated μ σ β} (hx : Stays w x) (hg : ∀ a, Stays w (g a w)) :
    Stays w (x.andThen g) := by
  cases hx with
  | ok a => exact hg a
  | faults => exact .faults
  | fails => exact .fails

lemma apply_stays (hne : e.isEffect = false) (vs : List Value) (w : World μ σ) :
    Stays w (apply H n F w e vs) := by
  have hread : ∀ x : Option Value, Stays w (answer none (x.map (·, w))) := by
    rintro (_ | v)
    · exact .fails
    · exact .ok v
  unfold apply
  split
  case h_3 | h_4 | h_5 => exact hread _
  case h_7 | h_9 => cases hne
  case h_8 op _ off addr =>
    cases w.load H op addr off with
    | none => exact .faults
    | some v => exact .ok v
  all_goals exact .ok _

/-- **An expression without effects leaves the world alone.** -/
theorem eval_stays (hne : e.effects = false) (w : World μ σ) : Stays w (eval H n F e w) := by
  refine eval_of_parts (G := F) (R := fun f _ => ∀ w, Stays w (f w)) (fun a _ => .ok a)
    (fun hf hg w => (hf w).andThen fun a => hg a w) (fun p hp vs => apply_stays ?_ vs) w
  simpa using any_eq_false.mp hne p hp

/-- Expressions without effects leave the world alone. -/
lemma evalAll_stays (hne : ∀ e ∈ es, e.effects = false) (w : World μ σ) :
    Stays w (evalAll H n F es w) :=
  evalAll_of_forall (G := F) (R := fun f _ => ∀ w, Stays w (f w)) (fun a _ => .ok a)
    (fun hf hg w => (hf w).andThen fun a => hg a w) (fun e he => eval_stays (hne e he)) w

/-- An evaluation to which the world does not matter. -/
inductive Fixed {α : Type} (f : World μ σ → Evaluated μ σ α) : Prop
  /-- It always comes to the same value. -/
  | ok (a : α) (h : ∀ w, f w = .ok (a, w))
  /-- It always fails. -/
  | fails (h : ∀ w, f w = .error none)

lemma Fixed.andThen {α β : Type} {f : World μ σ → Evaluated μ σ α}
    {g : α → World μ σ → Evaluated μ σ β} (hf : Fixed f) (hg : ∀ a, Fixed (g a)) :
    Fixed fun w => (f w).andThen g := by
  cases hf with
  | ok a h => simpa [h] using hg a
  | fails h => exact .fails fun w => by simp [h]

lemma apply_fixed (hF : n.Clear F) (hr : e.isRead = false) (he : e.isEffect = false)
    (vs : List Value) : Fixed fun w => apply H n F w e vs := by
  have hread : ∀ {x : String}, x ∉ n.symbols.globals →
      Fixed fun w : World μ σ => answer none ((n.read F w x).map (·, w)) := by
    intro x hx
    simp only [Naming.read_of_not_mem hx]
    cases F x with
    | none => exact .fails fun _ => rfl
    | some v => exact .ok v fun _ => rfl
  cases e with
  | global | memorySize | load => cases hr
  | memoryGrow | call => cases he
  | var i => exact hread (hF.local_not_mem i)
  | temp i => exact hread (hF.temp_not_mem i)
  | const | zero | numeric | choose => exact .ok _ fun _ => rfl

/-- **An expression that does not depend on the world has the same value in all of them.** -/
theorem eval_fixed (hF : n.Clear F) (hnd : e.depends = false) : Fixed (eval H n F e) := by
  rw [depends, Bool.or_eq_false_iff] at hnd
  refine eval_of_parts (G := F) (R := fun f _ => Fixed f) (fun a => .ok a fun _ => rfl)
    (fun hf hg => hf.andThen hg) fun p hp => apply_fixed hF ?_ ?_
  · simpa using any_eq_false.mp hnd.1 p hp
  · simpa using any_eq_false.mp hnd.2 p hp

/-- Expressions that do not depend on the world have the same values in all of them. -/
lemma evalAll_fixed (hF : n.Clear F) (hnd : ∀ e ∈ es, e.depends = false) :
    Fixed (evalAll H n F es) :=
  evalAll_of_forall (G := F) (R := fun f _ => Fixed f) (fun a => .ok a fun _ => rfl)
    (fun hf hg => hf.andThen hg) fun e he => eval_fixed hF (hnd e he)

/-- Whether the expression itself, apart from its operands, is a load. -/
def isLoad : Expr → Bool
  | .load _ _ _ => true
  | _ => false

/-- Whether an expression loads from memory. -/
def loads (e : Expr) : Bool := e.parts.any isLoad

lemma apply_ne_fault (hnl : e.isLoad = false) (vs : List Value) (w w' : World μ σ) :
    apply H n F w e vs ≠ .error (some w') := by
  have hanswer : ∀ x : Option (Value × World μ σ), answer none x ≠ .error (some w') := by
    rintro (_ | _) h <;> cases h
  unfold apply
  split
  case h_3 | h_4 | h_5 | h_7 | h_9 => exact hanswer _
  case h_8 => cases hnl
  all_goals
    intro h
    cases h

/-- Evaluations do not go wrong in a way in which none of them does. -/
lemma evalAll_ne_error {fault : Option (World μ σ)}
    (h : ∀ e ∈ es, ∀ w, eval H n F e w ≠ .error fault) (w : World μ σ) :
    evalAll H n F es w ≠ .error fault :=
  evalAll_of_forall (G := F) (R := fun f _ => ∀ w, f w ≠ .error fault) (by simp)
    (fun hf hg w => Evaluated.andThen_ne_error (hf w) hg) h w

/-- An evaluation does not go wrong in a way in which none of its parts does. -/
lemma eval_ne_error {fault : Option (World μ σ)}
    (h : ∀ p ∈ e.parts, ∀ vs w, apply H n F w p vs ≠ .error fault) (w : World μ σ) :
    eval H n F e w ≠ .error fault :=
  eval_of_parts (G := F) (R := fun f _ => ∀ w, f w ≠ .error fault) (by simp)
    (fun hf hg w => Evaluated.andThen_ne_error (hf w) hg) h w

/-- **Only what loads comes to a load that is out of bounds.** -/
theorem eval_ne_fault (hnl : e.loads = false) (w w' : World μ σ) :
    eval H n F e w ≠ .error (some w') :=
  eval_ne_error (fun p hp vs w =>
    apply_ne_fault (by simpa using any_eq_false.mp hnl p hp) vs w w') w

/-- Two frames agree on the variables that occur in an expression. -/
def Agree (n : Naming) (F F' : Frame) (e : Expr) : Prop :=
  (∀ i, .var i ∈ e.parts → F (localName n.params i) = F' (localName n.params i)) ∧
    ∀ i, .temp i ∈ e.parts → F (tempName i) = F' (tempName i)

/-- **Only the variables that occur in an expression matter to its value.** -/
theorem eval_congr (hF : n.Clear F) (hF' : n.Clear F') (h : Agree n F F' e) (w : World μ σ) :
    eval H n F e w = eval H n F' e w := by
  refine congrFun
    (eval_of_parts (R := (· = ·)) (fun _ => rfl) ?_ fun p hp vs => funext fun w => ?_) w
  · rintro α β f _ g _ rfl hg
    rw [funext hg]
  · cases p with
    | var i => simp only [apply, Naming.read_of_not_mem (hF.local_not_mem i), h.1 i hp]
    | temp i => simp only [apply, Naming.read_of_not_mem (hF.temp_not_mem i), h.2 i hp]
    | global i => simp only [apply, Naming.read_of_eq_none (hF.global_eq_none i),
        Naming.read_of_eq_none (hF'.global_eq_none i)]
    | call f =>
      simp only [apply, Naming.call_congr (hF.function_eq_none f) (hF'.function_eq_none f)]
    | memoryGrow | load => rcases vs with _ | ⟨_, _ | _⟩ <;> rfl
    | _ => rfl

end Expr

end WasmToC.C

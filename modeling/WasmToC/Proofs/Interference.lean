import WasmToC.Proofs.Invariant
import WasmToC.Proofs.LineWriter

/-!
# Lines and the operands that wait

A line must not change what an operand that waits will read, and must not come before a call that
an operand that waits will make. What a line does is read off the line itself; what an operand
reads and does is known from its footprint.

## Main definitions

* `C.Line.changesState`, `C.Line.readsState`, `C.Line.leaves` — what a line
  does.
* `Entry.IsSafe` — a line that disturbs no operand that waits.
* `Hazard.Covers` — a hazard that says everything a line does.

## Main results

* `Entry.isSafe_of_covers` — where the operands that wait have been settled for a hazard,
  a line that the hazard covers is safe.
-/

namespace WasmToC

open C (Expr Line Stmt)

/-! ## What a line does -/

namespace C

/-- The expressions that a statement of one line evaluates. -/
def Stmt.exprs : Stmt → List Expr
  | .assign _ value | .discard value => [value]
  | .call _ args => args
  | .store _ addr _ value => [addr, value]
  | .jumpIf cond carried _ => cond :: carried.toList.map Prod.snd
  | .leave value => value.toList
  | .leaveIf cond value => cond :: value.toList
  | _ => []

namespace Line

/-- The expressions that a line evaluates. -/
def exprs : Line → List Expr
  | .openIf cond => [cond]
  | .run s => s.exprs
  | _ => []

/-- The local that a line assigns. -/
def assigned? : Line → Option Nat
  | .run (.assign (.var i) _) => some i
  | _ => none

/-- Whether a line itself, apart from the expressions in it, changes globals or memory. -/
def isChange : Line → Bool
  | .run (.store ..) | .run (.call ..) | .run (.assign (.global _) _) => true
  | _ => false

/-- Whether a line stores to memory, assigns a global, calls a function or grows the memory. -/
def changesState (line : Line) : Bool := line.isChange || line.exprs.any Expr.effects

/-- Whether a line reads globals or memory. -/
def readsState (line : Line) : Bool := line.exprs.any Expr.reads

/-- Whether control may leave by a line: it jumps, returns, traps or tests a condition. -/
def leaves : Line → Bool
  | .openIf _ | .run (.jump _) | .run (.jumpIf ..) | .run (.leave _) | .run (.leaveIf ..)
  | .run (.trap _) => true
  | _ => false

end Line

end C

/-- **A line that disturbs no operand that waits**: none reads the local that it assigns; none
depends on the state if it changes that; and none has effects if it reads or changes the state, or
control may leave by it. -/
def Entry.IsSafe (e : Entry) : Prop :=
  ∀ v ∈ e.below, (∀ i, e.line.assigned? = some i → i ∉ v.uses.locals) ∧
      (e.line.changesState = true → v.uses.dependsOnState = false) ∧
      ((e.line.readsState || e.line.changesState || e.line.leaves) = true → v.uses.effects = false)

/-! ## Lines and hazards -/

/-- A hazard that says everything a line does. -/
structure Hazard.Covers (h : Hazard) (line : Line) : Prop where
  /-- The local that is assigned is known. -/
  assigns : ∀ i, line.assigned? = some i → h.assigns = some i
  /-- Changes of the state are known. -/
  writes : line.changesState = true → h.writesState = true
  /-- Reads of the state and leaving are known, or would be in the way of changes. -/
  reads : (line.readsState || line.leaves) = true → h.readsState = true

namespace Entry

variable {e : Entry}

/-- What is stable is not disturbed. -/
lemma isSafe_of_isStable (hb : ∀ v ∈ e.below, v.uses.isStable = true) : e.IsSafe := by
  intro v hv
  obtain ⟨hlocals, hdepends⟩ := Footprint.isStable_iff.mp (hb v hv)
  refine ⟨fun i _ hi => ?_, fun _ => hdepends, fun _ => ?_⟩
  · rw [hlocals] at hi
    exact List.not_mem_nil hi
  · exact Footprint.not_effects_of_isStable (hb v hv)

/-- **A line is safe where the operands that wait are settled for a hazard that covers it.** -/
theorem isSafe_of_covers {h : Hazard} (hb : ∀ v ∈ e.below, h.conflicts v.uses = false)
    (hcovers : h.Covers e.line) : e.IsSafe := by
  intro v hv
  obtain ⟨hassigns, hwrites, hreads⟩ := Hazard.conflicts_eq_false.mp (hb v hv)
  have hchanges (hc : e.line.changesState = true) : v.uses.dependsOnState = false :=
    hwrites (hcovers.writes hc)
  refine ⟨fun i hi => hassigns i (hcovers.assigns i hi), hchanges, fun hdoes => ?_⟩
  rw [Bool.or_right_comm, Bool.or_eq_true] at hdoes
  rcases hdoes with hr | hc
  · exact hreads (hcovers.reads hr)
  · -- what has effects depends on the state
    have hdepends := hchanges hc
    rw [Footprint.dependsOnState, Bool.or_eq_false_iff] at hdepends
    exact hdepends.2

end Entry

namespace Hazard

variable {a b h : Hazard} {v : Pending} {x : Expr}

/-- A hazard that says everything the evaluation of an expression does. -/
structure Knows (h : Hazard) (x : Expr) : Prop where
  /-- Changes of the state are known. -/
  effects : x.effects = true → h.writesState = true
  /-- Reads of the state are known. -/
  reads : x.reads = true → h.readsState = true

/-- A value whose footprint covers it is known where its footprint is. -/
lemma knows_evaluating (hv : v.Sound) : (evaluating v.uses).Knows v.expr where
  effects := hv.effects
  reads hr := hv.depends (by rw [Expr.depends, hr, Bool.true_or])

/-- Whatever is evaluated is known where everything may change. -/
lemma knows_effect (x : Expr) : effect.Knows x := ⟨fun _ => rfl, fun _ => rfl⟩

/-- A value without effects is known where control leaves. -/
lemma knows_leaving (hv : v.Sound) (heffects : v.uses.effects = false) : leaving.Knows v.expr where
  effects he := by
    rw [hv.effects he] at heffects
    cases heffects
  reads _ := rfl

lemma Knows.and_left (hx : a.Knows x) (b : Hazard) : (a.and b).Knows x where
  effects he := by simp [Hazard.and, hx.effects he]
  reads hr := by simp [Hazard.and, hx.reads hr]

lemma Knows.and_right (hx : b.Knows x) (a : Hazard) : (a.and b).Knows x where
  effects he := by simp [Hazard.and, hx.effects he]
  reads hr := by simp [Hazard.and, hx.reads hr]

/-- A hazard covers a line if it knows what the line itself does and everything it evaluates. -/
lemma covers_of_knows {line : Line} (hassigns : ∀ i, line.assigned? = some i → h.assigns = some i)
    (hchange : line.isChange = true → h.writesState = true)
    (hleaves : line.leaves = true → h.readsState = true)
    (hexprs : ∀ x ∈ line.exprs, h.Knows x) : h.Covers line where
  assigns := hassigns
  writes hc := by
    rw [Line.changesState, Bool.or_eq_true, List.any_eq_true] at hc
    rcases hc with hc | ⟨x, hx, he⟩
    · exact hchange hc
    · exact (hexprs x hx).effects he
  reads hr := by
    rw [Line.readsState, Bool.or_eq_true, List.any_eq_true] at hr
    rcases hr with ⟨x, hx, he⟩ | hl
    · exact (hexprs x hx).reads he
    · exact hleaves hl

/-- The assignment of a temporary does what the evaluation of its value does. -/
lemma covers_assign_temp (t : Nat) (hx : h.Knows x) : h.Covers (.run (.assign (.temp t) x)) :=
  covers_of_knows (fun _ hi => by cases hi) (fun hc => by cases hc) (fun hl => by cases hl)
    (by simpa [Line.exprs, Stmt.exprs] using hx)

end Hazard

end WasmToC

import WasmToC.Proofs.Building
import WasmToC.Proofs.Calls
import WasmToC.Proofs.PendingSafety

/-!
# The order of operands never matters

C leaves open in which order the operands of a call or operator are evaluated. While a body is
read, operands that could observe each other are put into temporaries before they become operands of
one call or operator. So in everything that waits and everything that is written, an operand that
calls or grows the memory stands beside operands that neither read globals or memory nor call.

## Main definitions

* `C.Unobserved` — operands of which none can observe another.
* `C.Expr.OrderFree`, `C.Line.OrderFree` — expressions and lines that mean the same
  in any order.

## Main results

* `C.Expr.Built.orderFree` — expressions that are built are free of order.
* `operand_order_never_matters` — so is everything that waits or is written, for every body.
-/

namespace WasmToC

open List

namespace C

/-- The operands that are evaluated in an order that is left open, as often as the text shows them.
A choice evaluates its condition first and then one of its values. -/
def Expr.unsequenced : Expr → List Expr
  | .memoryGrow delta => [delta]
  | .load _ addr _ => [addr]
  | .call _ args => args
  | .numeric op args => (template op).holes.filterMap fun i => args[i]?
  | _ => []

/-- Where one operand calls or grows the memory, no other one reads a global or memory, calls or
grows the memory. -/
def Unobserved (es : List Expr) : Prop :=
  ∀ (i j : Nat) (a b : Expr), i ≠ j → es[i]? = some a → es[j]? = some b → a.effects = true →
    b.reads = false ∧ b.effects = false

/-- Nowhere in an expression does the order of operands matter. -/
def Expr.OrderFree (e : Expr) : Prop := ∀ part ∈ e.parts, Unobserved part.unsequenced

/-- Nowhere in a line does the order of operands matter. -/
structure Line.OrderFree (line : Line) : Prop where
  /-- The operands of the call or store that the line makes. -/
  operands : Unobserved line.operands
  /-- The expressions in the line. -/
  exprs : ∀ x ∈ line.exprs, x.OrderFree

/-- Operands that are compatible do not observe each other. -/
lemma unobserved_of_pairwise {es : List Expr} (h : es.Pairwise Expr.Compatible) :
    Unobserved es := by
  rw [pairwise_iff_getElem] at h
  intro i j a b hne ha hb heffects
  obtain ⟨hi, rfl⟩ := List.getElem?_eq_some_iff.mp ha
  obtain ⟨hj, rfl⟩ := List.getElem?_eq_some_iff.mp hb
  have hdepends : es[j].depends = false := by
    rcases Nat.lt_or_gt_of_ne hne with hlt | hlt
    · exact (h i j hi hj hlt).1 heffects
    · exact (h j i hj hi hlt).2 heffects
  simpa [Expr.depends] using hdepends

lemma filterMap_range_getElem? {α : Type} (l : List α) :
    (List.range l.length).filterMap (fun i => l[i]?) = l := by
  induction l with
  | nil => rfl
  | cons a l ih =>
    rw [length_cons, range_succ_eq_map, filterMap_cons, filterMap_map]
    simpa [Function.comp_def] using ih

/-- The text of a numeric instruction shows each operand once. -/
lemma Expr.unsequenced_numeric {op : Numeric} {args : List Expr}
    (h : args.length = op.shape.arity) : (Expr.numeric op args).unsequenced = args := by
  rw [unsequenced, holes_template, ← h, filterMap_range_getElem?]

/-- The operands of an expression that is built do not observe each other. -/
lemma Expr.IsApplied.unobserved {e : Expr} (h : e.IsApplied) : Unobserved e.unsequenced := by
  cases e with
  | const | zero | var | temp | global | memorySize | choose => exact unobserved_of_pairwise .nil
  | memoryGrow | load => exact unobserved_of_pairwise (pairwise_singleton _ _)
  | call f args => exact unobserved_of_pairwise h
  | numeric op args =>
    rw [Expr.unsequenced_numeric h.1]
    exact unobserved_of_pairwise h.2

/-- **In an expression that is built, the order of operands never matters.** -/
theorem Expr.Built.orderFree {e : Expr} (h : e.Built) : e.OrderFree := by
  induction h with
  | @intro e happlied _ ih =>
    intro part hpart
    rw [Expr.parts_eq, mem_cons] at hpart
    rcases hpart with rfl | hpart
    · exact happlied.unobserved
    · obtain ⟨a, ha, hpart⟩ := mem_flatMap.mp hpart
      exact ih a ha part hpart

lemma Line.Built.orderFree {line : Line} (h : line.Built) : line.OrderFree :=
  ⟨unobserved_of_pairwise h.operands, fun x hx => (h.exprs x hx).orderFree⟩

end C

/-- **The order of operands never matters.** Let a body be read up to any point, in any
surroundings. In every expression that waits there and in every line that has been written, also in
those that the end of the body adds, an operand of a call, store or operator that calls or grows the
memory stands beside operands that neither read a global or memory, nor call, nor grow the
memory. -/
theorem operand_order_never_matters {env : Surroundings} {code : List Instruction} {r : Rebuild}
    (hrun : (Rebuild.run env code {}).outcome = .ok r) :
    (∀ v ∈ r.pendings, v.expr.OrderFree) ∧ (∀ line ∈ r.lines, line.OrderFree) ∧
      ∀ r1, r.finish env = .ok r1 → ∀ line ∈ r1.lines, line.OrderFree := by
  have hbuilt := Rebuild.allBuilt_of_run hrun
  refine ⟨fun v hv => (hbuilt.pendings v hv).orderFree,
    fun line hline => (hbuilt.lines line hline).orderFree, fun r1 hfinish line hline => ?_⟩
  obtain ⟨-, hfinishes⟩ := Rebuild.finishes_of_finish hfinish
  exact ((hbuilt.finishes hfinishes).lines line hline).orderFree

/-- Three calls, of which the results of two are added and stored where the first one says, and a
fourth one. -/
def callsInTurn : List Instruction :=
  [⟨.getLocal, .index 0⟩, ⟨.call, .index 0⟩, ⟨.getLocal, .index 0⟩, ⟨.call, .index 0⟩,
    ⟨.getLocal, .index 0⟩, ⟨.call, .index 0⟩, ⟨.numeric .i32Add, .none⟩,
    ⟨.store .i32Store, .memory 2 0⟩, ⟨.getLocal, .index 0⟩, ⟨.call, .index 0⟩]

/-- Two results are saved, and with the store and the call at the end there are four lines. -/
theorem operand_order_never_matters_callsInTurn :
    ∃ r r1 : Rebuild, (Rebuild.run callsItself callsInTurn {}).outcome = .ok r ∧
      r.finish callsItself = .ok r1 ∧ r.pendings.length = 1 ∧ r1.lines.length = 4 ∧
      (∀ v ∈ r.pendings, v.expr.OrderFree) ∧ ∀ line ∈ r1.lines, line.OrderFree :=
  have hrun := operand_order_never_matters
    (show (Rebuild.run callsItself callsInTurn {}).outcome = _ from rfl)
  ⟨_, _, rfl, rfl, rfl, rfl, hrun.1, hrun.2.2 _ rfl⟩

end WasmToC

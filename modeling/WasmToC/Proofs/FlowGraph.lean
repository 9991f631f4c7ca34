import Mathlib.Logic.Relation
import WasmToC.Wasm.Instruction

/-!
# The control-flow graph of a body

The positions of a body are the nodes of a graph. Control goes from an instruction to the one
behind it, unless it is a branch that is always taken, a return, a trap, or the `else` at the end of
a first arm; a branch leads to the top of a loop, or behind the `end` of another construct; a
conditional leads to either arm, and behind its `end` if it has one arm only. Leaving the function
leads to no position.

## Main definitions

* `openAt` — the constructs that are open at a position.
* `EndOf`, `ElseOf`, `BranchesTo` — the `end` and the `else` of a construct,
  and the branches to it.
* `Flows`, `CanReach` — the edges of the graph, and the positions that can be
  reached from the start.
-/

namespace WasmToC

open List

/-- Whether control can go on behind an instruction. The `else` at the end of a first arm leads
behind the conditional. -/
def Opcode.fallsThrough : Opcode → Bool
  | .br | .brTable | .returnOp | .unreachable | .elseOp => false
  | _ => true

/-- The depths of all labels that an instruction may branch to. -/
def Instruction.branchDepths (i : Instruction) : List Nat :=
  match i.op with
  | .br | .brIf => i.imm.depth?.toList
  | .brTable =>
    match i.imm with
    | .table targets default => targets ++ [default]
    | _ => []
  | _ => []

variable (code : List Instruction)

/-- The opcode at a position. -/
def opAt? (p : Nat) : Option Opcode := code[p]?.map Instruction.op

/-- The positions of the constructs that are open in front of a position, the innermost first. -/
def openAt : Nat → List Nat
  | 0 => []
  | p + 1 =>
    match opAt? code p with
    | some .block | some .loop | some .ifOp => p :: openAt p
    | some .endOp => (openAt p).tail
    | _ => openAt p

/-- The `end` of the construct at a position. -/
def EndOf (q e : Nat) : Prop := opAt? code e = some .endOp ∧ (openAt code e).head? = some q

/-- An `else` of the construct at a position. -/
def ElseOf (q s : Nat) : Prop := opAt? code s = some .elseOp ∧ (openAt code s).head? = some q

/-- The instruction at a position may branch to the construct at another one. -/
def BranchesTo (p q : Nat) : Prop :=
  ∃ i d, code[p]? = some i ∧ d ∈ i.branchDepths ∧ (openAt code p)[d]? = some q

/-- The edges of the control-flow graph. -/
inductive Flows : Nat → Nat → Prop
  /-- Control goes on behind an instruction. -/
  | next {p : Nat} {op : Opcode} (hop : opAt? code p = some op) (h : op.fallsThrough = true) :
      Flows p (p + 1)
  /-- A conditional leads to its second arm. -/
  | secondArm {p s : Nat} (hop : opAt? code p = some .ifOp) (helse : ElseOf code p s) :
      Flows p (s + 1)
  /-- A conditional without a second arm can be bypassed. -/
  | bypass {p e : Nat} (hop : opAt? code p = some .ifOp) (hno : ∀ s, ¬ElseOf code p s)
      (hend : EndOf code p e) : Flows p (e + 1)
  /-- The end of a first arm leads behind the conditional. -/
  | firstArm {q s e : Nat} (helse : ElseOf code q s) (hend : EndOf code q e) : Flows s (e + 1)
  /-- A branch to a loop leads to its top. -/
  | back {p q : Nat} (h : BranchesTo code p q) (hop : opAt? code q = some .loop) : Flows p q
  /-- A branch to another construct leads behind its end. -/
  | out {p q e : Nat} (h : BranchesTo code p q) (hop : opAt? code q ≠ some .loop)
      (hend : EndOf code q e) : Flows p (e + 1)

/-- The positions that can be reached from the start of the body. -/
def CanReach (p : Nat) : Prop := Relation.ReflTransGen (Flows code) 0 p

variable {code} {p q e : Nat}

/-! ## Constructs that are open -/

/-- What is open behind an instruction has been opened by it, or was open before. -/
lemma openAt_succ (code : List Instruction) (p : Nat) :
    openAt code (p + 1) = p :: openAt code p ∨ openAt code (p + 1) = openAt code p ∨
      openAt code (p + 1) = (openAt code p).tail := by
  simp only [openAt]
  split <;> simp

lemma openAt_opens {op : Opcode} (hop : opAt? code p = some op) (h : op.opensConstruct = true) :
    openAt code (p + 1) = p :: openAt code p := by
  cases op <;> simp [Opcode.opensConstruct] at h <;> simp [openAt, hop]

lemma openAt_endOp (hop : opAt? code p = some .endOp) :
    openAt code (p + 1) = (openAt code p).tail := by
  simp [openAt, hop]

lemma openAt_other {op : Opcode} (hop : opAt? code p = some op)
    (hopen : op.opensConstruct = false) (hend : op ≠ .endOp) :
    openAt code (p + 1) = openAt code p := by
  cases op <;> simp_all [openAt, Opcode.opensConstruct]

/-- A construct that is open has been opened before. -/
lemma lt_of_mem_openAt (h : q ∈ openAt code p) : q < p := by
  induction p with
  | zero => cases h
  | succ p ih =>
    rcases openAt_succ code p with hsucc | hsucc | hsucc <;> rw [hsucc] at h
    · rcases mem_cons.mp h with rfl | h
      · exact Nat.lt_succ_self q
      · exact Nat.lt_succ_of_lt (ih h)
    · exact Nat.lt_succ_of_lt (ih h)
    · exact Nat.lt_succ_of_lt (ih (mem_of_mem_tail h))

/-- The constructs that are open are different. -/
lemma nodup_openAt (code : List Instruction) (p : Nat) : (openAt code p).Nodup := by
  induction p with
  | zero => exact nodup_nil
  | succ p ih =>
    rcases openAt_succ code p with hsucc | hsucc | hsucc <;> rw [hsucc]
    · exact nodup_cons.mpr ⟨fun h => Nat.lt_irrefl p (lt_of_mem_openAt h), ih⟩
    · exact ih
    · exact ih.sublist (tail_sublist _)

/-- So each has one place among them. -/
lemma eq_of_getElem?_openAt {j k : Nat} (hj : (openAt code p)[j]? = some q)
    (hk : (openAt code p)[k]? = some q) : j = k := by
  have hlt := (List.getElem?_eq_some_iff.mp hj).1
  exact (getElem?_inj hlt (nodup_openAt code p)).mp (hj.trans hk.symm)

/-- At its `end` a construct is open. -/
lemma EndOf.mem (h : EndOf code q e) : q ∈ openAt code e := mem_of_mem_head? h.2

lemma ElseOf.mem {s : Nat} (h : ElseOf code q s) : q ∈ openAt code s := mem_of_mem_head? h.2

/-- Behind its `end` a construct is not open. -/
lemma le_of_endOf (hend : EndOf code q e) (h : q ∈ openAt code p) : p ≤ e := by
  -- induction on the distance behind the end: only new constructs are opened there
  have hclosed (k : Nat) : q ∉ openAt code (e + 1 + k) := by
    induction k with
    | zero =>
      obtain ⟨rest, hr⟩ : ∃ rest, openAt code e = q :: rest := by
        rw [← head?_eq_some_iff]
        exact hend.2
      have hnodup := nodup_openAt code e
      rw [Nat.add_zero, openAt_endOp hend.1, hr]
      rw [hr] at hnodup
      exact (nodup_cons.mp hnodup).1
    | succ k ih =>
      have hlt : q < e := lt_of_mem_openAt hend.mem
      rw [← Nat.add_assoc]
      rcases openAt_succ code (e + 1 + k) with hsucc | hsucc | hsucc <;> rw [hsucc]
      · exact fun h => (mem_cons.mp h).elim (by omega) ih
      · exact ih
      · exact fun h => ih (mem_of_mem_tail h)
  refine Nat.le_of_not_lt fun hlt => hclosed (p - (e + 1)) ?_
  rwa [Nat.add_sub_cancel' hlt]

end WasmToC

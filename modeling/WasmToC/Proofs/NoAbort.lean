import WasmToC.Proofs.Lockstep
import WasmToC.Proofs.Names
import WasmToC.Proofs.Parentheses
import WasmToC.Unit.Assemble

/-!
# There is always an answer

Whatever a module holds, its translation ends with a text or with an error that says why there is
none. Writing a function line by line, with every access checked, gives the same answer: no index,
slice or difference is out of range.

## Main definitions

* `IsAnswered` — there is a result or an error.
* `Errs` — what a computation fails with, but for broken rules.

## Main results

* `isAnswered_rebuildFunction` — functions.
* `isAnswered_translation` — modules.
-/

namespace WasmToC

/-- There is a result, or an error that says why there is none. -/
def IsAnswered {α : Type} (x : Except Failure α) : Prop :=
  (∃ a, x = .ok a) ∨ ∃ e, x = .error (.error e)

section IsAnswered

variable {α β : Type} {x : Except Failure α}

/-- A result is an answer. -/
lemma isAnswered_ok (a : α) : IsAnswered (.ok a : Except Failure α) := .inl ⟨a, rfl⟩

/-- So is an error. -/
lemma isAnswered_error (e : Error) : IsAnswered (.error (.error e) : Except Failure α) :=
  .inr ⟨e, rfl⟩

/-- What is followed without aborts gives an answer. -/
lemma Follows.isAnswered {R : α → β → Prop} {y : Except Failure β} (h : Follows False R x y) :
    IsAnswered x := by
  cases h with
  | ok => exact isAnswered_ok _
  | error e => exact isAnswered_error e
  | stop hstops => exact hstops.elim

/-- Computations that follow each other with equal results are the same. -/
lemma Follows.eq {y : Except Failure α} (h : Follows False Eq x y) : y = x := by
  cases h with
  | ok h => rw [h]
  | error e => rfl
  | stop hstops => exact hstops.elim

/-- What a computation fails with is a broken rule, or one of the failures `E`. -/
def Errs (E : Failure → Prop) (x : Except Failure α) : Prop :=
  ∀ f, x = .error f → (∃ why, f = .error (.invalid why)) ∨ E f

variable {E : Failure → Prop}

/-- A result is no error. -/
lemma Errs.ok (a : α) : Errs E (.ok a) := by
  rintro f ⟨⟩

/-- A module may always be invalid. -/
lemma Errs.invalid (why : Invalid) :
    Errs E (.error (.error (.invalid why)) : Except Failure α) := by
  rintro f ⟨⟩
  exact .inl ⟨why, rfl⟩

/-- Two steps fail as each of them does. -/
lemma Errs.bind {f : α → Except Failure β} (h : Errs E x) (hf : ∀ a, Errs E (f a)) :
    Errs E (x >>= f) := by
  cases x with
  | ok a => exact hf a
  | error failure =>
    rintro _ ⟨⟩
    exact h failure rfl

/-- So do two steps that leave records. -/
lemma Errs.bindTraced {x : Traced α} {f : α → Traced β} (h : Errs E x.outcome)
    (hf : ∀ a, Errs E (f a).outcome) : Errs E (x >>= f).outcome := by
  rw [Traced.outcome_bind]
  exact h.bind hf

/-- Whatever does not stop without a diagnosis is answered. -/
lemma isAnswered_iff : IsAnswered x ↔ Errs (· ≠ .abort) x := by
  constructor
  · rintro (⟨a, rfl⟩ | ⟨e, rfl⟩)
    · exact .ok a
    · rintro _ ⟨⟩
      exact .inr nofun
  · intro h
    cases x with
    | ok a => exact isAnswered_ok a
    | error f =>
      cases f with
      | error e => exact isAnswered_error e
      | abort =>
        obtain ⟨_, hinvalid⟩ | hne := h _ rfl
        · cases hinvalid
        · exact absurd rfl hne

end IsAnswered

/-! ## Declarations

What these computations fail with is a broken rule. -/

variable {E : Failure → Prop}

/-- Declaring imports. -/
lemma errs_externsFrom (ts : List FuncType) (functions globals tables : Nat)
    (imports : List Import) : Errs E (externsFrom ts functions globals tables imports) := by
  induction imports generalizing functions globals tables with
  | nil => exact .ok _
  | cons i rest ih =>
    rw [externsFrom]
    split
    · split
      · exact (ih _ _ _).bind fun _ => .ok _
      · exact .invalid _
    · exact (ih _ _ _).bind fun _ => .ok _
    · exact (ih _ _ _).bind fun _ => .ok _
    · exact ih _ _ _

/-- Declaring functions. -/
lemma errs_prototypesFrom (m : Module) (index : Nat) (functions : List Function) :
    Errs E (prototypesFrom m index functions) := by
  induction functions generalizing index with
  | nil => exact .ok _
  | cons f rest ih =>
    rw [prototypesFrom]
    split
    · exact (ih _).bind fun _ => .ok _
    · exact .invalid _

/-! ## The initializer -/

/-- Reading a constant expression. -/
lemma errs_initExpr (i : Instruction) : Errs E (initExpr i) := by
  unfold initExpr
  split <;> split
  · exact .ok _
  · exact .invalid _
  · exact .ok _
  · exact .invalid _

/-- Initializing globals. -/
lemma errs_globalSteps (index : Nat) (globals : List Global) :
    Errs E (globalSteps index globals) := by
  induction globals generalizing index with
  | nil => exact .ok _
  | cons g rest ih =>
    exact (errs_initExpr _).bind fun _ => (ih _).bind fun _ => .ok _

/-- Copying segments. -/
lemma errs_segmentSteps (segments : List Segment) : Errs E (segmentSteps segments) := by
  induction segments with
  | nil => exact .ok _
  | cons e rest ih =>
    rw [segmentSteps]
    split
    · exact ih
    · exact (errs_initExpr _).bind fun _ => ih.bind fun _ => .ok _

/-- Calling the start function. -/
lemma errs_hookSteps (m : Module) : Errs E (hookSteps m).outcome := by
  unfold hookSteps
  split
  · exact .ok _
  · split
    · exact .ok _
    · exact .ok _

/-- Writing the initializer. -/
lemma errs_initializer (m : Module) (o : Options) : Errs E (initializer m o).outcome :=
  Errs.bindTraced (errs_globalSteps _ _) fun _ =>
    Errs.bindTraced (errs_segmentSteps _) fun _ =>
      (errs_hookSteps m).bindTraced fun _ => .ok _

/-! ## Functions -/

/-- **A function is answered**, whatever its code, as long as that has fewer instructions than there
are numbers for labels. -/
theorem isAnswered_rebuildFunction {m : Module} (hcode : ∀ f ∈ m.functions, f.code.length < 2 ^ 32)
    {pos : Nat} (hposition : pos < m.functions.length) :
    IsAnswered (rebuildFunction m pos).outcome := by
  have hf := List.getElem?_eq_getElem hposition
  have htext := (follows_writeFunction m (C.Symbols.ofModule m {}) hf
    (hcode _ (List.getElem_mem hposition))).isAnswered
  rw [functionText, Traced.outcome_bind] at htext
  cases houtcome : (rebuildFunction m pos).outcome with
  | ok f => exact isAnswered_ok f
  | error failure =>
    cases failure with
    | error e => exact isAnswered_error e
    | abort =>
      rw [houtcome] at htext
      rcases htext with ⟨_, h⟩ | ⟨_, h⟩ <;> cases h

/-- Functions fail as each of them does. -/
lemma errs_rebuildFrom (m : Module) {n pos : Nat}
    (hE : ∀ p < m.functions.length, Errs E (rebuildFunction m p).outcome)
    (hn : pos + n ≤ m.functions.length) :
    Errs E (rebuildFrom m n pos).outcome := by
  induction n generalizing pos with
  | zero => exact .ok _
  | succ n ih =>
    exact .bindTraced (hE pos (by omega)) fun _ => .bindTraced (ih (by omega)) fun _ => .ok _

/-! ## Symbols -/

/-- Only the counting of suffixes may abort. -/
lemma errs_takeAll (hE : E .abort) (last : Nat) (fixed? : Nat → Option String)
    (wanted : Nat → String) (is : List Nat) (a : C.Allotment) :
    Errs E (a.takeAll last fixed? wanted is) := by
  induction is generalizing a with
  | nil => exact .ok _
  | cons i is ih =>
    refine Errs.bind ?_ fun _ => (ih _).bind fun _ => .ok _
    cases fixed? i with
    | some name => exact .ok _
    | none => exact fun f hf => .inr ((C.Allotment.take_eq_error.mp hf).1 ▸ hE)

/-- Where symbols cannot be allotted, the run stops. -/
lemma errs_allot (hE : E .abort) (m : Module) (o : Options) : Errs E (C.Symbols.allot m o) := by
  refine Errs.bind (fun f hf => .inr ((C.Allotment.take_eq_error.mp hf).1 ▸ hE)) fun _ => ?_
  refine (errs_takeAll hE _ _ _ _ _).bind fun _ => ?_
  refine (errs_takeAll hE _ _ _ _ _).bind fun _ => ?_
  exact (errs_takeAll hE _ _ _ _ _).bind fun _ => .ok _

/-! ## Modules -/

/-- **What a module fails with** one of its functions fails with, but for broken rules. -/
theorem errs_emit (m : Module) (o : Options) (hallot : Errs E (C.Symbols.allot m o))
    (hE : ∀ p < m.functions.length, Errs E (rebuildFunction m p).outcome) :
    Errs E (emit m o).outcome := by
  refine .bindTraced ?_ fun _ => .ok _
  refine .bindTraced hallot fun _ => ?_
  refine .bindTraced (.ok _) fun _ => ?_
  refine .bindTraced (errs_externsFrom _ _ _ _ _) fun _ => ?_
  refine .bindTraced (errs_prototypesFrom _ _ _) fun _ => ?_
  refine .bindTraced (errs_initializer m o) fun _ => ?_
  exact .bindTraced (errs_rebuildFrom m hE (Nat.zero_add _).le) fun _ => .ok _

/-- **Translation always ends with an answer.** A module, and each of its own functions, is
translated or refused with an error, whatever it holds: any opcodes and immediates, code that does
not nest, indices out of range or types that are missing. Only where a module has used up all
suffixes of 32 bits, and so has as many names, the run stops. Writing a function line by line gives
the same answer, although it stops at every index, slice, insertion or difference that is out of
range, and at every operand of a spelling that is not there. So does counting the parentheses of an
operand.

**Proof sketch.** The checked writer follows the reconstruction instruction by instruction
(`follows_writeFunction`): what it indexes, slices and takes off its stack is there by the invariant
that relates its lines and its stack to the scopes. Everything else that a module is translated by
fails with broken rules only. -/
theorem isAnswered_translation (m : Module) (o : Options)
    (hcode : ∀ f ∈ m.functions, f.code.length < 2 ^ 32) :
    (C.Symbols.allot m o ≠ .error .abort → IsAnswered (emit m o).outcome) ∧
    (C.nameCount m < 2 ^ 31 → C.Symbols.allot m o ≠ .error .abort) ∧
    (∀ (s : C.Symbols) (pos : Nat), pos < m.functions.length →
      IsAnswered (functionText m s pos).outcome ∧
        writeFunction m s pos = (functionText m s pos).outcome) ∧
    ∀ text, Checked.isTight text = .ok (C.isTight text) := by
  refine ⟨fun hallot => ?_, fun hnames => ?_, fun s pos hposition => ?_, Checked.isTight_eq⟩
  · exact isAnswered_iff.2 (errs_emit m o (fun f hf => .inr fun habort => hallot (habort ▸ hf))
      fun p hp => isAnswered_iff.1 (isAnswered_rebuildFunction hcode hp))
  · obtain ⟨w, hw⟩ := C.Symbols.exists_allot (Nat.le_pred_of_lt hnames) o
    rw [hw]
    rintro ⟨⟩
  have hfollows := follows_writeFunction m s (List.getElem?_eq_getElem hposition)
    (hcode _ (List.getElem_mem hposition))
  exact ⟨hfollows.isAnswered, hfollows.eq⟩

/-- A module whose functions end constructs that are not open, take operands that are not there,
branch out of range, open a conditional with the immediate of another instruction, and lack a
type. -/
def strayModule : Module where
  types := [⟨[], none⟩]
  signatures := [0, 0, 0, 7]
  functions := [ ⟨0, [], [⟨.elseOp, .none⟩, ⟨.endOp, .none⟩]⟩,
    ⟨0, [], [⟨.br, .depth 5⟩, ⟨.block, .block none⟩]⟩,
    ⟨0, [], [⟨.ifOp, .index 3⟩, ⟨.numeric .i32Add, .none⟩]⟩,
    ⟨7, [], []⟩]

theorem isAnswered_strayModule : (∀ f ∈ strayModule.functions, f.code.length < 2 ^ 32) ∧
    IsAnswered (emit strayModule {}).outcome ∧
    (∀ (s : C.Symbols) (pos : Nat), pos < strayModule.functions.length →
      IsAnswered (functionText strayModule s pos).outcome ∧
        writeFunction strayModule s pos = (functionText strayModule s pos).outcome) ∧
    ∀ text, Checked.isTight text = .ok (C.isTight text) :=
  have hcode : ∀ f ∈ strayModule.functions, f.code.length < 2 ^ 32 := by
    simp [strayModule]
  have h := isAnswered_translation strayModule {} hcode
  ⟨hcode, h.1 (h.2.1 (by decide)), h.2.2⟩

end WasmToC

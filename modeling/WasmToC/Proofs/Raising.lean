import WasmToC.Proofs.Decoded
import WasmToC.Proofs.NoAbort

/-!
# Where errors are raised

What is not supported stands in a body or in a section of another kind. In a body it names the
function with the body's index, whether the body is being decoded or rebuilt.

## Main definitions

* `Module.Raises` — an error, and the function in which it is raised.

## Main results

* `errs_rebuildFunction` — what is not supported in a function.
* `Section.code_eq_unsupported`, `Module.raises_of_decode` — in a code section and
  in an input.
* `errors_of_decode_emit` — the errors of decoding and of rebuilding.
-/

namespace WasmToC

open Reader

namespace Errs

variable {α : Type} {E : Failure → Prop} {x y : Except Failure α}

/-- A choice fails as its two sides do. -/
lemma ite {c : Prop} [Decidable c] (hx : Errs E x) (hy : Errs E y) :
    Errs E (if c then x else y) := by
  split
  · exact hx
  · exact hy

/-- A part that is not there makes the module invalid. -/
lemma need {site : Site} (part : Option α) (fault : BodyFault) : Errs E (site.need part fault) := by
  cases part with
  | none => exact invalid _
  | some a => exact ok a

end Errs

/-! ## Instructions

What these computations fail with is a broken rule, unless a lemma says more. -/

namespace Rebuild

variable {E : Failure → Prop} {site : Site} {r : Rebuild}

/-- Taking an operand. -/
lemma errs_pop : Errs E (r.pop site) := by
  unfold pop
  split
  · exact .invalid _
  · exact .ok _

/-- Taking an operand of a type. -/
lemma errs_popTyped (t : ValueType) : Errs E (r.popTyped site t) := by
  refine errs_pop.bind ?_
  rintro ⟨v, r⟩
  exact .ite (.ok _) (.invalid _)

/-- Looking at an operand of a type. -/
lemma errs_peekTyped (t : ValueType) : Errs E (r.peekTyped site t) :=
  (errs_popTyped t).bind fun _ => .ok _

/-- Taking operands of given types. -/
lemma errs_popEach (ts : List ValueType) (taken : List Pending) :
    Errs E (popEach site ts taken r) := by
  induction ts generalizing taken r with
  | nil => exact .ok _
  | cons t ts ih => exact (errs_popTyped t).bind fun _ => ih _

/-- Finding the target of a branch. -/
lemma errs_target (d : Nat) : Errs E (r.target site d) := by
  unfold target
  split
  · exact .ok _
  · exact .ite (.ok _) (.invalid _)

/-- Letting a value fall through. -/
lemma errs_fallThrough (res : Option ValueType) : Errs E (r.fallThrough site res) := by
  refine .ite (.ite (.invalid _) ?_) (.ok _)
  cases res with
  | none => exact .ok _
  | some t => exact (errs_popTyped t).bind fun _ => .ok _

/-- Ending the first arm. -/
lemma errs_switchArm : Errs E (r.switchArm site) := by
  unfold switchArm
  split
  · exact .invalid _
  · split
    · exact (errs_fallThrough _).bind fun _ => .ok _
    · exact .invalid _

/-- Ending a construct. -/
lemma errs_close : Errs E (r.close site) := by
  unfold close
  split
  · exact .invalid _
  · refine (errs_fallThrough _).bind fun p => ?_
    dsimp only
    split
    · exact .ok _
    · refine .ite (.invalid _) ?_
      split
      · exact .ite ((Errs.need _ _).bind fun _ => .ok _) (.ok _)
      · exact .ok _

/-- Leaving the function. -/
lemma errs_leave : Errs E (r.leave site) := by
  unfold leave
  split
  · exact (errs_popTyped _).bind fun _ => .ok _
  · exact .ok _

/-- Branching. -/
lemma errs_branch (d : Nat) : Errs E (r.branch site d) := by
  refine (errs_target d).bind fun found => ?_
  cases found with
  | none => exact errs_leave
  | some c =>
    dsimp only
    cases carriedType c with
    | none => exact .ok _
    | some t => exact (errs_popTyped t).bind fun _ => .ok _

/-- Branching on a condition. -/
lemma errs_branchIf (d : Nat) : Errs E (r.branchIf site d) := by
  refine (errs_popTyped .i32).bind fun p => (errs_target d).bind fun found => ?_
  cases found with
  | none =>
    dsimp only
    cases site.around.type.result with
    | none => exact .ok _
    | some t => exact (errs_peekTyped t).bind fun _ => .ok _
  | some c =>
    dsimp only
    cases carriedType c with
    | none => exact .ok _
    | some t => exact (errs_peekTyped t).bind fun _ => .ok _

/-- A table of targets is the one thing that is not supported. -/
lemma errs_branchTable (imm : Immediate)
    (hE : ∀ op what, E (.error (.unsupported (some site.around.index) op what))) :
    Errs E (r.branchTable site imm) := by
  unfold branchTable
  split
  · exact (errs_popTyped _).bind fun _ => errs_branch _
  · rintro e ⟨⟩
    exact .inr (hE _ _)
  · exact .invalid _

/-- Counting operands. -/
lemma errs_require (n : Nat) : Errs E (r.require site n) :=
  .ite (.invalid _) (.ok _)

/-- Taking the arguments of a call. -/
lemma errs_popArgs (ts : List ValueType) : Errs E (r.popArgs site ts) :=
  errs_popEach _ _

/-- Calling a function. -/
lemma errs_call (index : Nat) : Errs E (r.call site index) := by
  refine (Errs.need _ _).bind fun t => (errs_require _).bind fun _ => ?_
  refine (errs_popArgs _).bind fun p => ?_
  dsimp only
  cases t.result <;> exact .ok _

/-- Calling through the table. -/
lemma errs_callIndirect (index : Nat) : Errs E (r.callIndirect site index) := by
  refine (Errs.need _ _).bind fun t => (errs_popTyped _).bind fun _ => ?_
  refine (errs_popArgs _).bind fun p => ?_
  dsimp only
  cases t.result <;> exact .ok _

/-- Choosing an operand. -/
lemma errs_select : Errs E (r.select site) :=
  (errs_require _).bind fun _ => (errs_popTyped _).bind fun _ =>
    errs_pop.bind fun _ => (errs_popTyped _).bind fun _ => .ok _

/-- Assigning a local. -/
lemma errs_assignLocal (index : Nat) (keep : Bool) : Errs E (r.assignLocal site index keep) :=
  (Errs.need _ _).bind fun _ => (errs_popTyped _).bind fun _ => .ok _

/-- Assigning a global. -/
lemma errs_assignGlobal (index : Nat) : Errs E (r.assignGlobal site index) :=
  (Errs.need _ _).bind fun _ => .ite (.invalid _) ((errs_popTyped _).bind fun _ => .ok _)

/-- Writing memory. -/
lemma errs_store (op : Store) (off : Nat) : Errs E (r.store site op off) :=
  (errs_require _).bind fun _ => (errs_popTyped _).bind fun _ =>
    (errs_popTyped _).bind fun _ => .ok _

/-- Computing; the number of operands may be wrong, which aborts. -/
lemma errs_numeric (habort : E .abort) (op : Numeric) : Errs E (r.numeric site op) :=
  (errs_require _).bind fun _ => (errs_popArgs _).bind fun _ =>
    .ite (.ok _) fun _ h => .inr (Except.error.inj h ▸ habort)

/-- Starting a construct. -/
lemma errs_enter (op : Opcode) (res : Option ValueType) : Errs E (r.enter site op res) := by
  unfold enter
  split
  · exact .ok _
  · exact (errs_popTyped _).bind fun _ => .ok _
  · exact .ok _

/-- An instruction that is reached may also be unsupported. -/
lemma errs_stepLive (habort : E .abort)
    (hE : ∀ op what, E (.error (.unsupported (some site.around.index) op what)))
    (imm : Immediate) :
    Errs E (r.stepLive site imm) := by
  unfold stepLive
  split
  · exact .ok _
  · exact .ok _
  · exact (Errs.need _ _).bind fun _ => errs_enter _ _
  · exact (Errs.need _ _).bind fun _ => errs_enter _ _
  · exact (Errs.need _ _).bind fun _ => errs_enter _ _
  · exact errs_switchArm
  · exact errs_close
  · exact (Errs.need _ _).bind fun _ => errs_branch _
  · exact (Errs.need _ _).bind fun _ => errs_branchIf _
  · exact errs_branchTable _ hE
  · exact errs_leave
  · exact (Errs.need _ _).bind fun _ => errs_call _
  · split
    · exact errs_callIndirect _
    · exact .invalid _
  · exact errs_pop.bind fun _ => .ok _
  · exact errs_select
  · exact (Errs.need _ _).bind fun _ => (Errs.need _ _).bind fun _ => .ok _
  · exact (Errs.need _ _).bind fun _ => errs_assignLocal _ _
  · exact (Errs.need _ _).bind fun _ => errs_assignLocal _ _
  · exact (Errs.need _ _).bind fun _ => (Errs.need _ _).bind fun _ => .ok _
  · exact (Errs.need _ _).bind fun _ => errs_assignGlobal _
  · exact .ok _
  · exact (errs_popTyped _).bind fun _ => .ok _
  · exact (Errs.need _ _).bind fun _ => .ok _
  · exact (Errs.need _ _).bind fun _ => (errs_popTyped _).bind fun _ => .ok _
  · exact (Errs.need _ _).bind fun _ => errs_store _ _
  · exact errs_numeric habort _

/-- So may any instruction. -/
lemma errs_step {env : Surroundings}
    (habort : E .abort) (hE : ∀ op what, E (.error (.unsupported (some env.index) op what)))
    (i : Instruction) :
    Errs E (r.step env i) := by
  unfold step
  split
  · exact errs_stepLive habort hE _
  · refine .ite (.ok _) ?_
    split
    · exact errs_switchArm
    · exact errs_close
    · exact .ok _
    · exact .ok _

/-- The errors of a body name its function. -/
lemma errs_run {env : Surroundings}
    (habort : E .abort) (hE : ∀ op what, E (.error (.unsupported (some env.index) op what)))
    (code : List Instruction) :
    Errs E (run env code r).outcome := by
  induction code generalizing r with
  | nil => exact .ok _
  | cons i rest ih =>
    rw [run]
    split
    · exact .bindTraced (.ok _) fun _ => .bindTraced (errs_step habort hE i) fun _ => ih
    · exact .bindTraced (errs_step habort hE i) fun _ => ih

/-- Ending the body. -/
lemma errs_finish (env : Surroundings) : Errs E (r.finish env) := by
  refine .ite (.invalid _) (.ite (.ok _) ?_)
  cases env.type.result with
  | none => exact .ite (.invalid _) (.ok _)
  | some t => exact .ite (.invalid _) ((errs_popTyped t).bind fun _ => .ok _)

end Rebuild

/-! ## Functions -/

/-- **A function that is rebuilt names itself**, where something is not supported. -/
theorem errs_rebuildFunction (m : Module) (pos : Nat) : Errs (fun f => f = .abort ∨
        ∃ op what, f = .error (.unsupported (some (m.importedFunctions + pos)) op what))
      (rebuildFunction m pos).outcome := by
  unfold rebuildFunction
  split
  · exact fun _ h => .inr (.inl (Except.error.inj h).symm)
  · dsimp only
    split
    · exact .invalid _
    · refine .bindTraced (Rebuild.errs_run (.inl rfl) ?_ _) fun r => ?_
      · exact fun op what => .inr ⟨op, what, rfl⟩
      · exact .bindTraced (Rebuild.errs_finish _) fun _ => .ok _

/-! ## Sections -/

section Unsupported

open Decoder Section WasmToC.Module

variable {m : Module} {s : Source} {function : Option Nat} {opcode : Option UInt8}
  {what : Unsupported} {e : Error} (he : e = .unsupported function opcode what)

/-- Bodies are read one after the other, from one position to another. -/
inductive Section.ReadsBodies (m : Module) : Nat → Source → Nat → Source → Prop
  | nil (pos : Nat) (s : Source) : ReadsBodies m pos s pos s
  | cons {pos q : Nat} {s s1 s2 : Source} {f : Function}
      (head : silent (sizedBody m pos) s = .ok (f, s1))
      (tail : ReadsBodies m (pos + 1) s1 q s2) : ReadsBodies m pos s q s2

/-- The contents of a code section are read up to the body at a position. -/
def Section.ReachesBody (m : Module) (s : Source) (pos : Nat) (s' : Source) : Prop :=
  ∃ s1, varuint 32 s = .ok (m.signatures.length, s1) ∧ pos < m.signatures.length ∧
    ReadsBodies m 0 s1 pos s'

/-- One more body. -/
def Section.nextBody (p : Module × Nat) : Decoder (Module × Nat) := do
  let f ← sizedBody p.1 p.2
  return ({ p.1 with functions := p.1.functions ++ [f] }, p.2 + 1)

/-- Bodies are read up to the one that is refused. No body depends on those before it. -/
lemma Section.bodies_eq_error {f : Failure} : ∀ {n pos : Nat} {functions : List Function}
    {s : Source},
    silent (iterate nextBody n ({ m with functions }, pos)) s = .error f →
    ∃ q s', q < pos + n ∧ ReadsBodies m pos s q s' ∧ silent (sizedBody m q) s' = .error f
  | 0, _, _, _, h => by cases h
  | n + 1, pos, functions, s, h => by
    rw [iterate, silent_bind] at h
    obtain hstep | ⟨p, s1, hstep, hr⟩ := bind_eq_error h
    · unfold nextBody at hstep
      rw [silent_bind] at hstep
      obtain hbody | ⟨_, _, _, hpure⟩ := bind_eq_error hstep
      · exact ⟨pos, s, by omega, .nil pos s, hbody⟩
      · cases hpure
    · unfold nextBody at hstep
      rw [silent_bind] at hstep
      obtain ⟨f, s2, hbody, hpure⟩ := Reader.bind_eq_ok hstep
      cases hpure
      obtain ⟨q, s', hq, hreads, he⟩ := bodies_eq_error hr
      exact ⟨q, s', by omega, .cons hbody hreads, he⟩

include he

/-- What is not supported is in one of the functions. -/
lemma Reader.Settles.names {α : Type} {F : Option Nat → Prop} {P : α → Prop} {r : Reader α}
    (h : Reader.Settles F P r) (hr : r s = .error (.error e)) : F function := by
  subst he
  obtain ⟨bytes, rest, a, hs, hreads⟩ | ⟨e, herror, hrevise | ⟨hin, -⟩⟩ :=
    outcome_of_answers h s
  · obtain ⟨_, ending⟩ := s
    obtain rfl := hs
    cases (hreads rest ending).symm.trans hr
  · cases herror.symm.trans hr
    exact hrevise.elim
  · cases herror.symm.trans hr
    exact hin

/-- **What is not supported in a code section** stands in one of its bodies, and names the function
with the body's index. -/
theorem Section.code_eq_unsupported (h : silent (code m) s = .error (.error e)) :
    ∃ pos s', function = some (m.importedFunctions + pos) ∧
      ReachesBody m s pos s' ∧ silent (sizedBody m pos) s' = .error (.error e) := by
  unfold code at h
  rw [silent_bind] at h
  obtain hcount | ⟨n, s1, hcount, hr⟩ := bind_eq_error h
  · exact ((settles_varuint (F := fun _ => False) 32).names he hcount).elim
  -- a wrong number of bodies is an error of another kind
  by_cases hsame : n ≠ m.signatures.length
  · rw [if_pos hsame] at hr
    cases hr
    cases he
  obtain rfl : n = m.signatures.length := Decidable.not_not.1 hsame
  rw [if_neg hsame, silent_bind] at hr
  obtain hbodies | ⟨p, s2, -, hpure⟩ := bind_eq_error hr
  · obtain ⟨pos, s', hlt, hreads, herror⟩ :=
      bodies_eq_error (m := m) hbodies
    rw [Nat.zero_add] at hlt
    have hfunction :=
      Reader.Settles.names he (settles_sizedBody (C := False) False.elim hlt) herror
    exact ⟨pos, s', hfunction, ⟨s1, hcount, hlt, hreads⟩, herror⟩
  · cases hpure

/-- What is not supported in a section is kept as it is. -/
lemma Decoder.eq_error_of_sectionError {α : Type} {d : Decoder α} {id : Nat}
    (h : silent (d.mapError (sectionError id)) s = .error (.error e)) :
    silent d s = .error (.error e) := by
  change (silent d s).mapError _ = _ at h
  cases hd : silent d s with
  | ok p =>
    rw [hd] at h
    cases h
  | error f =>
    rw [hd] at h
    cases f with
    | abort => cases h
    | error e' =>
      obtain rfl : sectionError id e' = e := Failure.error.inj (Except.error.inj h)
      unfold sectionError at he ⊢
      split at he
      · cases he
      · rw [if_neg ‹_›]

/-- What is not supported in a section is not supported in its contents. -/
lemma Section.payload_eq_unsupported {id : Nat}
    (h : silent (framedSection id m) s = .error (.error e)) :
    ∃ length s1, varuint 32 s = .ok (length, s1) ∧
      silent (payload id m) (s1.region length) = .error (.error e) := by
  unfold framedSection at h
  rw [silent_bind] at h
  obtain hlength | ⟨length, s1, hlength, hr⟩ := bind_eq_error h
  · have herror := eq_error_of_sectionError he hlength
    exact ((settles_varuint (F := fun _ => False) 32).names he herror).elim
  refine ⟨length, s1, eq_ok_of_mapError hlength, ?_⟩
  rw [silent_within_bind] at hr
  cases hpayload : silent ((payload id m).mapError (sectionError id)) (s1.region length) with
  | error f =>
    rw [hpayload] at hr
    cases hr
    exact eq_error_of_sectionError he hpayload
  | ok p =>
    rw [hpayload] at hr
    simp only [Except.bind] at hr
    split at hr
    · cases hr
      cases he
    · cases hr

/-! ## Whole inputs -/

omit he

/-- An input comes to a section, with the module that it has built by then. The contents end where
the section is declared to end. -/
def Module.ComesTo (bytes : List UInt8) (m : Module) (id : Nat) (contents : Source) : Prop :=
  ∃ fs b rest length s, (∀ f ∈ fs, f.IsFramed) ∧
    bytes = headerBytes ++ (framesBytes fs ++ b :: rest) ∧
    AddAll fs { version := Decoder.version } m ∧ b.toNat = id ∧
    varuint 32 ⟨rest, .clean⟩ = .ok (length, s) ∧ contents = s.region length

/-- An error is raised in a section that the input comes to. In a code section it is raised in a
body, and is about the function that the body is for: its index is the number of functions that are
imported by then, and the position of the body in the section. -/
inductive Module.Raises (bytes : List UInt8) (e : Error) : (function : Option Nat) → Prop
  | elsewhere {m : Module} {id : Nat} {contents : Source} (hcomes : ComesTo bytes m id contents)
      (hid : id ≠ codeId) (h : silent (payload id m) contents = .error (.error e)) :
      Raises bytes e none
  | body {m : Module} {pos : Nat} {contents s : Source}
      (hcomes : ComesTo bytes m codeId contents) (hreaches : ReachesBody m contents pos s)
      (h : silent (sizedBody m pos) s = .error (.error e)) :
      Raises bytes e (some ((m.importsOf .function).length + pos))

variable {bytes : List UInt8}

/-- The header is bad exactly if it is not the header. -/
lemma Module.decode_eq_badHeader_iff :
    (∃ why, (decode ⟨bytes, .clean⟩).outcome = .error (.error (.badHeader why))) ↔
      bytes.take 8 ≠ headerBytes := by
  constructor
  · rintro ⟨why, h⟩ htake
    obtain ⟨_, he⟩ | ⟨-, hnone⟩ | ⟨_, _, _, -, -, -, hrefuses⟩ := refused_of_decode h
    · cases he
    · exact hnone ⟨bytes.drop 8, by rw [← htake, List.take_append_drop]⟩
    · obtain ⟨_, _, he⟩ | ⟨hin, -⟩ := hrefuses.cases_clean
      · cases he
      · exact hin.elim
  · intro htake
    have htake : ∀ rest, bytes ≠ headerBytes ++ rest := by
      rintro rest rfl
      exact htake rfl
    obtain ⟨fs, m, -, hs, -⟩ | ⟨e, herror, -, hbad⟩ | ⟨e, fs, m, rest, -, -, hs, -⟩ :=
      outcome_decode ⟨bytes, .clean⟩
    · exact absurd (congrArg Source.rest hs) (htake _)
    · obtain ⟨why, rfl⟩ := hbad rfl
      exact ⟨why, herror⟩
    · exact absurd hs (htake _)

/-- An input in memory is never unreadable. -/
lemma Module.decode_ne_io (f : IoFault) :
    (decode ⟨bytes, .clean⟩).outcome ≠ .error (.error (.io f)) := by
  intro h
  obtain ⟨_, he⟩ | ⟨⟨_, he⟩, -⟩ | ⟨_, _, _, -, -, -, hrefuses⟩ := refused_of_decode h
  · cases he
  · cases he
  · obtain ⟨_, _, he⟩ | ⟨hin, -⟩ := hrefuses.cases_clean
    · cases he
    · exact hin.elim

include he in

/-- **What is not supported in an input** names the function in which it is raised. -/
theorem Module.raises_of_decode (h : (decode ⟨bytes, .clean⟩).outcome = .error (.error e)) :
    Raises bytes e function := by
  obtain ⟨_, rfl⟩ | ⟨⟨_, rfl⟩, -⟩ | ⟨fs, m, rest, hfs, hs, hall, hrefuses⟩ := refused_of_decode h
  · cases he
  · cases he
  cases hrefuses with
  | sectionId => cases he
  | @framed b rest _ _ _ hframed =>
    obtain ⟨length, s, hlength, hpayload⟩ := payload_eq_unsupported he hframed
    have hcomes : ComesTo bytes m b.toNat (s.region length) :=
      ⟨fs, b, rest, length, s, hfs, hs, hall, rfl, hlength, rfl⟩
    by_cases hid : b.toNat = codeId
    · rw [hid] at hpayload hcomes
      obtain ⟨pos, s', rfl, hreaches, hbody⟩ := code_eq_unsupported he hpayload
      rw [(hall.coherent (Coherent.empty Decoder.version)).functionCount]
      exact .body hcomes hreaches hbody
    · -- no other section names a function
      subst he
      obtain ⟨p, hok⟩ | ⟨e, herror, hrevise | ⟨hin, -⟩⟩ :=
        outcome_payload b.toNat m (s.region length)
      · cases hok.symm.trans hpayload
      · cases herror.symm.trans hpayload
        exact hrevise.elim
      · cases herror.symm.trans hpayload
        obtain rfl : function = none := hin.resolve_right hid
        exact .elsewhere hcomes hid hpayload

end Unsupported

/-- **The errors of decoding and of rebuilding.** The header is bad exactly if the first eight
bytes are not the header, and no input in memory is unreadable. What is not supported in an input
names the function in whose body it is raised. What is not supported in a module stands in one of
its functions, and names this one. -/
theorem errors_of_decode_emit (bytes : List UInt8) (m : Module) (o : Options) :
    ((∃ why, (Module.decode ⟨bytes, .clean⟩).outcome = .error (.error (.badHeader why))) ↔
      bytes.take 8 ≠ Decoder.headerBytes) ∧
    (∀ f, (Module.decode ⟨bytes, .clean⟩).outcome ≠ .error (.error (.io f))) ∧
    (∀ function opcode what, (Module.decode ⟨bytes, .clean⟩).outcome =
        .error (.error (.unsupported function opcode what)) →
      Module.Raises bytes (.unsupported function opcode what) function) ∧
    (∀ pos function opcode what, (rebuildFunction m pos).outcome =
        .error (.error (.unsupported function opcode what)) →
      function = some (m.importedFunctions + pos)) ∧
    ∀ function opcode what,
      (emit m o).outcome = .error (.error (.unsupported function opcode what)) →
      ∃ pos < m.functions.length, function = some (m.importedFunctions + pos) ∧
        (rebuildFunction m pos).outcome = .error (.error (.unsupported function opcode what)) := by
  have hrebuild : ∀ pos function opcode what, (rebuildFunction m pos).outcome =
      .error (.error (.unsupported function opcode what)) →
      function = some (m.importedFunctions + pos) := by
    intro pos function opcode what h
    obtain ⟨_, hinvalid⟩ | habort | ⟨_, _, hnamed⟩ := errs_rebuildFunction m pos _ h
    · cases hinvalid
    · cases habort
    · cases hnamed
      rfl
  refine ⟨Module.decode_eq_badHeader_iff, Module.decode_ne_io,
    fun function opcode what => Module.raises_of_decode rfl, hrebuild, ?_⟩
  intro function opcode what h
  have hfunctions : Errs (fun f => f = .abort ∨
      ∃ p < m.functions.length, (rebuildFunction m p).outcome = .error f) (emit m o).outcome :=
    errs_emit m o (errs_allot (.inl rfl) m o) fun p hp f hf => .inr (.inr ⟨p, hp, hf⟩)
  obtain ⟨_, hinvalid⟩ | habort | ⟨pos, hlt, herror⟩ := hfunctions _ h
  · cases hinvalid
  · cases habort
  · exact ⟨pos, hlt, hrebuild _ _ _ _ herror, herror⟩

/-- The bytes of a module with an import, whose second body has an opcode that is not known. -/
def unknownOpcodeBytes : List UInt8 := [0x00, 0x61, 0x73, 0x6d, 0x01, 0x00, 0x00, 0x00,
  0x01, 0x04, 0x01, 0x60, 0x00, 0x00,
  0x02, 0x07, 0x01, 0x01, 0x61, 0x01, 0x62, 0x00, 0x00,
  0x03, 0x03, 0x02, 0x00, 0x00,
  0x0a, 0x08, 0x02, 0x02, 0x00, 0x0b, 0x03, 0x00, 0xff, 0x0b]

/-- A module with an import, whose second function has a branch table with a target. -/
def branchTableModule : Module where
  types := [⟨[], none⟩]
  imports := [⟨"a", "b", .function 0⟩]
  signatures := [0, 0]
  functions := [⟨0, [], []⟩, ⟨0, [], [⟨.const .i32, .value (.i32 0)⟩, ⟨.brTable, .table [0] 0⟩]⟩]
  importedFunctions := 1

/-- Both name the function behind the import and the first function. -/
theorem errors_of_decode_emit_secondFunction :
    ((Module.decode ⟨unknownOpcodeBytes, .clean⟩).outcome =
        .error (.error (.unsupported (some 2) (some 0xff) .unknownOpcode)) ∧
      Module.Raises unknownOpcodeBytes (.unsupported (some 2) (some 0xff) .unknownOpcode)
        (some 2)) ∧
    (emit branchTableModule {}).outcome =
        .error (.error (.unsupported (some 2) (some 0x0e) (.branchTable 1))) ∧
      ∃ pos < 2, some 2 = some (1 + pos) := by
  have hdecode : (Module.decode ⟨unknownOpcodeBytes, .clean⟩).outcome =
      .error (.error (.unsupported (some 2) (some 0xff) .unknownOpcode)) := by
    with_unfolding_all rfl
  have hemit : (emit branchTableModule {}).outcome =
      .error (.error (.unsupported (some 2) (some 0x0e) (.branchTable 1))) := by
    with_unfolding_all rfl
  obtain ⟨-, -, hinput, -, hmodule⟩ :=
    errors_of_decode_emit unknownOpcodeBytes branchTableModule {}
  obtain ⟨pos, hlt, hfunction, -⟩ := hmodule _ _ _ hemit
  exact ⟨⟨hdecode, hinput _ _ _ hdecode⟩, hemit, pos, hlt, hfunction⟩

end WasmToC

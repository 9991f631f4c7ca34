import Mathlib.Data.List.Forall2
import WasmToC.Proofs.Streams

/-!
# Where an expression ends

An expression ends with the first `end` that finds no construct open. The byte of an `end` may also
stand inside a constant, an offset or the bits of a float, so that the bytes alone do not show this
place: it is found by reading one instruction after the other. The bytes in front of it split into
the instructions that are read, and these are balanced code. Conversely the bytes of any balanced
code are read up to the `end` behind them.

## Main results

* `Decoder.exists_pieces` — the bytes of an expression split into its instructions.
* `openAfter_of_closings_le` — the two ways to count open constructs.
* `Decoder.expression_ends_at_balance` — where an expression ends.
-/

namespace WasmToC

open List

/-- One byte stands for `end`. -/
lemma Opcode.eq_of_ofByte?_endOp {b : UInt8} (h : Opcode.ofByte? b = some .endOp) : b = 0x0b := by
  unfold ofByte? ofCode? at h
  split at h
  · simp at h
  · split at h
    · simp at h
    · split at h
      · simp at h
      · unfold plain? at h
        split at h
        all_goals first
          | exact UInt8.toNat_inj.1 ‹b.toNat = 0x0b›
          | cases h

/-! ## From bytes to code -/

namespace Reader

lemma settles_instruction : Settles (· = none) (fun i => i.isShaped = true) instruction :=
  settles_of_answers fun _ => answers_instruction

/-- An `end` is one byte. -/
lemma eq_of_instruction_end {i : Instruction} {s s' : Source} (h : instruction s = .ok (i, s'))
    (hop : i.op = .endOp) : s = ⟨0x0b :: s'.rest, s'.ending⟩ := by
  unfold instruction at h
  obtain ⟨b, s1, hbyte, hr⟩ := bind_eq_ok h
  cases hcode : Opcode.ofByte? b with
  | none =>
    rw [hcode] at hr
    cases hr
  | some op =>
    rw [hcode] at hr
    obtain ⟨imm, s2, himm, hpure⟩ := bind_eq_ok hr
    cases hpure
    obtain rfl : op = .endOp := hop
    cases himm
    rcases s with ⟨_ | ⟨b', rest⟩, e⟩
    · cases e <;> cases hbyte
    · cases hbyte
      rw [Opcode.eq_of_ofByte?_endOp hcode]

end Reader

namespace Decoder

open Reader

/-- **The bytes of an expression split into its instructions**, with the closing `end` behind them.

**Proof sketch.** Induction on the bound on the number of instructions: each that is read takes its
own bytes off the source, and the one that ends the expression is a single byte. -/
theorem exists_pieces :
    ∀ {fuel d : Nat} (pre : List Instruction) {code : List Instruction} {s s' : Source},
    silent (codeUpTo fuel d pre) s = .ok (code, s') →
      ∃ pieces behind, code = pre.reverse ++ behind ∧
        List.Forall₂ (Reads instruction) pieces behind ∧
        s = ⟨pieces.flatten ++ 0x0b :: s'.rest, s'.ending⟩
  | 0, _, _, _, _, _, h => by cases h
  | fuel + 1, d, pre, code, s, s', h => by
    rw [silent_codeUpTo] at h
    obtain ⟨i, s1, hi, hr⟩ := bind_eq_ok h
    by_cases hend : i.op = .endOp ∧ d = 0
    · rw [if_pos hend] at hr
      cases hr
      exact ⟨[], [], (append_nil _).symm, .nil, eq_of_instruction_end hi hend.1⟩
    · rw [if_neg hend] at hr
      obtain ⟨pieces, behind, rfl, hpieces, hs1⟩ := exists_pieces _ hr
      obtain ⟨bytes, hs, hreads⟩ := settles_instruction.reads hi
      refine ⟨bytes :: pieces, i :: behind, by simp, .cons hreads hpieces, ?_⟩
      rw [hs, hs1, flatten_cons, append_assoc]

end Decoder

/-! ## From code to bytes -/

/-- What an instruction does to the number of open constructs. -/
lemma openAfter_cons {i : Instruction} {d : Nat} (code : List Instruction)
    (h : ¬ (i.op = .endOp ∧ d = 0)) : openAfter d (i :: code) =
      openAfter (if i.op.opensConstruct then d + 1 else
        if i.op = .endOp then d - 1 else d) code := by
  rw [openAfter.eq_def d]
  dsimp only
  split
  · rfl
  · split
    · rename_i hop
      cases d with
      | zero => exact absurd ⟨hop, rfl⟩ h
      | succ d => rfl
    · rfl

/-- **The two ways to count open constructs.** Where no beginning of the code closes more than has
been opened, each `end` finds a construct open. -/
theorem openAfter_of_closings_le {code : List Instruction} {d depth' : Nat}
    (hparts : ∀ part, part <+: code → closings part ≤ openings part + d)
    (hall : closings code + depth' = openings code + d) :
    openAfter d code = some depth' := by
  induction code generalizing d with
  | nil =>
    obtain rfl : depth' = d := by simpa [openings, closings] using hall
    rfl
  | cons i code ih =>
    have hopened : ∀ part, openings (i :: part) = openings [i] + openings part :=
      fun _ => @countP_append _ _ [i] _
    have hclosed : ∀ part, closings (i :: part) = closings [i] + closings part :=
      fun _ => @countP_append _ _ [i] _
    have hend : ¬ (i.op = .endOp ∧ d = 0) := by
      rintro ⟨hop, rfl⟩
      have hfirst := hparts [i] (prefix_append [i] code)
      simp [openings, closings, hop, Opcode.opensConstruct] at hfirst
    have hdepth := Decoder.openings_add_depth i hend
    rw [openAfter_cons code hend]
    apply ih
    · intro part hpart
      have hmore := hparts (i :: part) (cons_prefix_cons.2 ⟨rfl, hpart⟩)
      rw [hopened, hclosed] at hmore
      omega
    · rw [hopened, hclosed] at hall
      omega

namespace Decoder

open Reader

/-- **Where an expression ends**: at the `end` that balances it. Whatever is read as an expression
splits into the bytes of its instructions and the byte of this `end`; the code is balanced, with the
immediates that its opcodes call for; and it is read in the same way whatever comes behind.
Conversely balanced code with such immediates is read from its bytes and an `end`, up to there.

**Proof sketch.** The reader counts open constructs, and by induction its count is that of the code
that has been read. -/
theorem expression_ends_at_balance :
    (∀ (bytes : List UInt8) (ending : Ending) (code : List Instruction) (s : Source),
      (expression ⟨bytes, ending⟩).outcome = .ok (code, s) → ∃ pieces : List (List UInt8),
          (bytes = pieces.flatten ++ 0x0b :: s.rest ∧ s.ending = ending) ∧
          List.Forall₂ (Reads instruction) pieces code ∧
          ((∀ part, part <+: code → closings part ≤ openings part) ∧
            closings code = openings code ∧ ∀ i ∈ code, i.isShaped = true) ∧
          ∀ (rest : List UInt8) (ending : Ending),
            (expression ⟨pieces.flatten ++ 0x0b :: rest, ending⟩).outcome =
              .ok (code, ⟨rest, ending⟩)) ∧
    ∀ code : List Instruction,
      (∀ part, part <+: code → closings part ≤ openings part) → closings code = openings code →
      (∀ i ∈ code, i.isShaped = true ∧
        ∀ targets default, i.imm = .table targets default → targets.length < 2 ^ 32) →
      ∀ (rest : List UInt8) (ending : Ending),
        (expression ⟨code.flatMap Encode.instruction ++ 0x0b :: rest, ending⟩).outcome =
          .ok (code, ⟨rest, ending⟩) := by
  constructor
  · intro bytes ending code s h
    have hrun : silent expression ⟨bytes, ending⟩ = .ok (code, s) := h
    obtain ⟨pieces, _, rfl, hpieces, hs⟩ := exists_pieces [] hrun
    cases hs
    obtain ⟨taken, hs, hreads⟩ := Settles.reads settles_expression hrun
    -- the run as a whole takes the same bytes as its instructions
    have htaken : taken = pieces.flatten ++ [0x0b] := by
      have hbytes := congrArg Source.rest hs
      exact append_cancel_right (hbytes.symm.trans (append_cons ..))
    have hcode : IsBeginning 0 code := Settles.holds settles_expression hrun
    refine ⟨pieces, ⟨rfl, rfl⟩, hpieces, ⟨hcode.closes, hcode.opens.symm, hcode.shaped⟩, ?_⟩
    intro rest ending
    rw [append_cons, ← htaken]
    exact hreads rest ending
  · intro code hparts hall himmediates rest ending
    have hopen : openAfter 0 code = some 0 := openAfter_of_closings_le hparts hall
    rw [append_cons]
    exact decodes_expression_of_reads hopen
      (fun i hi => reads_instruction (himmediates i hi).1 (himmediates i hi).2) rest ending

/-- A construct with a constant whose byte is that of an `end`. -/
def hiddenEnd : List Instruction :=
  [⟨.block, .block (some .i32)⟩, ⟨.const .i32, .value (.i32 11)⟩, ⟨.endOp, .none⟩]

/-- Two of the three bytes `0x0b` in a row are passed over, and what comes behind the third one is
left; so it is with other bytes behind it. -/
theorem expression_hiddenEnd :
    (expression ⟨[0x02, 0x7f, 0x41, 0x0b, 0x0b, 0x0b, 0x01], .clean⟩).outcome =
      .ok (hiddenEnd, ⟨[0x01], .clean⟩) ∧
    ∃ pieces : List (List UInt8), pieces.flatten = [0x02, 0x7f, 0x41, 0x0b, 0x0b] ∧
      List.Forall₂ (Reads instruction) pieces hiddenEnd := by
  have hopened : IsBeginning 1 [⟨.block, .block (some .i32)⟩] := isBeginning_nil.concat rfl rfl
  have hinside : IsBeginning 1 (hiddenEnd.take 2) := hopened.concat rfl rfl
  have hcode : IsBeginning 0 hiddenEnd := hinside.concat rfl rfl
  have himmediates : ∀ i ∈ hiddenEnd, i.isShaped = true ∧
      ∀ targets default, i.imm = .table targets default → targets.length < 2 ^ 32 := by
    simp [hiddenEnd, Instruction.isShaped, Value.type, Opcode.standsAlone]
  have hbytes : hiddenEnd.flatMap Encode.instruction = [0x02, 0x7f, 0x41, 0x0b, 0x0b] := by
    decide +kernel
  have hread := expression_ends_at_balance.2 hiddenEnd hcode.closes hcode.opens.symm himmediates
    [0x01] .clean
  rw [hbytes] at hread
  refine ⟨hread, ?_⟩
  obtain ⟨pieces, ⟨hsplit, -⟩, hpieces, -⟩ := expression_ends_at_balance.1 _ _ _ _ hread
  exact ⟨pieces, (append_cancel_right hsplit).symm, hpieces⟩

end Decoder

end WasmToC

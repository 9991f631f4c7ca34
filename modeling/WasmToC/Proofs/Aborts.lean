import WasmToC.Proofs.NoAbort
import WasmToC.Proofs.Pairing

/-!
# When decoding stops without a diagnosis

Decoding ends with a module or with an error that says what is wrong, for all byte strings but one
kind: those whose sections are all right and hold more bodies than there are declared functions.
Each code section has as many bodies as functions have been declared by then, so this takes a second
one. Nothing else stops the run, since every section is read or refused.

## Main definitions

* `Section.announcedBy` — the entries of all sections with an id.
* `Module.HasSurplus` — an input with more bodies than declared functions.

## Main results

* `Section.AddAll.length_eq` — the numbers of declarations and of bodies.
* `Module.decode_eq_abort_iff` — when decoding stops without a diagnosis.
-/

namespace WasmToC

open List

namespace Section

variable {m m' : Module}

/-! ## Counting declarations and bodies -/

/-- The id of sections that declare functions. -/
def signaturesId : Nat := 3

/-- How many entries the sections with an id announce together. -/
def announcedBy (id : Nat) (fs : List Frame) : Nat :=
  ((fs.filter (·.id = id)).map Frame.announced).sum

/-- What one section adds to the numbers of declarations and of bodies. -/
lemma Extends.length_eq {count id : Nat} (h : Extends m count id m') :
    m'.signatures.length = m.signatures.length + (if id = signaturesId then count else 0) ∧
    m'.functions.length = m.functions.length + (if id = codeId then count else 0) := by
  cases h with
  | signatures ts hn =>
    refine ⟨?_, rfl⟩
    show (m.signatures ++ ts).length = _
    rw [length_append, hn]
    rfl
  | code fs hn =>
    refine ⟨rfl, ?_⟩
    show (m.functions ++ fs).length = _
    rw [length_append, hn]
    rfl
  | other hid =>
    have hsignatures : ¬ id = signaturesId := fun h => hid (by simp [h, signaturesId])
    have hcode : ¬ id = codeId := fun h => hid (by simp [h, codeId])
    rw [if_neg hsignatures, if_neg hcode]
    exact ⟨rfl, rfl⟩
  | custom | types | imports | memories | globals | exports | segments => exact ⟨rfl, rfl⟩

/-- **The declarations and the bodies are those that the sections announce.** -/
theorem AddAll.length_eq {fs : List Frame} (h : AddAll fs m m') :
    m'.signatures.length = m.signatures.length + announcedBy signaturesId fs ∧
    m'.functions.length = m.functions.length + announcedBy codeId fs := by
  induction h with
  | nil m => exact ⟨rfl, rfl⟩
  | @cons f fs m m1 m' head tail ih =>
    have hcons : ∀ id, announcedBy id (f :: fs) =
        (if f.id = id then f.announced else 0) + announcedBy id fs := by
      intro id
      unfold announcedBy
      by_cases hid : f.id = id
      · simp [hid]
      · simp [hid]
    obtain ⟨hsignatures, hfs⟩ := head.extends.length_eq
    rw [hcons, hcons]
    omega

/-- With one code section there are no more bodies than declarations. -/
lemma AddAll.functions_le {fs : List Frame} (h : AddAll fs m m') (hm : m.functions = [])
    (hone : (codeFrames fs).length ≤ 1) : m'.functions.length ≤ m'.signatures.length := by
  obtain ⟨-, counts, hlength, -, -, hts⟩ := h.bodyTypes
  rw [show m.bodyTypes = [] by rw [Module.bodyTypes, hm]; rfl, nil_append] at hts
  have hbodies : m'.functions.length = (counts.flatMap m'.signatures.take).length := by
    rw [← hts, Module.bodyTypes, length_map]
  rw [hbodies]
  rw [← hlength] at hone
  rcases counts with _ | ⟨n, _ | ⟨k, rest⟩⟩
  · exact Nat.zero_le _
  · rw [flatMap_singleton, length_take]
    omega
  · simp only [length_cons] at hone
    omega

end Section

namespace Module

open Decoder Section

/-! ## Whole inputs -/

/-- An input with more bodies than declared functions, which has nothing else wrong with it: behind
the header, its sections are read and filled up to the end of the input. -/
def HasSurplus (s : Source) : Prop :=
  ∃ fs m, (∀ f ∈ fs, f.IsFramed) ∧ s = ⟨headerBytes ++ framesBytes fs, .clean⟩ ∧
    AddAll fs { version := Decoder.version } m ∧ m.signatures.length < announcedBy codeId fs

/-- The final comparison stops where there are more bodies. -/
lemma tallied_eq_abort_iff {m : Module} :
    m.tallied = .error .abort ↔ m.signatures.length < m.functions.length := by
  unfold tallied
  split
  · simp
    omega
  · split
    · simp
      omega
    · simp
      omega

/-- **A run that stops without a diagnosis stops behind the last section.** -/
theorem hasSurplus_of_abort {s : Source} (h : (decode s).outcome = .error .abort) :
    HasSurplus s := by
  obtain ⟨fs, m, hfs, hs, hall, htally⟩ | ⟨e, herror, -⟩ | ⟨e, _, _, _, herror, -⟩ :=
    outcome_decode s
  · refine ⟨fs, m, hfs, hs, hall, ?_⟩
    have hmore := tallied_eq_abort_iff.1 (htally.symm.trans h)
    rw [hall.length_eq.2] at hmore
    simpa using hmore
  · cases herror.symm.trans h
  · cases herror.symm.trans h

lemma abort_of_hasSurplus {s : Source} (h : HasSurplus s) : (decode s).outcome = .error .abort := by
  obtain ⟨fs, m, hfs, rfl, hall, hmore⟩ := h
  rw [outcome_decode_frames hfs hall, tallied_eq_abort_iff, hall.length_eq.2]
  simpa using hmore

/-- **When decoding stops without a diagnosis**: where the header is right, the sections are read
and filled up to the end of the input, and their bodies together are more than the functions that
are declared in the end. On every other input there is a module or an error, and so there is on
every input with one code section at most. -/
theorem decode_eq_abort_iff (s : Source) : ((decode s).outcome = .error .abort ↔ HasSurplus s) ∧
    (¬ HasSurplus s → IsAnswered (decode s).outcome) ∧
    ((∀ fs, (∀ f ∈ fs, f.IsFramed) → s.rest = headerBytes ++ framesBytes fs →
      (codeFrames fs).length ≤ 1) → IsAnswered (decode s).outcome) := by
  have hanswered : ¬ HasSurplus s → IsAnswered (decode s).outcome := by
    intro hnone
    refine isAnswered_iff.2 fun f hf => .inr ?_
    rintro rfl
    exact hnone (hasSurplus_of_abort hf)
  refine ⟨⟨hasSurplus_of_abort, abort_of_hasSurplus⟩, hanswered, ?_⟩
  intro hone
  apply hanswered
  rintro ⟨fs, m, hfs, rfl, hall, hmore⟩
  have hle := hall.functions_le rfl (hone fs hfs rfl)
  have hfunctions : m.functions.length = 0 + announcedBy codeId fs := hall.length_eq.2
  omega

/-- Two code sections for one declared function. -/
def surplusFrames : List Frame := [ shortFrame 1 [0x01, 0x60, 0x00, 0x00],
  shortFrame 3 [0x01, 0x00],
  shortFrame 10 [0x01, 0x02, 0x00, 0x0b],
  shortFrame 10 [0x01, 0x02, 0x00, 0x0b]]

lemma isFramed_surplusFrames : ∀ f ∈ surplusFrames, f.IsFramed := by
  simp only [surplusFrames, forall_mem_cons, not_mem_nil, false_imp_iff, implies_true, and_true]
  refine ⟨?_, ?_, ?_, ?_⟩ <;> exact isFramed_shortFrame (by decide) (by decide)

/-- An input of some of these sections. -/
def surplusSource (count : Nat) : Source :=
  ⟨headerBytes ++ framesBytes (surplusFrames.take count), .clean⟩

/-- The module that the sections build without the last one. -/
def balancedModule : Module where
  types := [⟨[], none⟩]
  signatures := [0]
  functions := [⟨0, [], []⟩]

/-- With the second code section there are two bodies for one function; with the first one alone
there is an answer. -/
theorem decode_surplusSource :
    (HasSurplus (surplusSource 4) ∧ (decode (surplusSource 4)).outcome = .error .abort) ∧
    (¬ HasSurplus (surplusSource 3) ∧ IsAnswered (decode (surplusSource 3)).outcome) ∧
    ∀ fs, (∀ f ∈ fs, f.IsFramed) → (surplusSource 3).rest = headerBytes ++ framesBytes fs →
      (codeFrames fs).length ≤ 1 := by
  have hstop : (decode (surplusSource 4)).outcome = .error .abort := by with_unfolding_all rfl
  have hanswer : (decode (surplusSource 3)).outcome = .ok balancedModule := by
    with_unfolding_all rfl
  have hone : ∀ fs, (∀ f ∈ fs, f.IsFramed) →
      (surplusSource 3).rest = headerBytes ++ framesBytes fs → (codeFrames fs).length ≤ 1 := by
    intro fs hfs hs
    have hfirst : ∀ f ∈ surplusFrames.take 3, f.IsFramed :=
      fun f hf => isFramed_surplusFrames f (mem_of_mem_take hf)
    obtain rfl : fs = surplusFrames.take 3 :=
      frames_inj hfs hfirst (append_cancel_left hs).symm
    decide
  refine ⟨⟨(decode_eq_abort_iff _).1.1 hstop, hstop⟩, ⟨?_, (decode_eq_abort_iff _).2.2 hone⟩, hone⟩
  intro hsurplus
  have habort := (decode_eq_abort_iff _).1.2 hsurplus
  rw [hanswer] at habort
  cases habort

end Module

end WasmToC

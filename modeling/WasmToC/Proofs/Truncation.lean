import WasmToC.Proofs.Decoded

/-!
# Where an input is cut off

Every input that is accepted is refused when its end is missing, or is a shorter module: an input
that stops inside the header has a bad header; one that stops inside a section leaves this section
corrupt, wherever in it the cut falls; and one that stops between two sections is judged by what its
sections have built so far.

## Main results

* `Section.Frame.Adds.cut` — a frame that is cut is a corrupt section.
* `Module.decode_part` — what becomes of every part of an input that is accepted.
-/

namespace WasmToC

open List

/-- Where bytes are missing, there are fewer. -/
lemma length_lt_of_part {part bs : List UInt8} (h : part <+: bs) (hne : part ≠ bs) :
    part.length < bs.length := by
  refine Nat.lt_of_le_of_ne h.length_le fun hlen => ?_
  exact hne (h.eq_of_length hlen)

/-- A part of two byte strings ends inside the first one, or is behind it. -/
lemma part_of_append {part first others : List UInt8} (h : part <+: first ++ others) :
    part <+: first ∧ part ≠ first ∨ ∃ more, part = first ++ more ∧ more <+: others := by
  obtain ⟨post, hafter⟩ := h
  obtain ⟨missing, hfirst, -⟩ | ⟨more, hmore, hothers⟩ := append_eq_append_iff.1 hafter
  · by_cases hwhole : part = first
    · exact .inr ⟨[], by rw [hwhole, append_nil], nil_prefix⟩
    · exact .inl ⟨⟨missing, hfirst.symm⟩, hwhole⟩
  · exact .inr ⟨more, hmore, post, hothers.symm⟩

namespace Section

open Decoder

/-! ## Frames -/

/-- **A frame that is cut is a corrupt section**, wherever the cut falls.

**Proof sketch.** It is not read as a section, since the whole frame is, and a frame ends where its
length says. It is not refused whatever comes behind either, since the missing bytes may come
behind. What is left is that the section is corrupt. -/
theorem Frame.Adds.cut {f : Frame} {m m' : Module} (h : f.Adds m m') (hf : f.IsFramed)
    {part : List UInt8} (hpart : part <+: f.size ++ f.payload) (hne : part ≠ f.size ++ f.payload) :
    ∃ why, (framedSection f.id m ⟨part, .clean⟩).outcome =
      .error (.error (.corruptSection f.id why)) := by
  obtain ⟨missing, hmissing⟩ := hpart
  obtain ⟨⟨m1, s'⟩, hok⟩ | ⟨e, herror, hclean | ⟨-, hsame⟩⟩ :=
    outcome_framedSection f.id m ⟨part, .clean⟩
  · obtain ⟨f', hid, hf', -, hsource⟩ := Frame.exists_of_framedSection hf.id_lt hok
    simp only [Source.mk.injEq] at hsource
    have hframe : f'.bytes ++ (s'.rest ++ missing) = f.bytes ++ [] := by
      simp only [Frame.bytes, hid, ← hmissing, hsource.1, cons_append, append_assoc, append_nil]
    have hnil : missing = [] := (append_eq_nil_iff.1 (hf'.append_inj hf hframe).2).2
    rw [hnil, append_nil] at hmissing
    exact absurd hmissing hne
  · obtain ⟨why, rfl⟩ := hclean rfl
    exact ⟨why, herror⟩
  · have hwhole : (framedSection f.id m ⟨f.size ++ f.payload ++ [], .clean⟩).outcome = _ :=
      h.decodes hf [] .clean
    rw [append_nil, ← hmissing] at hwhole
    cases hwhole.symm.trans (hsame missing .clean)

/-- A part of a sequence of frames ends inside one of them, or in front of it. -/
lemma exists_cut_frame {fs : List Frame} {part : List UInt8} (hpart : part <+: framesBytes fs)
    (hne : part ≠ framesBytes fs) :
    ∃ pre f post cut, fs = pre ++ f :: post ∧ part = framesBytes pre ++ cut ∧
      cut <+: f.bytes ∧ cut ≠ f.bytes := by
  induction fs generalizing part with
  | nil => exact absurd (prefix_nil.1 hpart) hne
  | cons f fs ih =>
    rw [framesBytes_cons] at hpart hne
    obtain ⟨hcut, hless⟩ | ⟨more, rfl, hmore⟩ := part_of_append hpart
    · exact ⟨[], f, fs, part, rfl, rfl, hcut, hless⟩
    · obtain ⟨pre, g, post, cut, rfl, rfl, hcut, hless⟩ := ih hmore fun h => hne (by rw [h])
      exact ⟨f :: pre, g, post, cut, rfl, by simp, hcut, hless⟩

/-- Behind frames that are read, a frame that is cut leaves its section corrupt. -/
lemma sections_cut {pre : List Frame} {f : Frame} {m m1 m2 : Module} {cut : List UInt8}
    (hpre : ∀ g ∈ pre, g.IsFramed) (hf : f.IsFramed) (hall : AddAll pre m m1)
    (hadds : f.Adds m1 m2) (hcut : cut <+: f.bytes) (hless : cut ≠ f.bytes) (hsome : cut ≠ []) :
    ∃ why, (sections ((framesBytes pre ++ cut).length + 1) m
        ⟨framesBytes pre ++ cut, .clean⟩).outcome =
      .error (.error (.corruptSection f.id why)) := by
  obtain ⟨fuel, hfuel, hrun⟩ := (hall.carries hpre) cut _ (Nat.lt_succ_self _)
  obtain ⟨fuel, rfl⟩ : ∃ n, fuel = n + 1 := ⟨fuel - 1, by omega⟩
  rw [hrun]
  cases cut with
  | nil => exact absurd rfl hsome
  | cons b part =>
    obtain ⟨rfl, hpart⟩ := cons_prefix_cons.1 hcut
    obtain ⟨why, hwhy⟩ := hadds.cut hf hpart fun h => hless (by rw [h]; rfl)
    refine ⟨why, ?_⟩
    rw [hf.outcome_sections, hwhy]
    rfl

end Section

namespace Module

open Decoder Section

/-! ## Whole inputs -/

/-- An input that ends inside the header has a bad header. -/
lemma outcome_decode_header {part : List UInt8} (hpart : part <+: headerBytes)
    (hne : part ≠ headerBytes) :
    (decode ⟨part, .clean⟩).outcome = .error (.error (.badHeader .truncated)) := by
  have hlt : part.length < 8 := length_lt_of_part hpart hne
  rw [prefix_iff_eq_take.1 hpart]
  generalize part.length = n at hlt
  match n, hlt with
  | 0, _ | 1, _ | 2, _ | 3, _ | 4, _ | 5, _ | 6, _ | 7, _ => rfl

/-- **Every part of an input that is accepted**, short of the whole. It stops inside the header,
which is then bad; or it stops at or inside a section `f`, behind the sections `pre`. Between
two sections the outcome is that of the final comparison for the module that the sections before the
cut have built. Inside a section it is an error that says that this section is corrupt. -/
theorem decode_part {bytes : List UInt8} {m : Module}
    (h : (decode ⟨bytes, .clean⟩).outcome = .ok m) :
    ∃ fs : List Frame, (∀ f ∈ fs, f.IsFramed) ∧ bytes = headerBytes ++ framesBytes fs ∧
      ∀ part, part <+: bytes → part ≠ bytes → (part.length < 8 ∧
          (decode ⟨part, .clean⟩).outcome = .error (.error (.badHeader .truncated))) ∨
        ∃ pre f post cut, fs = pre ++ f :: post ∧
          part = headerBytes ++ (framesBytes pre ++ cut) ∧ cut <+: f.bytes ∧ cut ≠ f.bytes ∧
          (cut = [] → ∃ m', AddAll pre { version := Decoder.version } m' ∧
            (decode ⟨part, .clean⟩).outcome = m'.tallied) ∧
          (cut ≠ [] → ∃ why, (decode ⟨part, .clean⟩).outcome =
            .error (.error (.corruptSection f.id why))) := by
  obtain ⟨fs, hfs, hsource, hall, -⟩ := exists_frames_of_decode h
  simp only [Source.mk.injEq, and_true] at hsource
  refine ⟨fs, hfs, hsource, fun part hpart hne => ?_⟩
  subst hsource
  obtain ⟨hshort, hless⟩ | ⟨more, rfl, hmore⟩ := part_of_append hpart
  · exact .inl ⟨length_lt_of_part hshort hless, outcome_decode_header hshort hless⟩
  obtain ⟨pre, f, post, cut, rfl, rfl, hcut, hless⟩ :=
    exists_cut_frame hmore fun h => hne (by rw [h])
  rw [forall_mem_append, forall_mem_cons] at hfs
  obtain ⟨hpre, hf, -⟩ := hfs
  obtain ⟨m1, hfirst, hothers⟩ := hall.of_append
  refine .inr ⟨pre, f, post, cut, rfl, rfl, hcut, hless, ?_, ?_⟩
  · rintro rfl
    refine ⟨m1, hfirst, ?_⟩
    rw [append_nil]
    exact outcome_decode_frames hpre hfirst
  · intro hsome
    cases hothers with
    | cons hadds _ =>
      obtain ⟨why, hwhy⟩ := sections_cut hpre hf hfirst hadds hcut hless hsome
      refine ⟨why, ?_⟩
      rw [outcome_decode_headerBytes, hwhy]
      rfl

/-- An input that stops inside a function body leaves the section with this body corrupt. -/
theorem decode_part_repeatedSections : (decode repeatedSections).outcome = .ok repeatedModule ∧
    ∃ fs : List Frame, (∀ f ∈ fs, f.IsFramed) ∧
      repeatedSections.rest = headerBytes ++ framesBytes fs ∧
      ∃ f ∈ fs, f.id = 10 ∧ (decode ⟨repeatedSections.rest.take 40, .clean⟩).outcome =
        .error (.error (.corruptSection f.id .truncated)) := by
  have hrun : (decode ⟨repeatedSections.rest.take 40, .clean⟩).outcome =
      .error (.error (.corruptSection 10 .truncated)) := by with_unfolding_all rfl
  refine ⟨decode_repeatedSections, ?_⟩
  obtain ⟨fs, hfs, hbytes, hparts⟩ := decode_part decode_repeatedSections
  refine ⟨fs, hfs, hbytes, ?_⟩
  rw [hrun]
  obtain ⟨hshort, -⟩ | ⟨pre, f, post, cut, rfl, -, -, -, hbetween, hinside⟩ :=
    hparts (repeatedSections.rest.take 40) ⟨_, take_append_drop _ _⟩ (by decide)
  · exact absurd hshort (by decide)
  · by_cases hcut : cut = []
    · obtain ⟨m', -, htally⟩ := hbetween hcut
      rw [hrun, tallied] at htally
      split at htally
      · cases htally
      · split at htally <;> cases htally
    · obtain ⟨why, hwhy⟩ := hinside hcut
      rw [hrun] at hwhy
      simp only [Except.error.injEq, Failure.error.injEq, Error.corruptSection.injEq] at hwhy
      exact ⟨f, by simp, hwhy.1.symm, by rw [← hwhy.1]⟩

end Module

end WasmToC

import WasmToC.Proofs.Frames

/-!
# What an input is refused with

Behind the header an input is refused at one place: all sections before it are read, and the next
one is not.

## Main definitions

* `Section.Refuses` — what the next section is refused with.

## Main results

* `Decoder.outcome_header` — only a header is read as one.
* `Section.outcome_sections` — sections are read, or one of them is refused.
* `Module.outcome_decode`, `Module.refused_of_decode` — what becomes of an input.
* `Module.exists_frames_of_decode` — an input that is accepted is a header and frames.
* `Module.decode_append_of_isLasting` — errors that no later input revises.
-/

namespace WasmToC

variable {s : Source} {m : Module} {e : Error}

/-- An error about the encoding, or about what is not supported. -/
def Error.IsLasting : Error → Prop
  | malformed _ | unsupported _ _ _ => True
  | badHeader _ | corruptSection _ _ | invalid _ | io _ => False

namespace Reader

variable {α β : Type}

/-- A sequence that fails fails with its first reader, or with the second behind it. -/
lemma bind_eq_error {r : Reader α} {k : α → Reader β} {f : Failure} (h : (r >>= k) s = .error f) :
    r s = .error f ∨ ∃ a s', r s = .ok (a, s') ∧ k a s' = .error f := by
  change (r s).bind (fun p => k p.1 p.2) = _ at h
  cases hr : r s with
  | error f' =>
    rw [hr] at h
    cases h
    exact .inl rfl
  | ok p =>
    rw [hr] at h
    exact .inr ⟨p.1, p.2, rfl, h⟩

/-- Bytes of a fixed number are missing at the end only. -/
lemma littleEndian_eq_error : ∀ {n : Nat} {s : Source} {f : Failure}, littleEndian n s = .error f →
      ∃ fault, f = .error (.io fault) ∧ (s.ending = .clean → fault.atEnd = true)
  | 0, _, _, h => by cases h
  | n + 1, s, f, h => by
    obtain hbyte | ⟨b, s', hbyte, hr⟩ := bind_eq_error h
    · rcases s with ⟨_ | ⟨b, rest⟩, e⟩
      · cases e with
        | clean =>
          cases hbyte
          exact ⟨_, rfl, fun _ => rfl⟩
        | broken fault =>
          cases hbyte
          exact ⟨fault, rfl, nofun⟩
      · cases hbyte
    · rcases s with ⟨_ | ⟨b, rest⟩, e⟩
      · cases e <;> cases hbyte
      · cases hbyte
        obtain hothers | ⟨_, _, _, hpure⟩ := bind_eq_error hr
        · obtain ⟨fault, hf, hend⟩ := littleEndian_eq_error hothers
          exact ⟨fault, hf, hend⟩
        · cases hpure

end Reader

namespace Decoder

/-- A word of the header is missing at the end only. -/
lemma headerWord_eq_error {f : Failure}
    (h : silent ((liftM (Reader.littleEndian 4) : Decoder Nat).mapError headerError) s = .error f) :
    ∃ e, f = .error e ∧ (s.ending = .clean → ∃ why, e = .badHeader why) := by
  cases hword : Reader.littleEndian 4 s with
  | ok p =>
    have hok := mapError_of_ok (d := liftM (Reader.littleEndian 4)) headerError hword
    cases hok.symm.trans h
  | error f' =>
    obtain ⟨fault, rfl, hend⟩ := Reader.littleEndian_eq_error hword
    have herror := mapError_of_error (d := liftM (Reader.littleEndian 4)) headerError hword
    cases herror.symm.trans h
    exact ⟨_, rfl, fun hclean => ⟨.truncated, if_pos (hend hclean)⟩⟩

/-- **Only a header is read as one**, and what is wrong with it is that it is bad. -/
theorem outcome_header (s : Source) : (∃ rest, s.rest = headerBytes ++ rest) ∨
    ∃ e, silent header s = .error (.error e) ∧ (s.ending = .clean → ∃ why, e = .badHeader why) := by
  cases hrun : silent header s with
  | ok p => exact .inl ⟨p.2.rest, congrArg Source.rest (eq_headerBytes_of_header hrun).2⟩
  | error f =>
    refine .inr ?_
    suffices h : ∃ e, f = .error e ∧ (s.ending = .clean → ∃ why, e = .badHeader why) by
      obtain ⟨e, rfl, he⟩ := h
      exact ⟨e, rfl, he⟩
    unfold header at hrun
    rw [silent_bind] at hrun
    obtain hfirst | ⟨first, s1, hfirst, hr⟩ := Reader.bind_eq_error hrun
    · exact headerWord_eq_error hfirst
    by_cases hmagic : first ≠ magic
    · rw [if_pos hmagic] at hr
      cases hr
      exact ⟨_, rfl, fun _ => ⟨_, rfl⟩⟩
    rw [if_neg hmagic, silent_bind] at hr
    obtain hsecond | ⟨second, s2, -, hfinal⟩ := Reader.bind_eq_error hr
    · have hs := eq_littleEndian_of_read (eq_ok_of_mapError hfirst)
      have hending : s.ending = s1.ending := by rw [hs]
      rw [hending]
      exact headerWord_eq_error hsecond
    by_cases hversion : second ≠ version
    · rw [if_pos hversion] at hfinal
      cases hfinal
      exact ⟨_, rfl, fun _ => ⟨_, rfl⟩⟩
    · rw [if_neg hversion] at hfinal
      cases hfinal

end Decoder

namespace Section

open Decoder

/-! ## The section that is refused -/

/-- What the next section is refused with. -/
inductive Refuses (m : Module) : Source → Error → Prop
  /-- The input breaks off. -/
  | broken (f : IoFault) : Refuses m ⟨[], .broken f⟩ (.io f)
  /-- There is no section with this id. -/
  | sectionId {b : UInt8} (hb : 128 ≤ b.toNat) (rest : List UInt8) (ending : Ending) :
      Refuses m ⟨b :: rest, ending⟩ (.malformed (.sectionId b))
  /-- The section is not read. -/
  | framed {b : UInt8} {rest : List UInt8} {ending : Ending} {e : Error} (hb : ¬ 128 ≤ b.toNat)
      (h : silent (framedSection b.toNat m) ⟨rest, ending⟩ = .error (.error e)) :
      Refuses m ⟨b :: rest, ending⟩ e

/-- A section that is refused is the last one. -/
lemma Refuses.outcome (h : Refuses m s e) (fuel : Nat) :
    (sections (fuel + 1) m s).outcome = .error (.error e) := by
  cases h with
  | broken f => rfl
  | sectionId hb rest ending => rw [outcome_sections_cons, if_pos hb]
  | framed hb h =>
    rw [outcome_sections_cons, if_neg hb, show (framedSection _ m _).outcome = _ from h]
    rfl

/-- **What the error means.** On an input that does not break off the section is corrupt, or it is
refused whatever comes behind. -/
theorem Refuses.cases_clean {bs : List UInt8} (h : Refuses m ⟨bs, .clean⟩ e) :
    (∃ id why, e = .corruptSection id why) ∨ e.IsIn (fun _ => True) ∧
      ∀ rest ending, Refuses m ⟨bs ++ rest, ending⟩ e := by
  cases h with
  | sectionId hb rest ending => exact .inr ⟨trivial, fun more ending => .sectionId hb _ ending⟩
  | @framed b rest _ _ hb h =>
    obtain ⟨p, hok⟩ | ⟨e', herror, hcorrupt | ⟨hin, hsame⟩⟩ :=
      outcome_framedSection b.toNat m ⟨rest, .clean⟩
    · cases hok.symm.trans h
    · cases herror.symm.trans h
      exact .inl ⟨_, hcorrupt rfl⟩
    · cases herror.symm.trans h
      exact .inr ⟨hin.mono fun _ _ => trivial, fun more ending => .framed hb (hsame more ending)⟩

/-- **Sections are read, or one of them is refused** behind frames that are read.

**Proof sketch.** Induction on the bound on their number, which is not reached since the id of each
takes a byte. -/
theorem outcome_sections : ∀ {fuel : Nat} {m : Module} {s : Source}, s.rest.length < fuel →
    ∃ fs m', (∀ f ∈ fs, f.IsFramed) ∧ AddAll fs m m' ∧
      (s = ⟨framesBytes fs, .clean⟩ ∧ (sections fuel m s).outcome = .ok (m', ⟨[], .clean⟩) ∨
      ∃ e rest, s.rest = framesBytes fs ++ rest ∧ Refuses m' ⟨rest, s.ending⟩ e ∧
        (sections fuel m s).outcome = .error (.error e))
  | 0, _, _, h => absurd h (Nat.not_lt_zero _)
  | fuel + 1, m, s, h => by
    -- the input is used up, or a section comes, which is refused or read
    suffices hcases : s = ⟨[], .clean⟩ ∨ (∃ e, Refuses m s e) ∨ ∃ b rest m1 s1, ¬ 128 ≤ b.toNat ∧
        s.rest = b :: rest ∧ silent (framedSection b.toNat m) ⟨rest, s.ending⟩ = .ok (m1, s1) by
      obtain rfl | ⟨e, he⟩ | ⟨b, rest, m1, s1, hb, hs, hok⟩ := hcases
      · exact ⟨[], m, by simp, .nil m, .inl ⟨rfl, rfl⟩⟩
      · exact ⟨[], m, by simp, .nil m, .inr ⟨e, s.rest, rfl, he, he.outcome fuel⟩⟩
      obtain ⟨f, hid, hf, hadds, hsource⟩ :=
        Frame.exists_of_framedSection (Nat.lt_of_not_le hb) hok
      obtain ⟨_, ending⟩ := s
      subst hs
      simp only [Source.mk.injEq] at hsource
      obtain ⟨rfl, rfl⟩ := hsource
      have hlt : s1.rest.length < fuel := by
        simp only [List.length_cons, List.length_append] at h
        omega
      obtain ⟨fs, m', hfs, hall, hr⟩ := outcome_sections (m := m1) hlt
      refine ⟨f :: fs, m', List.forall_mem_cons.2 ⟨hf, hfs⟩, .cons hadds hall, ?_⟩
      rw [outcome_sections_cons, if_neg hb, show (framedSection _ m _).outcome = _ from hok]
      obtain ⟨rfl, hothers⟩ | ⟨e, rest, hs, hrefuses, herror⟩ := hr
      · exact .inl ⟨by simp [Frame.bytes, hid], hothers⟩
      · exact .inr ⟨e, rest, by simp [Frame.bytes, hid, hs], hrefuses, herror⟩
    rcases s with ⟨_ | ⟨b, rest⟩, ending⟩
    · cases ending with
      | clean => exact .inl rfl
      | broken f => exact .inr (.inl ⟨_, .broken f⟩)
    by_cases hb : 128 ≤ b.toNat
    · exact .inr (.inl ⟨_, .sectionId hb rest ending⟩)
    obtain ⟨p, hok⟩ | ⟨e, herror, -⟩ := outcome_framedSection b.toNat m ⟨rest, ending⟩
    · exact .inr (.inr ⟨b, rest, p.1, p.2, hb, rfl, hok⟩)
    · exact .inr (.inl ⟨e, .framed hb herror⟩)

/-- Frames that are read in front of a section that is refused change nothing. -/
lemma AddAll.refused {fs : List Frame} {m' : Module} {rest : List UInt8} {ending : Ending}
    (h : AddAll fs m m') (hfs : ∀ f ∈ fs, f.IsFramed) (hrefuses : Refuses m' ⟨rest, ending⟩ e)
    {fuel : Nat} (hfuel : (framesBytes fs ++ rest).length < fuel) :
    (sections fuel m ⟨framesBytes fs ++ rest, ending⟩).outcome = .error (.error e) := by
  obtain ⟨fuel, hlt, hrun⟩ := h.outcome_sections hfs rest ending hfuel
  obtain ⟨fuel, rfl⟩ : ∃ n, fuel = n + 1 := ⟨fuel - 1, by omega⟩
  exact hrun.trans (hrefuses.outcome fuel)

/-- How many sections are allowed does not matter, as long as the bytes that are left allow no
more. -/
lemma outcome_sections_eq {fuel fuel' : Nat} (h : s.rest.length < fuel)
    (h' : s.rest.length < fuel') : (sections fuel m s).outcome = (sections fuel' m s).outcome := by
  obtain ⟨fs, m', hfs, hall, ⟨rfl, hok⟩ | ⟨e, rest, hs, hrefuses, he⟩⟩ :=
    outcome_sections (m := m) h
  · obtain ⟨fuel', hlt, hrun⟩ := hall.outcome_sections hfs [] .clean (by simpa using h')
    obtain ⟨fuel', rfl⟩ : ∃ n, fuel' = n + 1 := ⟨fuel' - 1, by omega⟩
    rw [List.append_nil] at hrun
    exact hok.trans hrun.symm
  · obtain ⟨_, ending⟩ := s
    subst hs
    exact he.trans (hall.refused hfs hrefuses h').symm

end Section

namespace Module

open Decoder Section

/-! ## Whole inputs -/

/-- **What becomes of an input.** It is a header and frames that are read, and then it is judged by
the final comparison; or its header is bad; or a section is refused behind frames that are read. -/
theorem outcome_decode (s : Source) :
    (∃ fs m, (∀ f ∈ fs, f.IsFramed) ∧ s = ⟨headerBytes ++ framesBytes fs, .clean⟩ ∧
      AddAll fs { version := Decoder.version } m ∧ (decode s).outcome = m.tallied) ∨
    (∃ e, (decode s).outcome = .error (.error e) ∧ (¬ ∃ rest, s.rest = headerBytes ++ rest) ∧
      (s.ending = .clean → ∃ why, e = .badHeader why)) ∨
    ∃ e fs m rest, (decode s).outcome = .error (.error e) ∧ (∀ f ∈ fs, f.IsFramed) ∧
      s.rest = headerBytes ++ (framesBytes fs ++ rest) ∧
      AddAll fs { version := Decoder.version } m ∧ Refuses m ⟨rest, s.ending⟩ e := by
  obtain ⟨input, ending⟩ := s
  by_cases hheader : ∃ rest, input = headerBytes ++ rest
  · obtain ⟨rest, rfl⟩ := hheader
    rw [outcome_decode_headerBytes]
    obtain ⟨fs, m, hfs, hall, ⟨hs, hok⟩ | ⟨e, rest', rfl, hrefuses, herror⟩⟩ :=
      outcome_sections (m := { version := Decoder.version }) (s := ⟨rest, ending⟩)
        (Nat.lt_succ_self _)
    · cases hs
      refine .inl ⟨fs, m, hfs, rfl, hall, ?_⟩
      rw [show (sections _ _ _).outcome = _ from hok]
      rfl
    · refine .inr (.inr ⟨e, fs, m, rest', ?_, hfs, rfl, hall, hrefuses⟩)
      rw [show (sections _ _ _).outcome = _ from herror]
      rfl
  · obtain hread | ⟨e, herror, he⟩ := outcome_header ⟨input, ending⟩
    · exact absurd hread hheader
    · refine .inr (.inl ⟨e, ?_, hheader, he⟩)
      have hwhole : silent wholeModule ⟨input, ending⟩ = .error (.error e) := by
        unfold wholeModule
        rw [silent_bind]
        exact Reader.bind_of_error herror _
      unfold decode
      rw [Traced.outcome_bind, show (wholeModule _).outcome = _ from hwhole]
      rfl

/-- **An input that is accepted is a header and a sequence of frames**, which build the module that
is answered. -/
theorem exists_frames_of_decode (h : (decode s).outcome = .ok m) :
    ∃ fs, (∀ f ∈ fs, f.IsFramed) ∧ s = ⟨headerBytes ++ framesBytes fs, .clean⟩ ∧
      AddAll fs { version := Decoder.version } m ∧ m.functions.length = m.signatures.length := by
  obtain ⟨fs, m', hfs, hs, hall, htally⟩ | ⟨e, herror, -⟩ | ⟨e, _, _, _, herror, -⟩ :=
    outcome_decode s
  · obtain ⟨rfl, hcounts⟩ := tallied_eq_ok_iff.1 (htally.symm.trans h)
    exact ⟨fs, hfs, hs, hall, hcounts⟩
  · cases herror.symm.trans h
  · cases herror.symm.trans h

/-- The final comparison finds no fault but missing bodies. -/
lemma eq_invalid_of_tallied (h : m.tallied = .error (.error e)) : ∃ why, e = .invalid why := by
  unfold tallied at h
  split at h
  · cases h
    exact ⟨_, rfl⟩
  · split at h
    · cases h
    · cases h

/-- **What is wrong with an input in memory**: bodies are missing behind its last section, or its
header is bad, or a section is refused. -/
theorem refused_of_decode {bs : List UInt8}
    (h : (decode ⟨bs, .clean⟩).outcome = .error (.error e)) :
    (∃ why, e = .invalid why) ∨
    ((∃ why, e = .badHeader why) ∧ ¬ ∃ rest, bs = headerBytes ++ rest) ∨
    ∃ fs m rest, (∀ f ∈ fs, f.IsFramed) ∧ bs = headerBytes ++ (framesBytes fs ++ rest) ∧
      AddAll fs { version := Decoder.version } m ∧ Refuses m ⟨rest, .clean⟩ e := by
  obtain ⟨fs, m, -, -, -, htally⟩ | ⟨e', herror, hnone, hbad⟩ |
    ⟨e', fs, m, rest, herror, hfs, hs, hall, hrefuses⟩ := outcome_decode ⟨bs, .clean⟩
  · exact .inl (eq_invalid_of_tallied (htally.symm.trans h))
  · cases herror.symm.trans h
    exact .inr (.inl ⟨hbad rfl, hnone⟩)
  · cases herror.symm.trans h
    exact .inr (.inr ⟨fs, m, rest, hfs, hs, hall, hrefuses⟩)

/-- **No later input revises such an error.** What is decided is decided by the bytes so far: no
read looks past the byte that decides it, nor past the end that is declared for a section, a body or
a name. -/
theorem decode_append_of_isLasting (bytes rest : List UInt8) (ending : Ending) (e : Error)
    (he : e.IsLasting) (h : (decode ⟨bytes, .clean⟩).outcome = .error (.error e)) :
    (decode ⟨bytes ++ rest, ending⟩).outcome = .error (.error e) := by
  obtain ⟨_, rfl⟩ | ⟨⟨_, rfl⟩, -⟩ | ⟨fs, m, behind, hfs, rfl, hall, hrefuses⟩ := refused_of_decode h
  · exact he.elim
  · exact he.elim
  · obtain ⟨id, why, rfl⟩ | ⟨-, hsame⟩ := hrefuses.cases_clean
    · exact he.elim
    · rw [List.append_assoc, outcome_decode_headerBytes, List.append_assoc,
        hall.refused hfs (hsame rest ending) (Nat.lt_succ_self _)]
      rfl

/-- A type that is not known, in a section that lacks bytes. -/
def unknownTagBytes : List UInt8 := headerBytes ++ [0x01, 0x0a, 0x01, 0x05]

/-- A name that is not UTF-8, in a section that lacks bytes. -/
def brokenNameBytes : List UInt8 := headerBytes ++ [0x00, 0x0a, 0x01, 0xff, 0x00]

/-- Both are refused, and stay refused with bytes that were missing. -/
theorem decode_undecidedInputs : ((decode ⟨unknownTagBytes, .clean⟩).outcome =
        .error (.error (.unsupported none none (.typeTag 5))) ∧
      (decode ⟨unknownTagBytes ++ [0x00, 0x00, 0x00], .clean⟩).outcome =
        .error (.error (.unsupported none none (.typeTag 5)))) ∧
    (decode ⟨brokenNameBytes, .clean⟩).outcome = .error (.error (.malformed (.name ⟨0, some 1⟩))) ∧
      (decode ⟨brokenNameBytes ++ [0x00, 0x00, 0x00], .clean⟩).outcome =
        .error (.error (.malformed (.name ⟨0, some 1⟩))) := by
  have htag : (decode ⟨unknownTagBytes, .clean⟩).outcome =
      .error (.error (.unsupported none none (.typeTag 5))) := by
    with_unfolding_all rfl
  have hname : (decode ⟨brokenNameBytes, .clean⟩).outcome =
      .error (.error (.malformed (.name ⟨0, some 1⟩))) := by
    with_unfolding_all rfl
  exact ⟨⟨htag, decode_append_of_isLasting _ _ .clean _ trivial htag⟩,
    hname, decode_append_of_isLasting _ _ .clean _ trivial hname⟩

end Module

end WasmToC

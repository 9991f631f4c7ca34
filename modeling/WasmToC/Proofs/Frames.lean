import WasmToC.Proofs.Contents

/-!
# Sections as they stand in the input

Behind the header an input that is accepted is a sequence of *frames*: an id, a length and a payload
of that length. Each payload is decoded by itself, against the module that the frames before it
have built, and has to be filled by its contents. So decoding is a fold over frames: this module
says which inputs are such sequences, that an input is one in at most one way, and that the outcome
of decoding is decided by the frames and by a comparison of two counts at the end.

## Main definitions

* `Section.Frame` — a section with the bytes of its length.
* `Section.Frame.Adds` — the contents of a frame take a module to another.
* `Section.AddAll` — the same of a sequence of frames.

## Main results

* `Section.frames_inj` — an input is a sequence of frames in one way only.
* `Section.AddAll.outcome_sections` — frames are read as sections.
* `Module.outcome_decode_frames` — the outcome of decoding a sequence of frames.
-/

namespace WasmToC

open List Reader

namespace Section

open Decoder

/-! ## Frames -/

/-- A section, and those behind it. -/
lemma outcome_sections_cons (fuel : Nat) (m : Module) (b : UInt8) (rest : List UInt8) (e : Ending) :
    (sections (fuel + 1) m ⟨b :: rest, e⟩).outcome =
      if 128 ≤ b.toNat then .error (.error (.malformed (.sectionId b)))
      else (framedSection b.toNat m ⟨rest, e⟩).outcome.bind fun p =>
        (sections fuel p.1 p.2).outcome := by
  rw [Decoder.sections]
  refine (Traced.outcome_bind (sectionId? ⟨b :: rest, e⟩) _).trans ?_
  simp only [sectionId?, Source.next]
  by_cases hb : 128 ≤ b.toNat
  · rw [if_pos hb, if_pos hb]
    rfl
  · rw [if_neg hb, if_neg hb]
    exact Traced.outcome_bind (framedSection b.toNat m ⟨rest, e⟩) _

/-- A section as it stands in the input. -/
structure Frame where
  /-- The id. -/
  id : Nat
  /-- The bytes of the length, which need not be the shortest that encode it. -/
  size : List UInt8
  /-- The payload. -/
  payload : List UInt8

namespace Frame

/-- The bytes of a frame. -/
def bytes (f : Frame) : List UInt8 := UInt8.ofNat f.id :: (f.size ++ f.payload)

/-- A frame that is one: its id is a byte without the high bit, and its length is that of its
payload. -/
structure IsFramed (f : Frame) : Prop where
  /-- The id. -/
  id_lt : f.id < 128
  /-- The length. -/
  size : Reader.Reads (varuint 32) f.size f.payload.length

/-- The contents of a frame fill its payload, and take the module `m` to `m'`. -/
def Adds (f : Frame) (m m' : Module) : Prop :=
  ∃ e, (Section.payload f.id m ⟨f.payload, .clean⟩).outcome = .ok (m', ⟨[], e⟩)

/-- The number of entries that a frame announces. -/
def announced (f : Frame) : Nat := Section.announced ⟨f.payload, .clean⟩

variable {f : Frame} {m m' : Module}

/-- **What a frame adds.** -/
theorem Adds.extends (h : f.Adds m m') : Extends m f.announced f.id m' := by
  obtain ⟨e, hpayload⟩ := h
  exact extends_of_payload hpayload

/-- The id of a frame is read from its byte. -/
lemma IsFramed.outcome_sections (hf : f.IsFramed) (fuel : Nat) (m : Module) (rest : List UInt8)
    (e : Ending) :
    (sections (fuel + 1) m ⟨UInt8.ofNat f.id :: rest, e⟩).outcome =
      (framedSection f.id m ⟨rest, e⟩).outcome.bind fun p =>
        (sections fuel p.1 p.2).outcome := by
  have hbyte : (UInt8.ofNat f.id).toNat = f.id := Utf8.toNat_byte (by have := hf.id_lt; omega)
  rw [outcome_sections_cons, hbyte, if_neg (Nat.not_le_of_lt hf.id_lt)]

/-- What becomes of a module by a frame, whatever comes behind. -/
def verdict (f : Frame) (m : Module) : Except Failure Module :=
  ((Section.payload f.id m).mapError (sectionError f.id) ⟨f.payload, .clean⟩).outcome.bind fun p =>
    if p.2.rest.length ≠ 0 then
      .error (.error (.corruptSection f.id (.unread p.2.rest.length f.payload.length)))
    else .ok p.1

/-- **A frame is read within its own bytes.** -/
theorem IsFramed.outcome_framedSection (hf : f.IsFramed) (m : Module) (rest : List UInt8)
    (ending : Ending) :
    (framedSection f.id m ⟨f.size ++ (f.payload ++ rest), ending⟩).outcome =
      (f.verdict m).map fun m' => (m', ⟨rest, ending⟩) := by
  refine (((decodes_of_reads hf.size).mapError (sectionError f.id)).outcome_bind _ _ _).trans ?_
  refine (silent_within_bind ((Section.payload f.id m).mapError (sectionError f.id)) _ _ _).trans ?_
  rw [region_append, verdict]
  change Except.bind (Traced.outcome _) _ = _
  cases ((Section.payload f.id m).mapError (sectionError f.id) ⟨f.payload, .clean⟩).outcome with
  | error e => rfl
  | ok p =>
    have hunread : (⟨f.payload ++ rest, ending⟩ : Source).unread f.payload.length p.2 =
        p.2.rest.length := by
      simp [Source.unread]
    simp only [Except.bind, hunread]
    by_cases hleft : p.2.rest.length ≠ 0
    · rw [if_pos hleft, if_pos hleft]
      rfl
    · have hinner : p.2.rest = [] := length_eq_zero_iff.1 (by omega)
      rw [if_neg hleft, if_neg hleft, Source.leave, hinner, nil_append, drop_left]
      rfl

lemma Adds.verdict_eq (h : f.Adds m m') : f.verdict m = .ok m' := by
  obtain ⟨e, hpayload⟩ := h
  unfold verdict
  change (((Section.payload f.id m ⟨f.payload, .clean⟩).outcome).mapError _).bind _ = _
  rw [hpayload]
  rfl

/-- **A frame is read as a section.** -/
theorem Adds.decodes (h : f.Adds m m') (hf : f.IsFramed) :
    Decodes (framedSection f.id m) (f.size ++ f.payload) m' := by
  intro rest e
  rw [append_assoc, hf.outcome_framedSection, h.verdict_eq]
  rfl

/-- **Only frames are read.** What was read as a section is the length and the payload of a frame,
and its contents fill the payload. -/
theorem exists_of_framedSection {id : Nat} {s s' : Source} (hid : id < 128)
    (h : (framedSection id m s).outcome = .ok (m', s')) :
    ∃ f : Frame, f.id = id ∧ f.IsFramed ∧ f.Adds m m' ∧
      s = ⟨f.size ++ (f.payload ++ s'.rest), s'.ending⟩ := by
  change ((silent (framedSection id m)) s) = _ at h
  unfold framedSection at h
  rw [silent_bind] at h
  obtain ⟨length, s1, hlength, hr⟩ := Reader.bind_eq_ok h
  rw [silent_bind] at hr
  obtain ⟨⟨m1, left⟩, s2, hwithin, hfinal⟩ := Reader.bind_eq_ok hr
  have hnumber : Reader.Settles (scope id) (· < 2 ^ 32) (varuint 32) :=
    settles_varuint 32
  obtain ⟨size, rfl, hsize⟩ := hnumber.reads (eq_ok_of_mapError hlength)
  dsimp only at hfinal
  by_cases hleft : left = 0
  · subst hleft
    obtain ⟨inner, hrun, hinner, hlen, rfl⟩ := within_eq_ok hwithin
    rw [if_neg (fun h => h rfl)] at hfinal
    cases hfinal
    have hbytes : (s1.rest.take length).length = length := length_take_of_le hlen
    refine ⟨⟨id, size, s1.rest.take length⟩, rfl, ⟨hid, ?_⟩, ⟨inner.ending, ?_⟩, ?_⟩
    · rw [hbytes]
      exact hsize
    · rw [← hinner]
      exact eq_ok_of_mapError hrun
    · rw [take_append_drop]
  · rw [if_pos hleft] at hfinal
    cases hfinal

end Frame

/-! ## Sequences of frames -/

/-- The contents of frames, one after the other, take the module `m` to `m'`. -/
inductive AddAll : List Frame → Module → Module → Prop
  | nil (m : Module) : AddAll [] m m
  | cons {f : Frame} {fs : List Frame} {m m1 m' : Module} (head : f.Adds m m1)
      (tail : AddAll fs m1 m') : AddAll (f :: fs) m m'

/-- The bytes of frames. -/
def framesBytes (fs : List Frame) : List UInt8 := fs.flatMap Frame.bytes

@[simp] lemma framesBytes_nil : framesBytes [] = [] := rfl

@[simp] lemma framesBytes_cons (f : Frame) (fs : List Frame) :
    framesBytes (f :: fs) = f.bytes ++ framesBytes fs := rfl

@[simp] lemma framesBytes_append (fs fs' : List Frame) :
    framesBytes (fs ++ fs') = framesBytes fs ++ framesBytes fs' := flatMap_append

/-- A beginning of the frames builds a module, from which the others go on. -/
lemma AddAll.of_append {fs fs' : List Frame} {m m' : Module} (h : AddAll (fs ++ fs') m m') :
    ∃ m1, AddAll fs m m1 ∧ AddAll fs' m1 m' := by
  induction fs generalizing m with
  | nil => exact ⟨m, .nil m, h⟩
  | cons f fs ih =>
    cases h with
    | cons head tail =>
      obtain ⟨m1, hfirst, hothers⟩ := ih tail
      exact ⟨m1, .cons head hfirst, hothers⟩

/-- **Frames are read as sections**, whatever comes behind them. -/
theorem AddAll.outcome_sections {fs : List Frame} {m m' : Module} (h : AddAll fs m m')
    (hfs : ∀ f ∈ fs, f.IsFramed) (rest : List UInt8) (e : Ending) {fuel : Nat}
    (hfuel : (framesBytes fs ++ rest).length < fuel) :
    ∃ fuel', rest.length < fuel' ∧ (sections fuel m ⟨framesBytes fs ++ rest, e⟩).outcome =
      (sections fuel' m' ⟨rest, e⟩).outcome := by
  induction h generalizing fuel with
  | nil m => exact ⟨fuel, hfuel, rfl⟩
  | @cons f fs m m1 m' head tail ih =>
    obtain ⟨fuel, rfl⟩ : ∃ n, fuel = n + 1 := ⟨fuel - 1, by omega⟩
    obtain ⟨hf, hfs⟩ := forall_mem_cons.1 hfs
    simp only [framesBytes_cons, Frame.bytes, cons_append, append_assoc, length_cons,
      length_append] at hfuel ⊢
    rw [hf.outcome_sections, ← append_assoc f.size, head.decodes hf]
    refine ih hfs ?_
    rw [length_append]
    omega

lemma AddAll.carries {fs : List Frame} {m m' : Module} (h : AddAll fs m m')
    (hfs : ∀ f ∈ fs, f.IsFramed) : Carries (framesBytes fs) m m' :=
  fun rest _ hfuel => h.outcome_sections hfs rest .clean hfuel

/-- The two ways to read the front of a source agree. -/
lemma reads_inj {α : Type} {r : Reader α} {bs bs' rest rest' : List UInt8} {a a' : α}
    (h : r.Reads bs a) (h' : r.Reads bs' a') (heq : bs ++ rest = bs' ++ rest') :
    bs = bs' ∧ a = a' ∧ rest = rest' := by
  have hread := h rest .clean
  rw [heq, h' rest' .clean] at hread
  simp only [Except.ok.injEq, Prod.mk.injEq, Source.mk.injEq, and_true] at hread
  obtain ⟨rfl, rfl⟩ := hread
  exact ⟨append_cancel_right heq, rfl, rfl⟩

/-- A frame ends where its length says. -/
lemma Frame.IsFramed.append_inj {f f' : Frame} {rest rest' : List UInt8} (hf : f.IsFramed)
    (hf' : f'.IsFramed) (heq : f.bytes ++ rest = f'.bytes ++ rest') : f = f' ∧ rest = rest' := by
  obtain ⟨id, size, payload⟩ := f
  obtain ⟨id', size', payload'⟩ := f'
  have hid := hf.id_lt
  have hid' := hf'.id_lt
  simp only [Frame.bytes, cons_append, append_assoc, List.cons.injEq] at heq hid hid'
  obtain ⟨hbyte, hbehind⟩ := heq
  have hids : id = id' := by
    have := congrArg UInt8.toNat hbyte
    rwa [Utf8.toNat_byte (by omega), Utf8.toNat_byte (by omega)] at this
  obtain ⟨rfl, hlength, hpayload⟩ := reads_inj hf.size hf'.size hbehind
  obtain ⟨rfl, rfl⟩ := List.append_inj hpayload hlength
  rw [hids]
  exact ⟨rfl, rfl⟩

/-- **An input is a sequence of frames in one way only.** -/
theorem frames_inj {fs fs' : List Frame} (hfs : ∀ f ∈ fs, f.IsFramed)
    (hfs' : ∀ f ∈ fs', f.IsFramed) (heq : framesBytes fs = framesBytes fs') : fs = fs' := by
  induction fs generalizing fs' with
  | nil =>
    cases fs' with
    | nil => rfl
    | cons f' fs' => cases heq
  | cons f fs ih =>
    cases fs' with
    | nil => cases heq
    | cons f' fs' =>
      rw [forall_mem_cons] at hfs hfs'
      obtain ⟨rfl, hothers⟩ := hfs.1.append_inj hfs'.1 heq
      rw [ih hfs.2 hfs'.2 hothers]

end Section

/-! ## Whole inputs -/

namespace Decoder

/-- The bytes of the header: the magic number and the version. -/
def headerBytes : List UInt8 := [0x00, 0x61, 0x73, 0x6d, 0x01, 0x00, 0x00, 0x00]

lemma decodes_headerBytes : Decodes header headerBytes version := decodes_header

/-- A number of a fixed width has one encoding. -/
lemma eq_littleEndian_of_read : ∀ {n v : Nat} {s s' : Source},
    Reader.littleEndian n s = .ok (v, s') → s = ⟨Varint.littleEndian n v ++ s'.rest, s'.ending⟩
  | 0, _, _, _, h => by
    cases h
    rfl
  | n + 1, v, s, s', h => by
    obtain ⟨low, s1, hlow, hr⟩ := Reader.bind_eq_ok h
    obtain ⟨high, s2, hhigh, hpure⟩ := Reader.bind_eq_ok hr
    cases hpure
    have hlt := low.toNat_lt
    have hs1 := eq_littleEndian_of_read hhigh
    rcases s with ⟨_ | ⟨b, rest⟩, e⟩
    · cases e <;> cases hlow
    · cases hlow
      simp only [Source.mk.injEq] at hs1
      have hmod : (low.toNat + 256 * high) % 256 = low.toNat := by omega
      have hdiv : (low.toNat + 256 * high) / 256 = high := by omega
      simp only [Varint.littleEndian, hmod, hdiv, UInt8.ofNat_toNat, cons_append, ← hs1.1, ← hs1.2]

/-- **Only the header is read as one.** -/
theorem eq_headerBytes_of_header {v : Nat} {s s' : Source} (h : (header s).outcome = .ok (v, s')) :
    v = version ∧ s = ⟨headerBytes ++ s'.rest, s'.ending⟩ := by
  change silent header s = _ at h
  unfold header at h
  rw [silent_bind] at h
  obtain ⟨first, s1, hfirst, hr⟩ := Reader.bind_eq_ok h
  by_cases hmagic : first = magic
  · rw [if_neg (fun h => h hmagic), silent_bind] at hr
    obtain ⟨second, s2, hsecond, hfinal⟩ := Reader.bind_eq_ok hr
    by_cases hversion : second = version
    · rw [if_neg (fun h => h hversion)] at hfinal
      cases hfinal
      have hs := eq_littleEndian_of_read (eq_ok_of_mapError hfirst)
      have hs1 := eq_littleEndian_of_read (eq_ok_of_mapError hsecond)
      subst hmagic hversion
      rw [hs1] at hs
      exact ⟨rfl, hs⟩
    · rw [if_pos hversion] at hfinal
      cases hfinal
  · rw [if_pos hmagic] at hr
    cases hr

end Decoder

namespace Module

open Decoder Section

/-- What is decided behind the last section: there has to be one body for each declared
function. -/
def tallied (m : Module) : Except Failure Module :=
  if m.functions.length < m.signatures.length then
    .error (.error (.invalid (.missingBodies (m.signatures.length - m.functions.length))))
  else if m.signatures.length < m.functions.length then .error .abort
  else .ok m

lemma tallied_eq_ok_iff {m m' : Module} :
    m.tallied = .ok m' ↔ m = m' ∧ m.functions.length = m.signatures.length := by
  unfold tallied
  split
  · simp
    omega
  · split
    · simp
      omega
    · simp
      omega

lemma outcome_finish (m : Module) (s : Source) :
    (finish m s).outcome = m.tallied.map fun m => (m, s) := by
  unfold finish tallied
  split
  · rfl
  · split
    · rfl
    · rfl

/-- Behind the header there are the sections, and then the comparison. -/
lemma outcome_decode_headerBytes (rest : List UInt8) (e : Ending) :
    (decode ⟨headerBytes ++ rest, e⟩).outcome =
      (sections (rest.length + 1) { version := Decoder.version } ⟨rest, e⟩).outcome.bind
        fun p => p.1.tallied := by
  have hwhole : (wholeModule ⟨headerBytes ++ rest, e⟩).outcome =
      (sections (rest.length + 1) { version := Decoder.version } ⟨rest, e⟩).outcome.bind
        fun p => p.1.tallied.map fun m => (m, p.2) := by
    refine (decodes_headerBytes.outcome_bind _ _ _).trans ?_
    refine (Traced.outcome_bind (sections (rest.length + 1) { version := Decoder.version }
      ⟨rest, e⟩) _).trans ?_
    congr 1
    funext p
    exact outcome_finish p.1 p.2
  change ((wholeModule ⟨headerBytes ++ rest, e⟩) >>= _ : Traced _).outcome = _
  rw [Traced.outcome_bind, hwhole]
  cases (sections (rest.length + 1) { version := Decoder.version } ⟨rest, e⟩).outcome with
  | error f => rfl
  | ok p =>
    change (p.1.tallied.map fun m => (m, p.2)).bind _ = p.1.tallied
    cases p.1.tallied <;> rfl

/-- **The outcome of decoding frames** is that of the final comparison. -/
theorem outcome_decode_frames {fs : List Frame} {m : Module} (hfs : ∀ f ∈ fs, f.IsFramed)
    (h : AddAll fs { version := Decoder.version } m) :
    (decode ⟨headerBytes ++ framesBytes fs, .clean⟩).outcome = m.tallied := by
  rw [outcome_decode_headerBytes, (h.carries hfs).outcome]
  rfl

/-- A short payload and its length in one byte. -/
def shortFrame (id : Nat) (payload : List UInt8) : Frame :=
  ⟨id, [UInt8.ofNat payload.length], payload⟩

lemma isFramed_shortFrame {id : Nat} {payload : List UInt8} (hid : id < 128)
    (hlen : payload.length < 128) : (shortFrame id payload).IsFramed := by
  refine ⟨hid, ?_⟩
  have hread : Reader.Reads (varuint 32) (Varint.writeUnsigned payload.length)
      payload.length := reads_varuint (Nat.lt_trans hlen (by decide))
  rwa [Varint.writeUnsigned, if_pos hlen] at hread

end Module

end WasmToC

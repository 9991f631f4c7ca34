import WasmToC.Proofs.Aborts
import WasmToC.Proofs.Surroundings

/-!
# Sections that are skipped

A section that is skipped leaves no trace in the text of a module, wherever it stands among the
other sections, and whatever these hold: the module is translated to the same text as without it,
or refused for the same reason. All that such a section can leave behind is its name, and nothing
that is done later depends on the names of sections. This is a statement about two runs. They are
compared step by step, by a relation between the modules that they have built.

## Main definitions

* `Section.Frame.IsSkipped` — a frame that is skipped.

## Main results

* `Section.parallel_sections` — no section reads the names of sections.
* `Section.outcome_sections_frames` — frames are judged one by one.
* `assemble_named` — no text depends on the names of sections.
* `compile_skipped` — sections that are skipped leave no trace.
-/

namespace WasmToC

open List Reader
open WasmToC.Module (Renamed)

namespace Reader

variable {α α' β : Type} {R : α → α' → Prop} {x : Except Failure (α × Source)}
  {x' : Except Failure (α' × Source)}

/-- Runs that are alike end in the same way, if related results at the same place do. -/
lemma Alike.bind_eq {f : α × Source → Except Failure β} {f' : α' × Source → Except Failure β}
    (h : Alike R x x') (hf : ∀ a a' s, R a a' → f (a, s) = f' (a', s)) : x.bind f = x'.bind f' := by
  cases x with
  | ok p =>
    obtain ⟨a', rfl, ha⟩ := h
    exact hf p.1 a' p.2 ha
  | error e =>
    obtain rfl := h
    rfl

lemma Alike.mapError (h : Alike R x x') (f : Failure → Failure) :
    Alike R (x.mapError f) (x'.mapError f) := by
  cases x with
  | ok p =>
    obtain ⟨a', rfl, ha⟩ := h
    exact ⟨a', rfl, ha⟩
  | error e =>
    obtain rfl := h
    rfl

end Reader

namespace Section

open Decoder

variable {m m' : Module}

/-! ## No section reads the names of sections -/

lemma alike_framedSection (id : Nat) (h : Renamed m m') (s : Source) :
    Reader.Alike Renamed (silent (framedSection id m) s) (silent (framedSection id m') s) := by
  unfold framedSection
  rw [silent_bind, silent_bind]
  have hlength := alike_refl (x := silent ((liftM (varuint 32) : Decoder Nat).mapError
    (sectionError id)) s) (P := Reader.Any) fun _ _ _ => trivial
  refine hlength.bind ?_
  rintro length _ s ⟨rfl, -⟩
  simp only [silent_within_bind]
  refine ((alike_payload (C := False) id ⟨h, False.elim⟩ _).mapError _).bind ?_
  rintro m m' inner ⟨h, -⟩
  by_cases hleft : s.unread length inner ≠ 0
  · rw [if_pos hleft, if_pos hleft]
    rfl
  · rw [if_neg hleft, if_neg hleft]
    exact ⟨m', rfl, h⟩

/-- **All sections** are read alike. -/
theorem parallel_sections : ∀ (fuel : Nat) {m m' : Module}, Renamed m m' → ∀ s,
    Reader.Alike Renamed (sections fuel m s).outcome (sections fuel m' s).outcome
  | 0, _, _, _, _ => rfl
  | fuel + 1, m, m', h, ⟨[], e⟩ => by
    cases e with
    | clean => exact ⟨m', rfl, h⟩
    | broken f => rfl
  | fuel + 1, m, m', h, ⟨b :: rest, e⟩ => by
    rw [outcome_sections_cons, outcome_sections_cons]
    by_cases hb : 128 ≤ b.toNat
    · rw [if_pos hb, if_pos hb]
      rfl
    · rw [if_neg hb, if_neg hb]
      exact (alike_framedSection b.toNat h ⟨rest, e⟩).bind fun _ _ s h =>
        parallel_sections fuel h s

/-! ## Frames are judged one by one -/

lemma outcome_payload_other {id : Nat} (hid : id ∉ [0, 1, 2, 3, 5, 6, 7, 9, 10]) (m : Module)
    (s : Source) : (payload id m s).outcome = (other id m s).outcome := by
  unfold payload
  split
  all_goals first
    | exact absurd (by decide) hid
    | rfl

namespace Frame

/-- A frame that is skipped: one that has a name, or one that holds nothing that is known. -/
inductive IsSkipped (f : Frame) : Prop
  /-- A section with a name. -/
  | custom {length content others : List UInt8} {name : String} (hid : f.id = customId)
      (hpayload : f.payload = length ++ (content ++ others))
      (hlength : Reader.Reads (varuint 32) length content.length)
      (hname : Utf8.decode content = .ok name) : IsSkipped f
  /-- A section with an id that is not known. -/
  | unknown (hid : f.id ∉ [0, 1, 2, 3, 5, 6, 7, 9, 10]) : IsSkipped f

/-- All that a frame that is skipped can leave behind is a name. -/
lemma IsSkipped.exists_verdict {f : Frame} (h : f.IsSkipped) (m : Module) :
    ∃ m', f.verdict m = .ok m' ∧ Renamed m m' := by
  cases h with
  | @custom length content others name hid hpayload hlen hname =>
    have hread : Reader.Reads Reader.name (length ++ content) name := by
      refine hlen.bind ((reads_bytes content).andThen ?_)
      rw [hname]
      exact reads_pure name
    have hrun : (Section.custom m ⟨length ++ content ++ others, .clean⟩).outcome =
        .ok (m.named (m.customSections ++ [name]), ⟨[], .clean⟩) :=
      (decodes_of_reads hread).outcome_bind _ others .clean
    refine ⟨m.named (m.customSections ++ [name]), ?_, _, rfl⟩
    unfold verdict
    rw [hid, hpayload, ← append_assoc]
    show ((Section.custom m ⟨length ++ content ++ others, .clean⟩).outcome.mapError _).bind _ = _
    rw [hrun]
    rfl
  | unknown hid =>
    refine ⟨m, ?_, .refl m⟩
    unfold verdict
    show ((Section.payload f.id m ⟨f.payload, .clean⟩).outcome.mapError _).bind _ = _
    rw [outcome_payload_other hid]
    rfl

end Frame

/-- **Frames are judged one by one**, and then what comes behind them. -/
theorem outcome_sections_frames {fs : List Frame} (hfs : ∀ f ∈ fs, f.IsFramed) (m : Module)
    (rest : List UInt8) {fuel : Nat} (hfuel : (framesBytes fs ++ rest).length < fuel) :
    (sections fuel m ⟨framesBytes fs ++ rest, .clean⟩).outcome =
      (fs.foldlM (fun m (f : Frame) => f.verdict m) m).bind fun m' =>
        (sections (rest.length + 1) m' ⟨rest, .clean⟩).outcome := by
  induction fs generalizing m fuel with
  | nil => exact outcome_sections_eq hfuel (Nat.lt_succ_self _)
  | cons f fs ih =>
    obtain ⟨hf, hfs⟩ := forall_mem_cons.1 hfs
    simp only [framesBytes_cons, Frame.bytes, cons_append, append_assoc, length_cons,
      length_append] at hfuel ⊢
    obtain ⟨fuel, rfl⟩ : ∃ n, fuel = n + 1 := ⟨fuel - 1, by omega⟩
    rw [hf.outcome_sections, hf.outcome_framedSection, foldlM_cons]
    cases hverdict : f.verdict m with
    | error e => rfl
    | ok m1 =>
      show (sections fuel m1 ⟨framesBytes fs ++ rest, .clean⟩).outcome = _
      refine (ih hfs m1 ?_).trans rfl
      rw [length_append]
      omega

end Section

/-! ## No text depends on the names of sections -/

/-- What an instruction depends on, with other names of sections. -/
def Surroundings.named (env : Surroundings) (names : List String) : Surroundings :=
  { env with inModule := env.inModule.named names }

/-- Names of sections have no part in the types. -/
lemma Surroundings.sameTypes_named (env : Surroundings) (names : List String) :
    (env.named names).SameTypes env :=
  ⟨rfl, rfl, rfl, rfl, fun _ => rfl, fun _ => rfl⟩

section Emission

variable (m : Module) (names : List String)

lemma rebuildFunction_named (pos : Nat) :
    rebuildFunction (m.named names) pos = rebuildFunction m pos := by
  have hbody : ∀ index f t, rebuildBody (m.named names) index f t = rebuildBody m index f t := by
    intro index f t
    unfold rebuildBody
    rw [show surroundings (m.named names) index f t =
      (surroundings m index f t).named names from rfl]
    simp only [Rebuild.run_congr (Surroundings.sameTypes_named _ names)]
    rfl
  unfold rebuildFunction
  simp only [hbody]
  rfl

lemma rebuildFrom_named (count pos : Nat) :
    rebuildFrom (m.named names) count pos = rebuildFrom m count pos := by
  induction count generalizing pos with
  | zero => rfl
  | succ count ih => rw [rebuildFrom, rebuildFrom, rebuildFunction_named, ih]

lemma prototypesFrom_named (index : Nat) (functions : List Function) :
    prototypesFrom (m.named names) index functions = prototypesFrom m index functions := by
  induction functions generalizing index with
  | nil => rfl
  | cons f rest ih =>
    rw [prototypesFrom, prototypesFrom, ih]
    rfl

/-- **No text depends on the names of sections.** -/
theorem assemble_named (o : Options) : assemble (m.named names) o = assemble m o := by
  unfold assemble prototypes
  rw [prototypesFrom_named, rebuildFrom_named]
  rfl

/-- The final comparison does not either, nor does the text that is written then. -/
lemma tallied_named (o : Options) : ((m.named names).tallied.bind fun m => (emit m o).outcome) =
      m.tallied.bind fun m => (emit m o).outcome := by
  have hemit : emit (m.named names) o = emit m o := by
    unfold emit
    rw [assemble_named]
  show Except.bind (if m.functions.length < m.signatures.length then _
    else if m.signatures.length < m.functions.length then _ else _) _ =
      Except.bind (if m.functions.length < m.signatures.length then _
        else if m.signatures.length < m.functions.length then _ else _) _
  split
  · rfl
  · split
    · rfl
    · exact congrArg Traced.outcome hemit

end Emission

/-! ## Whole inputs -/

open Decoder Section

/-- The outcome of a translation is that of decoding, and then that of writing. -/
lemma outcome_compile (bs : List UInt8) (o : Options) : (compile bs o).outcome =
      (Module.decode ⟨bs, .clean⟩).outcome.bind fun m => (emit m o).outcome := by
  unfold compile
  rw [Traced.outcome_bind, Traced.outcome_bind]
  rfl

/-- The outcome behind the header: the frames are judged, then what comes behind them. -/
lemma outcome_compile_frames {fs : List Frame} (hfs : ∀ f ∈ fs, f.IsFramed)
    (rest : List UInt8) (o : Options) :
    (compile (headerBytes ++ (framesBytes fs ++ rest)) o).outcome =
      (fs.foldlM (fun m (f : Frame) => f.verdict m) { version := Decoder.version }).bind fun m =>
        (sections (rest.length + 1) m ⟨rest, .clean⟩).outcome.bind fun p =>
          p.1.tallied.bind fun m => (emit m o).outcome := by
  rw [outcome_compile, Module.outcome_decode_headerBytes,
    outcome_sections_frames hfs _ rest (Nat.lt_succ_self _)]
  cases fs.foldlM (fun m (f : Frame) => f.verdict m) { version := Decoder.version } with
  | error e => rfl
  | ok m =>
    show Except.bind (Except.bind (sections (rest.length + 1) m ⟨rest, .clean⟩).outcome _) _ =
      Except.bind (sections (rest.length + 1) m ⟨rest, .clean⟩).outcome _
    cases (sections (rest.length + 1) m ⟨rest, .clean⟩).outcome with
    | error e => rfl
    | ok p => rfl

/-- **Sections that are skipped leave no trace.** Behind the header and any sections, whether their
contents are right or not, a section that is skipped can be left out: the translation ends with the
same text, or with the same error, whatever comes behind it. -/
theorem compile_skipped {pre : List Frame} {f : Frame} (hpre : ∀ g ∈ pre, g.IsFramed)
    (hf : f.IsFramed) (hskipped : f.IsSkipped) (post : List UInt8) (o : Options) :
    (compile (headerBytes ++ framesBytes pre ++ f.bytes ++ post) o).outcome =
      (compile (headerBytes ++ framesBytes pre ++ post) o).outcome := by
  have hall : ∀ g ∈ pre ++ [f], g.IsFramed :=
    forall_mem_append.2 ⟨hpre, by simpa using hf⟩
  have hbytes : headerBytes ++ framesBytes pre ++ f.bytes ++ post =
      headerBytes ++ (framesBytes (pre ++ [f]) ++ post) := by
    simp
  rw [hbytes, append_assoc, outcome_compile_frames hall, outcome_compile_frames hpre, foldlM_append]
  cases pre.foldlM (fun m (f : Frame) => f.verdict m) { version := Decoder.version } with
  | error e => rfl
  | ok m =>
    obtain ⟨m', hverdict, hrenamed⟩ := hskipped.exists_verdict m
    have hlast : [f].foldlM (fun m (f : Frame) => f.verdict m) m = .ok m' := by
      rw [foldlM_cons, hverdict]
      rfl
    show Except.bind ([f].foldlM (fun m (f : Frame) => f.verdict m) m) _ =
      Except.bind (sections (post.length + 1) m ⟨post, .clean⟩).outcome _
    rw [hlast]
    -- what comes behind is read alike, and written alike
    refine ((parallel_sections (post.length + 1) hrenamed ⟨post, .clean⟩).bind_eq ?_).symm
    rintro m1 _ s ⟨names, rfl⟩
    exact (tallied_named m1 names o).symm

/-- The types of a module with one function. -/
def typesFrame : Frame := Module.shortFrame 1 [0x01, 0x60, 0x00, 0x00]

/-- The function: its declaration and its body. -/
def functionFrames : List Frame := [Module.shortFrame 3 [0x01, 0x00],
  Module.shortFrame 10 [0x01, 0x02, 0x00, 0x0b]]

/-- A section with a name, and bytes that mean nothing. -/
def namedFrame : Frame := Module.shortFrame 0 [0x01, 0x61, 0xff, 0x0a]

/-- A section with an id that is not known. -/
def unknownFrame : Frame := Module.shortFrame 11 [0xff]

/-- Between the types of a module and its function a section can be left out, and so it can in front
of a byte that is the id of no section. -/
theorem compile_skipped_namedFrame : (∀ g ∈ [typesFrame], g.IsFramed) ∧
    (namedFrame.IsFramed ∧ namedFrame.IsSkipped) ∧
    (unknownFrame.IsFramed ∧ unknownFrame.IsSkipped) ∧
    (compile (headerBytes ++ framesBytes [typesFrame] ++ namedFrame.bytes ++
        framesBytes functionFrames) {}).outcome =
      (compile (headerBytes ++ framesBytes [typesFrame] ++ framesBytes functionFrames) {}).outcome ∧
    (compile (headerBytes ++ framesBytes [typesFrame] ++ unknownFrame.bytes ++ [0x80]) {}).outcome =
      .error (.error (.malformed (.sectionId 0x80))) := by
  have hpre : ∀ g ∈ [typesFrame], g.IsFramed := by
    intro g hg
    rw [mem_singleton.1 hg]
    exact Module.isFramed_shortFrame (by decide) (by decide)
  have hnamed : namedFrame.IsFramed := Module.isFramed_shortFrame (by decide) (by decide)
  have hunknown : unknownFrame.IsFramed := Module.isFramed_shortFrame (by decide) (by decide)
  have hlen : Reader.Reads (varuint 32) [0x01] ([0x61] : List UInt8).length :=
    (Module.isFramed_shortFrame (by decide : 0 < 128)
      (by decide : ([0x61] : List UInt8).length < 128)).size
  have hskipped : namedFrame.IsSkipped := .custom rfl rfl hlen rfl
  have hskipped' : unknownFrame.IsSkipped := .unknown (by decide)
  refine ⟨hpre, ⟨hnamed, hskipped⟩, ⟨hunknown, hskipped'⟩,
    compile_skipped hpre hnamed hskipped _ _, ?_⟩
  rw [compile_skipped hpre hunknown hskipped']
  with_unfolding_all rfl

end WasmToC

import WasmToC.Proofs.Decoded

/-!
# Which type a body is given

A function is declared by a type in one section and defined by a body in another. The two are
paired while a code section is read, by the position of the body in *this* section. A module has
one code section, and then the body of each function is given the type that its callers see. But
the sections of an input may come in any number, and only the totals are compared in the end: a
second code section starts again with the first declared type, so that definitions and callers may
disagree in a module that is accepted.

## Main definitions

* `Module.bodyTypes` — the types that the bodies were given.
* `Section.Declares`, `Section.Defines` — what one section does to declarations and
  bodies.

## Main results

* `Section.AddAll.bodyTypes` — each code section pairs its bodies with the types declared so
  far, from the first one on.
* `Module.bodyTypes_of_decode` — so of every input that is accepted; with one code section
  definitions and callers agree.
* `Module.bodyTypes_crossedSections` — with two they need not.
-/

namespace WasmToC

open List

/-- The indices of the types that the bodies of a module were given. -/
def Module.bodyTypes (m : Module) : List Nat := m.functions.map (·.typeIndex)

namespace Section

open Decoder

variable {m m' : Module}

/-! ## One section -/

/-- Functions may have been declared, and no body was added. -/
structure Declares (m m' : Module) : Prop where
  /-- The bodies are the same. -/
  functions : m'.functions = m.functions
  /-- The declared types are still there. -/
  signatures : m.signatures <+: m'.signatures

/-- Bodies were added, one for each function declared so far. -/
structure Defines (m m' : Module) : Prop where
  /-- The declared types are the same. -/
  signatures : m'.signatures = m.signatures
  /-- The new bodies have the declared types, from the first one on. -/
  bodyTypes : m'.bodyTypes = m.bodyTypes ++ m.signatures

/-- **What one section does** to declarations and bodies. -/
theorem Extends.declares_or_defines {count id : Nat} (h : Extends m count id m') :
    if id = codeId then Defines m m' else Declares m m' := by
  have hkept : m.signatures <+: m.signatures := prefix_refl _
  cases h with
  | signatures ts => exact ⟨rfl, prefix_append _ _⟩
  | code fs _ hts =>
    refine ⟨rfl, ?_⟩
    rw [Module.bodyTypes, map_append, hts]
    rfl
  | other hid =>
    have hother : ¬ id = codeId := fun h => hid (by simp [h, codeId])
    rw [if_neg hother]
    exact ⟨rfl, hkept⟩
  | custom | types | imports | memories | globals | exports | segments => exact ⟨rfl, hkept⟩

/-! ## All sections -/

/-- The sections that hold bodies. -/
def codeFrames (fs : List Frame) : List Frame := fs.filter (·.id = codeId)

/-- **The types of the bodies**, code section by code section: each starts again with the first
declared type, and goes as far as types have been declared. -/
theorem AddAll.bodyTypes {fs : List Frame} (h : AddAll fs m m') :
    m.signatures <+: m'.signatures ∧ ∃ counts : List Nat,
      counts.length = (codeFrames fs).length ∧ counts.Pairwise (· ≤ ·) ∧
      (∀ n ∈ counts, m.signatures.length ≤ n ∧ n ≤ m'.signatures.length) ∧
      m'.bodyTypes = m.bodyTypes ++ counts.flatMap m'.signatures.take := by
  induction h with
  | nil m => exact ⟨prefix_refl _, [], rfl, .nil, by simp, by simp⟩
  | @cons f fs m m1 m' head tail ih =>
    obtain ⟨hmore, counts, hlength, hsorted, hbounds, hts⟩ := ih
    have hfirst := head.extends.declares_or_defines
    by_cases hcode : f.id = codeId
    · simp only [if_pos hcode] at hfirst
      rw [hfirst.signatures] at hmore hbounds
      refine ⟨hmore, m.signatures.length :: counts, ?_, ?_, ?_, ?_⟩
      · simp [codeFrames, hcode, hlength]
      · exact .cons (fun n hn => (hbounds n hn).1) hsorted
      · exact forall_mem_cons.2 ⟨⟨Nat.le_refl _, hmore.length_le⟩, hbounds⟩
      · rw [hts, hfirst.bodyTypes, flatMap_cons, ← prefix_iff_eq_take.1 hmore, append_assoc]
    · simp only [if_neg hcode] at hfirst
      refine ⟨hfirst.signatures.trans hmore, counts, ?_, hsorted, ?_, ?_⟩
      · simp [codeFrames, hcode, hlength]
      · intro n hn
        have := hfirst.signatures.length_le
        have := hbounds n hn
        omega
      · rw [hts, Module.bodyTypes, Module.bodyTypes, hfirst.functions]

end Section

namespace Module

open Decoder Section

variable {m : Module}

/-! ## Whole inputs -/

/-- The type that callers see of a function of the module's own is the declared one. -/
lemma functionType?_own {i t : Nat} (h : m.signatures[i]? = some t) :
    m.functionType? (m.importedFunctions + i) = m.types[t]? := by
  obtain ⟨hlt, rfl⟩ := List.getElem?_eq_some_iff.1 h
  have hown : ¬ m.importedFunctions + i < m.importedFunctions := by omega
  simp [functionType?, function?, hown, hlt]

/-- **The types of definitions.** The bodies of an accepted module were given the declared types,
code section by code section, each time from the first declared type on. So with one code section
every body has the type that is declared for its function, which is the type that every caller
sees. -/
theorem bodyTypes_of_decode {s : Source} {fs : List Frame}
    (h : (decode s).outcome = .ok m) (hfs : ∀ f ∈ fs, f.IsFramed)
    (hs : s.rest = headerBytes ++ framesBytes fs) :
    (∃ counts : List Nat, counts.length = (codeFrames fs).length ∧ counts.Pairwise (· ≤ ·) ∧
      (∀ n ∈ counts, n ≤ m.signatures.length) ∧
      m.bodyTypes = counts.flatMap m.signatures.take) ∧
    ((codeFrames fs).length ≤ 1 → ∀ i f, m.functions[i]? = some f →
      m.signatures[i]? = some f.typeIndex ∧
      m.functionType? (m.importedFunctions + i) = m.types[f.typeIndex]?) := by
  obtain ⟨fs', hfs', rfl, hall, hcounts⟩ := exists_frames_of_decode h
  obtain rfl : fs' = fs := frames_inj hfs' hfs (append_cancel_left hs)
  obtain ⟨-, counts, hlength, hsorted, hbounds, hts⟩ := hall.bodyTypes
  have hnone : ({ version := Decoder.version } : Module).bodyTypes = [] := rfl
  rw [hnone, nil_append] at hts
  refine ⟨⟨counts, hlength, hsorted, fun n hn => (hbounds n hn).2, hts⟩, ?_⟩
  intro hone
  have hlen : m.bodyTypes.length = m.signatures.length := by
    rw [bodyTypes, length_map, hcounts]
  -- one code section has gone as far as the types that are declared in the end
  have hsame : m.bodyTypes = m.signatures := by
    rw [← hlength] at hone
    match counts, hone with
    | [], _ =>
      rw [hts] at hlen ⊢
      exact (length_eq_zero_iff.1 hlen.symm).symm
    | [n], _ =>
      rw [flatMap_singleton] at hts
      rw [hts, length_take] at hlen
      rw [hts]
      exact take_of_length_le (by omega)
  intro i f hf
  have htype : m.signatures[i]? = some f.typeIndex := by
    rw [← hsame, bodyTypes, getElem?_map, hf]
    rfl
  exact ⟨htype, functionType?_own htype⟩

/-- The frames of an input in which types and imports come a second time, with one code section. -/
def repeatedFrames : List Frame := [ shortFrame 1 [0x01, 0x60, 0x00, 0x00],
  shortFrame 2 [0x01, 0x01, 0x61, 0x01, 0x62, 0x00, 0x00],
  shortFrame 3 [0x01, 0x00],
  shortFrame 7 [0x01, 0x01, 0x66, 0x00, 0x01],
  shortFrame 10 [0x01, 0x05, 0x00, 0x02, 0x40, 0x0b, 0x0b],
  shortFrame 1 [0x01, 0x60, 0x00, 0x00],
  shortFrame 2 [0x01, 0x01, 0x61, 0x01, 0x63, 0x00, 0x01]]

lemma isFramed_repeatedFrames : ∀ f ∈ repeatedFrames, f.IsFramed := by
  simp only [repeatedFrames, forall_mem_cons, not_mem_nil, false_imp_iff, implies_true, and_true]
  refine ⟨?_, ?_, ?_, ?_, ?_, ?_, ?_⟩ <;> exact isFramed_shortFrame (by decide) (by decide)

/-- The function behind the two imports is defined with the type that its callers see. -/
theorem bodyTypes_repeatedSections : (decode repeatedSections).outcome = .ok repeatedModule ∧
    (codeFrames repeatedFrames).length ≤ 1 ∧
    repeatedModule.functionType? 2 = repeatedModule.types[0]? :=
  ⟨decode_repeatedSections, by decide,
    ((bodyTypes_of_decode decode_repeatedSections isFramed_repeatedFrames (by decide)).2 (by decide)
      0 _ rfl).2⟩

/-- The bytes of a module with two code sections, and declarations before, between and behind
them. -/
def crossedSections : Source where
  rest := [0x00, 0x61, 0x73, 0x6d, 0x01, 0x00, 0x00, 0x00,
    0x01, 0x08, 0x02, 0x60, 0x00, 0x00, 0x60, 0x01, 0x7f, 0x00,
    0x03, 0x02, 0x01, 0x00,
    0x0a, 0x04, 0x01, 0x02, 0x00, 0x0b,
    0x03, 0x02, 0x01, 0x01,
    0x0a, 0x0b, 0x02, 0x02, 0x00, 0x0b, 0x06, 0x00, 0x41, 0x05, 0x10, 0x01, 0x0b,
    0x03, 0x02, 0x01, 0x01]

/-- The module that these bytes hold. -/
def crossedModule : Module where
  types := [⟨[], none⟩, ⟨[.i32], none⟩]
  signatures := [0, 1, 1]
  functions := [⟨0, [], []⟩, ⟨0, [], []⟩,
    ⟨1, [], [⟨.const .i32, .value (.i32 5)⟩, ⟨.call, .index 1⟩]⟩]

/-- **Two code sections.** The second function is declared with a parameter, which its caller
passes, and is defined without one. -/
theorem bodyTypes_crossedSections : (decode crossedSections).outcome = .ok crossedModule ∧
    crossedModule.bodyTypes = [0, 0, 1] ∧ crossedModule.signatures = [0, 1, 1] ∧
    crossedModule.functionType? 1 = some ⟨[.i32], none⟩ ∧
    crossedModule.types[0]? = some ⟨[], none⟩ := by
  refine ⟨?_, rfl, rfl, rfl, rfl⟩
  with_unfolding_all rfl

end Module

end WasmToC

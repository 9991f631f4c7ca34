import WasmToC.Proofs.Refusals

/-!
# How many memories a module has

A module has one memory at most, imported or declared, and its maximum is not below its initial
size: so a section that declares memories checks it, for the memories that are there by then. A
section that imports memories checks nothing. A module that is accepted may therefore have several
imported memories, and limits that are out of order, as long as no section that declares memories
comes behind them.

## Main definitions

* `Section.importsId`, `Section.memoriesId` — the ids of the sections that can add a
  memory.
* `Module.OneDeclared` — what every section keeps.

## Main results

* `Section.AddAll.memories_le` — behind the last section that declares memories, only
  imports add to them.
* `Module.memories_of_decode` — what is true of every module that is accepted.
* `Module.memories_twiceImported` — two imported memories are accepted.
-/

namespace WasmToC

/-- One memory at most has been declared, and its limits are in order. -/
structure Module.OneDeclared (m : Module) : Prop where
  /-- There is one at most. -/
  length_le : m.memories.length ≤ 1
  /-- It is in order. -/
  ordered : ∀ l ∈ m.memories, l.IsOrdered

namespace Section

/-- The id of sections that import. -/
def importsId : Nat := 2

/-- The id of sections that declare memories. -/
def memoriesId : Nat := 5

variable {m m' : Module} {fs : List Frame}

/-! ## One section -/

lemma importedMemories_congr (h : m'.imports = m.imports) :
    m'.importedMemories = m.importedMemories := by
  simp only [Module.importedMemories, Module.importsOf, h]

/-- Every section keeps the declared memories in order. -/
lemma Extends.oneDeclared {n id : Nat} (h : Extends m n id m') (hm : m.OneDeclared) :
    m'.OneDeclared := by
  cases h with
  | memories ls _ hordered =>
    refine ⟨?_, List.forall_mem_append.2 ⟨hm.ordered, hordered⟩⟩
    change (m.memories ++ ls).length ≤ 1
    omega
  | custom | types | imports | signatures | globals | exports | segments | code =>
    exact ⟨hm.length_le, hm.ordered⟩
  | other => exact hm

/-- A section that declares memories leaves one at most. -/
lemma Extends.memories_le {n : Nat} (h : Extends m n memoriesId m') :
    m'.memories.length + m'.importedMemories ≤ 1 := by
  generalize hid : memoriesId = id at h
  cases h with
  | memories ls _ _ hone => exact hone
  | other hid' => exact absurd (by rw [← hid]; decide) hid'
  | custom | types | imports | signatures | globals | exports | segments | code => cases hid

/-- A section that neither imports nor declares memories leaves those that are there. -/
lemma Extends.memories_eq {n id : Nat} (h : Extends m n id m') (himports : id ≠ importsId)
    (hmemories : id ≠ memoriesId) : m'.memories = m.memories ∧ m'.imports = m.imports := by
  cases h with
  | imports => exact absurd rfl himports
  | memories => exact absurd rfl hmemories
  | custom | types | signatures | globals | exports | segments | code => exact ⟨rfl, rfl⟩
  | other => exact ⟨rfl, rfl⟩

/-! ## All sections -/

lemma AddAll.oneDeclared (h : AddAll fs m m') (hm : m.OneDeclared) : m'.OneDeclared := by
  induction h with
  | nil => exact hm
  | cons head tail ih => exact ih (head.extends.oneDeclared hm)

/-- One memory at most is kept so by sections that do not import. -/
lemma AddAll.memories_le_of_no_imports (h : AddAll fs m m') (hfs : ∀ f ∈ fs, f.id ≠ importsId)
    (hm : m.memories.length + m.importedMemories ≤ 1) :
    m'.memories.length + m'.importedMemories ≤ 1 := by
  induction h with
  | nil => exact hm
  | @cons f fs m m1 m' head tail ih =>
    obtain ⟨himports, hfs⟩ := List.forall_mem_cons.1 hfs
    refine ih hfs ?_
    by_cases hmemories : f.id = memoriesId
    · exact (hmemories ▸ head.extends).memories_le
    · obtain ⟨hsame, hsame'⟩ := head.extends.memories_eq himports hmemories
      rw [hsame, importedMemories_congr hsame']
      exact hm

/-- **Behind a section that declares memories**, only imports add to them. -/
theorem AddAll.memories_le {pre post : List Frame} {f : Frame}
    (h : AddAll (pre ++ f :: post) m m') (hf : f.id = memoriesId)
    (hafter : ∀ g ∈ post, g.id ≠ importsId) : m'.memories.length + m'.importedMemories ≤ 1 := by
  obtain ⟨m1, -, hr⟩ := h.of_append
  cases hr with
  | cons head tail => exact tail.memories_le_of_no_imports hafter (hf ▸ head.extends).memories_le

end Section

namespace Module

open Decoder Section

variable {m : Module}

/-! ## Whole inputs -/

/-- The limits of the memory are those of the first import, or those that are declared. -/
lemma memoryLimits?_eq_some {l : Limits} (h : m.memoryLimits? = some l) :
    (∃ i, (m.importsOf .memory).head? = some i ∧ i.desc.limits? = some l) ∨ l ∈ m.memories := by
  unfold memoryLimits? at h
  split at h
  · rename_i l' hf
    cases h
    exact .inl (Option.bind_eq_some_iff.1 hf)
  · exact .inr (List.mem_of_mem_head? h)

/-- **The memories of a module that is accepted.** One at most is declared, and its limits are in
order. Behind a section that declares memories, as long as nothing is imported there, the imported
and the declared ones together are one at most. The limits of the memory are in order unless they
are those of an imported memory. -/
theorem memories_of_decode {s : Source} {fs : List Frame} (h : (decode s).outcome = .ok m)
    (hfs : ∀ f ∈ fs, f.IsFramed) (hs : s.rest = headerBytes ++ framesBytes fs) :
    m.memories.length ≤ 1 ∧ (∀ l ∈ m.memories, l.IsOrdered) ∧
    (∀ pre f post, fs = pre ++ f :: post → f.id = memoriesId →
      (∀ g ∈ post, g.id ≠ importsId) → m.memories.length + m.importedMemories ≤ 1) ∧
    ∀ l, m.memoryLimits? = some l →
      l.IsOrdered ∨ ∃ i, (m.importsOf .memory).head? = some i ∧ i.desc.limits? = some l := by
  obtain ⟨fs', hfs', rfl, hall, -⟩ := exists_frames_of_decode h
  obtain rfl : fs' = fs := frames_inj hfs' hfs (List.append_cancel_left hs)
  have hdeclared := hall.oneDeclared ⟨Nat.zero_le _, by simp⟩
  refine ⟨hdeclared.length_le, hdeclared.ordered, ?_, ?_⟩
  · rintro pre f post rfl hf hafter
    exact hall.memories_le hf hafter
  · intro l hl
    obtain himported | hmem := memoryLimits?_eq_some hl
    · exact .inr himported
    · exact .inl (hdeclared.ordered l hmem)

/-- The frames of an input that imports a function and declares a memory. -/
def declaringFrames : List Frame := [ shortFrame 1 [0x01, 0x60, 0x00, 0x00],
  shortFrame 2 [0x01, 0x01, 0x61, 0x01, 0x62, 0x00, 0x00],
  shortFrame 5 [0x01, 0x01, 0x02, 0x08]]

/-- The module that they build. -/
def declaringModule : Module where
  types := [⟨[], none⟩]
  imports := [⟨"a", "b", .function 0⟩]
  memories := [⟨2, some 8⟩]
  importedFunctions := 1

/-- The declared memory is the only one. -/
theorem memories_declaringModule :
    (decode ⟨headerBytes ++ framesBytes declaringFrames, .clean⟩).outcome = .ok declaringModule ∧
    declaringModule.memories.length + declaringModule.importedMemories ≤ 1 ∧
    declaringModule.memoryLimits? = some ⟨2, some 8⟩ ∧
    ∀ l ∈ declaringModule.memories, l.IsOrdered := by
  have hrun : (decode ⟨headerBytes ++ framesBytes declaringFrames, .clean⟩).outcome =
      .ok declaringModule := by with_unfolding_all rfl
  have hframed : ∀ f ∈ declaringFrames, f.IsFramed := by
    simp only [declaringFrames, List.forall_mem_cons, List.not_mem_nil, false_imp_iff, implies_true,
      and_true]
    refine ⟨?_, ?_, ?_⟩ <;> exact isFramed_shortFrame (by decide) (by decide)
  obtain ⟨-, hordered, hone, -⟩ := memories_of_decode hrun hframed rfl
  exact ⟨hrun, hone (declaringFrames.take 2) (shortFrame 5 [0x01, 0x01, 0x02, 0x08]) [] rfl rfl
    (by simp), rfl, hordered⟩

/-- The bytes of a module that imports two memories, the first of which starts above its maximum. -/
def twiceImported : Source where
  rest := [0x00, 0x61, 0x73, 0x6d, 0x01, 0x00, 0x00, 0x00, 0x02, 0x10, 0x02,
    0x01, 0x61, 0x01, 0x62, 0x02, 0x01, 0x04, 0x02,
    0x01, 0x61, 0x01, 0x63, 0x02, 0x00, 0x01]

/-- The module that these bytes hold. -/
def twiceImportedModule : Module where
  imports := [⟨"a", "b", .memory ⟨4, some 2⟩⟩, ⟨"a", "c", .memory ⟨1, none⟩⟩]

/-- **Two imported memories** are accepted, and so are limits that are out of order. -/
theorem memories_twiceImported : (decode twiceImported).outcome = .ok twiceImportedModule ∧
    twiceImportedModule.importedMemories = 2 ∧
    twiceImportedModule.memoryLimits? = some ⟨4, some 2⟩ ∧ ¬ Limits.IsOrdered ⟨4, some 2⟩ := by
  refine ⟨?_, rfl, rfl, fun h => absurd (h 2 rfl) (by decide)⟩
  with_unfolding_all rfl

end Module

end WasmToC

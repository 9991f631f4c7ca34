import WasmToC.Proofs.Refusals

/-!
# What a decoded module guarantees

Sections may come in any order, and any of them more than once. Each reference is checked against
the part of the module that was read before it. As a module only grows while it is read, what holds
of such a part holds of the whole, so that a module that was decoded is coherent: its references are
in range, its import counts are those of its imports, and its code is balanced and carries the
immediates that its opcodes call for.

## Main results

* `Section.AddAll.coherent` — sections keep a module coherent.
* `Module.coherent_of_decode` — a decoded module is coherent and has a body for each
  function.
-/

namespace WasmToC

/-- **Every section keeps a module coherent.** -/
theorem Section.AddAll.coherent {fs : List Section.Frame} {m m' : Module}
    (h : Section.AddAll fs m m') (hm : Coherent m) : Coherent m' := by
  induction h with
  | nil m => exact hm
  | @cons f fs m m1 m' head tail ih =>
    obtain ⟨e, hpayload⟩ := head
    have hkept : Module.Kept True m m := ⟨.refl m, fun _ => hm⟩
    have halike := alike_payload f.id hkept ⟨f.payload, .clean⟩
    rw [show Decoder.silent (payload f.id m) ⟨f.payload, .clean⟩ = _ from hpayload] at halike
    obtain ⟨_, -, -, hm1⟩ := halike
    exact ih (hm1 trivial)

namespace Module

/-- A decoded module is coherent and has a body for each function. -/
lemma coherent_of_decode {s : Source} {m : Module} (h : (decode s).outcome = .ok m) :
    Coherent m ∧ m.functions.length = m.signatures.length := by
  obtain ⟨fs, -, -, hall, hbodies⟩ := exists_frames_of_decode h
  exact ⟨hall.coherent (Coherent.empty Decoder.version), hbodies⟩

/-- **What a decoded module guarantees**, whatever the order of its sections and however often each
of them comes. -/
theorem references_of_decode (s : Source) (m : Module) (h : (decode s).outcome = .ok m) :
    ((∀ i ∈ m.imports, ∀ t, i.desc = .function t → t < m.types.length) ∧
      (∀ t ∈ m.signatures, t < m.types.length) ∧
      ∀ f ∈ m.functions, f.typeIndex < m.types.length) ∧
    (m.importedFunctions = (m.importsOf .function).length ∧
      m.importedGlobals = (m.importsOf .global).length ∧
      m.importedTables = (m.importsOf .table).length) ∧
    m.functions.length = m.signatures.length ∧
    (∀ (i : Nat) (g : Global), m.globals[i]? = some g →
      g.init.isShaped = true ∧ g.init.initializes (m.importedGlobals + i) = true) ∧
    ((∀ e ∈ m.exports, (e.kind = .function → (m.function? e.index).isSome = true) ∧
        (e.kind = .global → (m.global? e.index).isSome = true)) ∧
      ∀ s ∈ m.segments, (s.offset.isShaped = true ∧
          s.offset.initializes (m.importedGlobals + m.globals.length) = true) ∧
        ∀ f ∈ s.functions, (m.function? f).isSome = true) ∧
    ∀ f ∈ m.functions, f.locals.length ≤ 50000 ∧ IsBalanced f.code ∧
      ∀ i ∈ f.code, i.isShaped = true := by
  obtain ⟨hm, hbodies⟩ := coherent_of_decode h
  have hfunction : ∀ i, i < m.importedFunctions + m.signatures.length →
      (m.function? i).isSome = true := fun i => isSome_function? hm.functionCount.symm
  have hglobal : ∀ i, i < m.importedGlobals + m.globals.length → (m.global? i).isSome = true :=
    fun i => isSome_global? hm.globalCount.symm
  refine ⟨⟨hm.imports, hm.signatures, fun f hf => (hm.functions f hf).1⟩,
    ⟨hm.functionCount, hm.globalCount, hm.tableCount⟩, hbodies, hm.globals, ⟨fun e he => ?_,
    fun s hs => ?_⟩, fun f hf => ?_⟩
  · exact ⟨fun hk => hfunction _ ((hm.exports e he).1 hk),
      fun hk => hglobal _ ((hm.exports e he).2 hk)⟩
  · exact ⟨(hm.segments s hs).1, fun f hf => hfunction f ((hm.segments s hs).2 f hf)⟩
  · have hregular := (hm.functions f hf).2
    exact ⟨hregular.locals, hregular.balanced, hregular.shaped⟩

/-- The bytes of a module in which types and imports come a second time, behind what refers to the
first ones. -/
def repeatedSections : Source where
  rest := [0x00, 0x61, 0x73, 0x6d, 0x01, 0x00, 0x00, 0x00, 0x01, 0x04, 0x01, 0x60, 0x00, 0x00,
    0x02, 0x07, 0x01, 0x01, 0x61, 0x01, 0x62, 0x00, 0x00,
    0x03, 0x02, 0x01, 0x00,
    0x07, 0x05, 0x01, 0x01, 0x66, 0x00, 0x01,
    0x0a, 0x07, 0x01, 0x05, 0x00, 0x02, 0x40, 0x0b, 0x0b,
    0x01, 0x04, 0x01, 0x60, 0x00, 0x00,
    0x02, 0x07, 0x01, 0x01, 0x61, 0x01, 0x63, 0x00, 0x01]

/-- The module that these bytes hold. Its export stood for its function when it was read, and
stands for the second import in the end. -/
def repeatedModule : Module where
  types := [⟨[], none⟩, ⟨[], none⟩]
  imports := [⟨"a", "b", .function 0⟩, ⟨"a", "c", .function 1⟩]
  signatures := [0]
  exports := [⟨"f", .function, 1⟩]
  functions := [⟨0, [], [⟨.block, .block none⟩, ⟨.endOp, .none⟩]⟩]
  importedFunctions := 2

lemma decode_repeatedSections : (decode repeatedSections).outcome = .ok repeatedModule := by
  with_unfolding_all rfl

/-- The export resolves after both repetitions. -/
theorem references_repeatedModule : (decode repeatedSections).outcome = .ok repeatedModule ∧
    repeatedModule.functions.length = repeatedModule.signatures.length ∧
    (repeatedModule.function? 1).isSome = true ∧
    ∀ f ∈ repeatedModule.functions, IsBalanced f.code := by
  have h := references_of_decode repeatedSections repeatedModule decode_repeatedSections
  obtain ⟨-, -, hbodies, -, ⟨hexports, -⟩, hcode⟩ := h
  exact ⟨decode_repeatedSections, hbodies, (hexports _ List.mem_cons_self).1 rfl,
    fun f hf => (hcode f hf).2.1⟩

end Module

end WasmToC

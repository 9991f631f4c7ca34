import WasmToC.Proofs.RoundTrip

/-!
# Coherent modules

Code is balanced if it closes exactly what it opens. A module is coherent if its references are in
range, its import counts are those of its imports, and its code is balanced and carries the
immediates that its opcodes call for. As a module only grows while it is read, what holds of a part
of it holds of the whole: whatever is added to a coherent module with references to what is there
already leaves it coherent.

## Main definitions

* `IsBalanced` — code that closes exactly what it opens.
* `Coherent` — the property of a module that each section keeps.

## Main results

* `Coherent.addType`, `addImport`, `addSignature`, `addGlobal` — additions to a module.
-/

namespace WasmToC

open List

/-! ## Code -/

/-- The number of constructs that code opens. -/
def openings (code : List Instruction) : Nat := code.countP fun i => i.op.opensConstruct

/-- The number of constructs that code closes. -/
def closings (code : List Instruction) : Nat := code.countP fun i => i.op = .endOp

/-- No beginning of the code closes more than it opens, and the whole code closes what it opens. -/
def IsBalanced (code : List Instruction) : Prop :=
  (∀ part, part <+: code → closings part ≤ openings part) ∧ closings code = openings code

/-- Code that may leave `d` constructs open, with the immediates that its opcodes call for. -/
structure IsBeginning (d : Nat) (code : List Instruction) : Prop where
  /-- No beginning closes more than it opens. -/
  closes : ∀ part, part <+: code → closings part ≤ openings part
  /-- The constructs that are open. -/
  opens : openings code = closings code + d
  /-- The immediates. -/
  shaped : ∀ i ∈ code, i.isShaped = true

lemma isBeginning_nil : IsBeginning 0 [] where
  closes part h := by
    rw [prefix_nil.mp h]
    exact Nat.le_refl 0
  opens := rfl
  shaped := by simp

/-- One more instruction, which may close only what is open. -/
lemma IsBeginning.concat {d depth' : Nat} {code : List Instruction} {i : Instruction}
    (h : IsBeginning d code) (hshaped : i.isShaped = true)
    (hd : openings [i] + d = closings [i] + depth') : IsBeginning depth' (code ++ [i]) := by
  have hopened : openings (code ++ [i]) = openings code + openings [i] := countP_append
  have hclosed : closings (code ++ [i]) = closings code + closings [i] := countP_append
  have hopens := h.opens
  refine ⟨fun part hpart => ?_, by omega, ?_⟩
  · rcases prefix_concat_iff.mp hpart with rfl | hpart
    · omega
    · exact h.closes part hpart
  · intro j hj
    rcases mem_append.mp hj with hj | hj
    · exact h.shaped j hj
    · rwa [mem_singleton.mp hj]

namespace Decoder

/-- What one instruction does to the number of open constructs, when it is not the closing `end`. -/
lemma openings_add_depth (i : Instruction) {d : Nat} (h : ¬ (i.op = .endOp ∧ d = 0)) :
    openings [i] + d = closings [i] +
      (if i.op.opensConstruct then d + 1 else if i.op = .endOp then d - 1 else d) := by
  by_cases hend : i.op = .endOp
  · have hd : d ≠ 0 := fun hd => h ⟨hend, hd⟩
    simp only [openings, closings, countP_singleton, hend, Opcode.opensConstruct]
    simp
    omega
  · cases hopens : i.op.opensConstruct <;>
      simp [openings, closings, hend, hopens, Nat.add_comm]

end Decoder

/-! ## Coherent modules -/

/-- Whether a body declares a limited number of locals and has balanced code with the immediates
that its opcodes call for. -/
structure Function.IsRegular (f : Function) : Prop where
  /-- The number of declared locals. -/
  locals : f.locals.length ≤ 50000
  /-- The code closes what it opens. -/
  balanced : IsBalanced f.code
  /-- The immediates. -/
  shaped : ∀ i ∈ f.code, i.isShaped = true

/-- A module whose references are in range, as far as it has been read. -/
structure Coherent (m : Module) : Prop where
  /-- The number of imported functions. -/
  functionCount : m.importedFunctions = (m.importsOf .function).length
  /-- The number of imported globals. -/
  globalCount : m.importedGlobals = (m.importsOf .global).length
  /-- The number of imported tables. -/
  tableCount : m.importedTables = (m.importsOf .table).length
  /-- Imported functions have types that are there. -/
  imports : ∀ i ∈ m.imports, ∀ t, i.desc = .function t → t < m.types.length
  /-- So have the module's own functions. -/
  signatures : ∀ t ∈ m.signatures, t < m.types.length
  /-- A global is initialized by a constant or by a global before it. -/
  globals : ∀ (i : Nat) (g : Global), m.globals[i]? = some g →
    g.init.isShaped = true ∧ g.init.initializes (m.importedGlobals + i) = true
  /-- Exported functions and globals are there. -/
  exports : ∀ e ∈ m.exports,
    (e.kind = .function → e.index < m.importedFunctions + m.signatures.length) ∧
      (e.kind = .global → e.index < m.importedGlobals + m.globals.length)
  /-- The offset of a segment is a constant or a global, and its functions are there. -/
  segments : ∀ s ∈ m.segments, (s.offset.isShaped = true ∧
      s.offset.initializes (m.importedGlobals + m.globals.length) = true) ∧
        ∀ f ∈ s.functions, f < m.importedFunctions + m.signatures.length
  /-- Bodies have types that are there, and are regular. -/
  functions : ∀ f ∈ m.functions, f.typeIndex < m.types.length ∧ f.IsRegular

/-- More globals may be visible. -/
lemma Instruction.initializes_mono {i : Instruction} {visible visible' : Nat}
    (h : i.initializes visible = true) (hle : visible ≤ visible') :
    i.initializes visible' = true := by
  unfold Instruction.initializes at h ⊢
  split at h
  · rfl
  · simp only [decide_eq_true_eq] at h ⊢
    omega
  · cases h

lemma forall_mem_concat {α : Type} {P : α → Prop} {xs : List α} {x : α} (hxs : ∀ y ∈ xs, P y)
    (hx : P x) : ∀ y ∈ xs ++ [x], P y := by
  intro y hy
  rcases mem_append.mp hy with hy | hy
  · exact hxs y hy
  · rwa [mem_singleton.mp hy]

namespace Coherent

variable {m : Module}

lemma empty (version : Nat) : Coherent { version := version } where
  functionCount := rfl
  globalCount := rfl
  tableCount := rfl
  imports := by simp
  signatures := by simp
  globals := by simp
  exports := by simp
  segments := by simp
  functions := by simp

lemma addType (h : Coherent m) (t : FuncType) : Coherent { m with types := m.types ++ [t] } :=
  have hlen : m.types.length ≤ (m.types ++ [t]).length := by simp
  { h with
    imports := fun i hi t ht => Nat.lt_of_lt_of_le (h.imports i hi t ht) hlen
    signatures := fun t ht => Nat.lt_of_lt_of_le (h.signatures t ht) hlen
    functions := fun f hf => ⟨Nat.lt_of_lt_of_le (h.functions f hf).1 hlen, (h.functions f hf).2⟩ }

/-- Imports are counted after the last of them, so this is said of the module with its imports
counted. -/
lemma addImport (h : Coherent m.countImports) {i : Import}
    (hi : ∀ t, i.desc = .function t → t < m.types.length) :
    Coherent ({ m with imports := m.imports ++ [i] } : Module).countImports := by
  have hmore : ∀ kind, (m.importsOf kind).length ≤
      (({ m with imports := m.imports ++ [i] } : Module).importsOf kind).length := by
    intro kind
    simp [Module.importsOf, filter_append]
  have hfunctions := hmore .function
  have hglobals := hmore .global
  exact { h with
    functionCount := rfl
    globalCount := rfl
    tableCount := rfl
    imports := forall_mem_concat h.imports hi
    globals := fun k g hg => ⟨(h.globals k g hg).1,
      Instruction.initializes_mono (h.globals k g hg).2 (Nat.add_le_add_right hglobals k)⟩
    exports := fun e he =>
      ⟨fun hk => Nat.lt_of_lt_of_le ((h.exports e he).1 hk) (Nat.add_le_add_right hfunctions _),
        fun hk => Nat.lt_of_lt_of_le ((h.exports e he).2 hk) (Nat.add_le_add_right hglobals _)⟩
    segments := fun s hs =>
      ⟨⟨(h.segments s hs).1.1, Instruction.initializes_mono (h.segments s hs).1.2
          (Nat.add_le_add_right hglobals _)⟩,
        fun f hf => Nat.lt_of_lt_of_le ((h.segments s hs).2 f hf)
          (Nat.add_le_add_right hfunctions _)⟩ }

/-- Counting the imports of a coherent module changes nothing. -/
lemma countImports (h : Coherent m) : m.countImports = m := by
  unfold Module.countImports
  rw [← h.functionCount, ← h.globalCount, ← h.tableCount]

lemma addSignature (h : Coherent m) {t : Nat} (ht : t < m.types.length) :
    Coherent { m with signatures := m.signatures ++ [t] } :=
  have hlen : m.importedFunctions + m.signatures.length ≤
      m.importedFunctions + (m.signatures ++ [t]).length := by simp
  { h with
    signatures := forall_mem_concat h.signatures ht
    exports := fun e he =>
      ⟨fun hk => Nat.lt_of_lt_of_le ((h.exports e he).1 hk) hlen, (h.exports e he).2⟩
    segments := fun s hs =>
      ⟨(h.segments s hs).1, fun f hf => Nat.lt_of_lt_of_le ((h.segments s hs).2 f hf) hlen⟩ }

lemma addGlobal (h : Coherent m) {g : Global} (hshaped : g.init.isShaped = true)
    (hinit : g.init.initializes (m.importedGlobals + m.globals.length) = true) :
    Coherent { m with globals := m.globals ++ [g] } :=
  have hlen : m.importedGlobals + m.globals.length ≤
      m.importedGlobals + (m.globals ++ [g]).length := by simp
  { h with
    globals := by
      intro k g' hk
      rcases Nat.lt_trichotomy k m.globals.length with hlt | rfl | hgt
      · exact h.globals k g' (by rwa [getElem?_append_left hlt] at hk)
      · obtain rfl : g = g' := by simpa using hk
        exact ⟨hshaped, hinit⟩
      · rw [getElem?_eq_none (by simp; omega)] at hk
        cases hk
    exports := fun e he =>
      ⟨(h.exports e he).1, fun hk => Nat.lt_of_lt_of_le ((h.exports e he).2 hk) hlen⟩
    segments := fun s hs =>
      ⟨⟨(h.segments s hs).1.1, Instruction.initializes_mono (h.segments s hs).1.2 hlen⟩,
        (h.segments s hs).2⟩ }

end Coherent

namespace Module

/-- What an index stands for is among the imports and definitions. -/
lemma lt_of_isSome_resolved {is : List Import} {n own index : Nat}
    (h : (if index < n then is[index]?.map Resolved.imported
      else if index - n < own then some (Resolved.own (index - n))
      else none).isSome = true) : index < n + own := by
  split at h
  · omega
  · split at h
    · omega
    · cases h

end Module

end WasmToC

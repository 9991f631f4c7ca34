import Mathlib.Data.List.Forall2
import WasmToC.Proofs.Decoded
import WasmToC.Proofs.Inversion
import WasmToC.Unit.Assemble

/-!
# The module initializer

The initializer sets up the memory, then the globals of the module, then the tables, and calls the
hook at the end. The value of a global may be that of another one. Which globals it may name was
decided when the global was read, while imports that come later move the module's own globals up;
so what is named is an import, or a global that is set by an earlier step.

## Main definitions

* `C.InitStep.Scoped` — steps that read only what has a value by then.
* `C.InitStep.Prints` — the lines of a step.
* `SetsUp` — the steps for a module, in their order.

## Main results

* `setsUp_of_initializer` — the steps of the initializer.
* `SetsUp.scoped` — no step reads a global that has not been set.
* `exists_initialized_unit` — the initializer of every binary module that is compiled.
-/

namespace WasmToC

open List C.InitStep

namespace C

/-- The globals that the value of an initializer names. -/
def InitExpr.reads : InitExpr → List Nat
  | .global i => [i]
  | .const _ => []

namespace InitStep

/-- The globals whose values a step needs. -/
def reads : InitStep → List Nat
  | .memoryBase g => [g]
  | .setGlobal _ value => value.reads
  | .fillTable _ off _ => off.reads
  | _ => []

/-- The global that a step sets. -/
def sets : InitStep → List Nat
  | .setGlobal i _ => [i]
  | _ => []

/-- Steps each of which reads only globals that are known, or set by a step before it. -/
def Scoped (known : Nat → Prop) : List InitStep → Prop
  | [] => True
  | step :: rest => (∀ g ∈ step.reads, known g) ∧ Scoped (fun g => g ∈ step.sets ∨ known g) rest

variable {known known' : Nat → Prop} {steps first second : List InitStep}

/-- More may be known. -/
lemma Scoped.mono (h : Scoped known steps) (hknown : ∀ g, known g → known' g) :
    Scoped known' steps := by
  induction steps generalizing known known' with
  | nil => trivial
  | cons step rest ih =>
    exact ⟨fun g hg => hknown g (h.1 g hg), ih h.2 fun g => .imp_right (hknown g)⟩

/-- Steps that read only what is known at first. -/
lemma scoped_of_forall (h : ∀ step ∈ steps, ∀ g ∈ step.reads, known g) : Scoped known steps := by
  induction steps with
  | nil => trivial
  | cons step rest ih =>
    obtain ⟨hstep, hr⟩ := forall_mem_cons.mp h
    exact ⟨hstep, (ih hr).mono fun g => .inr⟩

/-- Steps one part after the other: the second part may read what the first one sets. -/
lemma Scoped.append (hf : Scoped known first) (hsecond : Scoped known' second)
    (hknown : ∀ g, known' g → g ∈ first.flatMap sets ∨ known g) :
    Scoped known (first ++ second) := by
  induction first generalizing known with
  | nil => exact hsecond.mono (by simpa using hknown)
  | cons step rest ih =>
    refine ⟨hf.1, ih hf.2 fun g hg => ?_⟩
    have := hknown g hg
    rwa [flatMap_cons, mem_append, or_assoc, or_left_comm] at this

end InitStep

end C

/-! ## Lines of steps -/

namespace C

/-- The text of an initial value. -/
inductive InitExpr.Prints (s : Symbols) : InitExpr → String → Prop
  | global (i : Nat) : Prints s (.global i) (s.global i)
  | const (v : Value) : Prints s (.const v) (literal v)

/-- The lines of each kind of step, as C has them. -/
inductive InitStep.Prints (s : Symbols) : InitStep → List String → Prop
  | memory (initial maximum : Nat) :
      Prints s (.memory initial maximum) [s!"wasm_rt_memory_init({initial}u, {maximum}u);"]
  | memoryBase (g : Nat) :
      Prints s (.memoryBase g) ["wasm_rt_memory_base = (uint32_t)" ++ s.global g ++ ";"]
  | setGlobal (i : Nat) {value : InitExpr} {text : String} (hvalue : value.Prints s text) :
      Prints s (.setGlobal i value) [s.global i ++ " = " ++ text ++ ";"]
  | fillTable (table : Nat) {off : InitExpr} {text : String} (functions : List Nat)
      (hoffset : off.Prints s text) :
      Prints s (.fillTable table off functions) ["\x7b",
         "  static const wasm_rt_funcref elements[] = \x7b " ++
           ", ".intercalate (functions.map fun f => "(wasm_rt_funcref)&" ++ s.function f) ++
             " \x7d;",
         "  " ++ ("wasm_rt_table_init(" ++ ", ".intercalate ["&" ++ s.table table,
           "(uint32_t)" ++ text, "elements", s!"{functions.length}u"] ++ ")") ++ ";",
         "\x7d"]
  | call (f : Nat) : Prints s (.call f) [s.function f ++ "();"]

lemma InitExpr.prints_text (s : Symbols) (e : InitExpr) : e.Prints s (e.text s) := by
  cases e with
  | global i => exact .global i
  | const v => exact .const v

lemma InitStep.prints_lines (s : Symbols) (step : InitStep) : step.Prints s (step.lines s) := by
  cases step with
  | memory initial maximum => exact .memory initial maximum
  | memoryBase g => exact .memoryBase g
  | setGlobal i value => exact .setGlobal i (value.prints_text s)
  | fillTable table off functions => exact .fillTable table functions (off.prints_text s)
  | call f =>
    have hl : lines s (.call f) = [s.function f ++ "();"] := by
      simp [lines, callText, String.append_assoc]
    rw [hl]
    exact .call f

/-- **The text of the initializer**: the lines of its steps between its braces. -/
theorem exists_initializerLines (s : Symbols) (steps : List InitStep) :
    ∃ printed, List.Forall₂ (InitStep.Prints s) steps printed ∧
      initializerLines s steps = ("void " ++ s.initializer ++ "(void) \x7b") ::
        printed.flatten.map (fun line => "  " ++ line) ++ ["\x7d"] := by
  refine ⟨steps.map (lines s), ?_, rfl⟩
  rw [List.forall₂_map_right_iff]
  exact List.forall₂_same.mpr fun step _ => step.prints_lines s

end C

open C (InitStep)

lemma Traced.outcome_bind_eq_ok {α β : Type} {x : Traced α} {f : α → Traced β} {b : β} :
    (x >>= f).outcome = .ok b ↔ ∃ a, x.outcome = .ok a ∧ (f a).outcome = .ok b := by
  rw [Traced.outcome_bind]
  exact bind_eq_ok

/-- The step that sets a global to its initial value. -/
def Global.SetBy (p : Global × Nat) (step : InitStep) : Prop :=
  ∃ value, initExpr p.1.init = .ok value ∧ step = .setGlobal p.2 value

/-- The step that copies the functions of a segment into its table. -/
def Segment.CopiedBy (s : Segment) (step : InitStep) : Prop :=
  ∃ off, initExpr s.offset = .ok off ∧ step = .fillTable s.table off s.functions

/-- The steps that set up a module. -/
inductive SetsUp (m : Module) : List InitStep → Prop
  /-- The memory and its base, the globals by their indices, the tables by the segments that have
  functions, and the hook. -/
  | intro {initial maximum : Nat} {base globals tables hook : List InitStep}
      (hbase : base = [] ∨ ∃ g < m.importedGlobals, base = [.memoryBase g])
      (hglobals : List.Forall₂ Global.SetBy (m.globals.zipIdx m.importedGlobals) globals)
      (htables : List.Forall₂ Segment.CopiedBy
        (m.segments.filter fun s => !s.functions.isEmpty) tables)
      (hhook : hook = [] ∨ ∃ f t, hook = [.call f] ∧ m.functionType? f = some t ∧ t.params = []) :
      SetsUp m (.memory initial maximum :: (base ++ (globals ++ (tables ++ hook))))

/-- What is related to a member of a list. -/
lemma exists_of_forall₂ {α β : Type} {R : α → β → Prop} {as : List α} {bs : List β}
    (h : List.Forall₂ R as bs) {b : β} (hb : b ∈ bs) : ∃ a ∈ as, R a b := by
  induction h with
  | nil => cases hb
  | cons hab _ ih =>
    rcases mem_cons.mp hb with rfl | hb
    · exact ⟨_, mem_cons_self, hab⟩
    · obtain ⟨a, ha, hR⟩ := ih hb
      exact ⟨a, mem_cons_of_mem _ ha, hR⟩

variable {m : Module}

lemma forall₂_globalSteps {index : Nat} {globals : List Global} {steps : List InitStep}
    (h : globalSteps index globals = .ok steps) :
    List.Forall₂ Global.SetBy (globals.zipIdx index) steps := by
  induction globals generalizing index steps with
  | nil =>
    obtain rfl : [] = steps := by simpa [globalSteps] using h
    exact .nil
  | cons g globals ih =>
    simp only [globalSteps, bind_eq_ok, pure_eq_ok] at h
    obtain ⟨value, hvalue, others, hothers, rfl⟩ := h
    exact .cons ⟨value, hvalue, rfl⟩ (ih hothers)

lemma forall₂_segmentSteps {segments : List Segment} {steps : List InitStep}
    (h : segmentSteps segments = .ok steps) :
    List.Forall₂ Segment.CopiedBy (segments.filter fun s => !s.functions.isEmpty) steps := by
  induction segments generalizing steps with
  | nil =>
    obtain rfl : [] = steps := by simpa [segmentSteps] using h
    exact .nil
  | cons s segments ih =>
    rw [segmentSteps] at h
    split at h
    · rename_i hempty
      rw [filter_cons_of_neg (by simp [hempty])]
      exact ih h
    · rename_i hsome
      simp only [bind_eq_ok, pure_eq_ok] at h
      obtain ⟨off, hoffset, others, hothers, rfl⟩ := h
      rw [filter_cons_of_pos (by simp [hsome])]
      exact .cons ⟨off, hoffset, rfl⟩ (ih hothers)

lemma hookSteps_eq_ok {hook : List InitStep} (h : (hookSteps m).outcome = .ok hook) :
    hook = [] ∨ ∃ f t, hook = [.call f] ∧ m.functionType? f = some t ∧ t.params = [] := by
  unfold hookSteps at h
  split at h
  · exact .inl (by simpa [eq_comm] using h)
  · rename_i e he
    split at h
    · rename_i hparams
      cases htype : m.functionType? e.index with
      | none => simp [htype] at hparams
      | some t =>
        exact .inr ⟨e.index, t, by simpa [eq_comm] using h, htype, by simpa [htype] using hparams⟩
    · exact .inl (by simpa [Except.bind, eq_comm] using h)

/-- **The steps of the initializer.** -/
theorem setsUp_of_initializer (hm : Coherent m) {o : Options} {steps : List InitStep}
    (h : (initializer m o).outcome = .ok steps) : SetsUp m steps := by
  simp only [initializer, Traced.outcome_bind_eq_ok, Traced.outcome_pure, Except.ok.injEq] at h
  obtain ⟨globals, hglobals, tables, htables, hook, hhook, rfl⟩ := h
  have hmemory : ∃ initial maximum, memoryStep m o = .memory initial maximum := by
    unfold memoryStep
    split <;> exact ⟨_, _, rfl⟩
  obtain ⟨initial, maximum, hmemory⟩ := hmemory
  have hbase : (memoryBase? m).toList.map memoryBase = [] ∨ ∃ g < m.importedGlobals,
      (memoryBase? m).toList.map memoryBase = [.memoryBase g] := by
    cases hg : memoryBase? m with
    | none => exact .inl rfl
    | some g =>
      refine .inr ⟨g, ?_, rfl⟩
      rw [hm.globalCount]
      exact (findIdx?_eq_some_iff_getElem.mp hg).1
  rw [hmemory]
  simpa using SetsUp.intro hbase (forall₂_globalSteps hglobals) (forall₂_segmentSteps htables)
    (hookSteps_eq_ok hhook)

/-! ## Globals that are read -/

/-- An initial value names a global that may be named. -/
lemma lt_of_mem_reads {i : Instruction} {visible : Nat} (hi : i.initializes visible = true)
    {e : C.InitExpr} (he : initExpr i = .ok e) {g : Nat} (hg : g ∈ e.reads) : g < visible := by
  unfold Instruction.initializes at hi
  split at hi
  case h_1 t hop =>
    simp only [initExpr, hop] at he
    split at he
    · obtain rfl := Except.ok.inj he
      cases hg
    · cases he
  case h_2 k hop himm =>
    simp only [initExpr, hop, himm, Immediate.index?] at he
    obtain rfl := Except.ok.inj he
    obtain rfl := mem_singleton.mp hg
    simpa using hi
  case h_3 => cases hi

/-- Globals that name only those before them are set in the order of their indices. -/
lemma scoped_globals {globals : List Global} {index : Nat} {steps : List InitStep}
    (h : List.Forall₂ Global.SetBy (globals.zipIdx index) steps)
    (hinit : ∀ k (g : Global), globals[k]? = some g → g.init.initializes (index + k) = true) :
    InitStep.Scoped (· < index) steps ∧
      ∀ g < index + globals.length, g ∈ steps.flatMap sets ∨ g < index := by
  induction globals generalizing index steps with
  | nil =>
    cases h
    exact ⟨trivial, fun g hg => .inr hg⟩
  | cons g globals ih =>
    rw [zipIdx_cons] at h
    obtain - | ⟨⟨value, hvalue, rfl⟩, htail⟩ := h
    obtain ⟨hscoped, hsets⟩ := ih htail fun k g' hk => by
      have := hinit (k + 1) g' hk
      rwa [← Nat.add_assoc, Nat.add_right_comm] at this
    have hnext (g' : Nat) (hg' : g' < index + 1) : g' ∈ [index] ∨ g' < index := by
      rw [mem_singleton]
      omega
    refine ⟨⟨fun g' hg' => lt_of_mem_reads (hinit 0 g rfl) hvalue hg', hscoped.mono hnext⟩, ?_⟩
    intro g' hg'
    rw [flatMap_cons, mem_append, or_assoc, or_left_comm]
    exact (hsets g' (by rw [length_cons] at hg'; omega)).imp_right (hnext g')

/-- **No step reads a global that has not been set.** -/
theorem SetsUp.scoped (hm : Coherent m) {steps : List InitStep} (h : SetsUp m steps) :
    InitStep.Scoped (· < m.importedGlobals) steps := by
  obtain @⟨initial, maximum, base, globals, tables, hook, hbase, hglobals, htables, hhook⟩ := h
  obtain ⟨hscoped, hsets⟩ := scoped_globals hglobals fun k g hk => (hm.globals k g hk).2
  have hmemory : InitStep.Scoped (· < m.importedGlobals) [.memory initial maximum] :=
    scoped_of_forall (by simp [reads])
  have hbase : InitStep.Scoped (· < m.importedGlobals) base := by
    refine scoped_of_forall ?_
    rcases hbase with rfl | ⟨g, hg, rfl⟩
    · simp
    · simpa [reads] using hg
  have hhook : InitStep.Scoped (fun _ => False) hook := by
    refine scoped_of_forall ?_
    rcases hhook with rfl | ⟨f, t, rfl, -⟩ <;> simp [reads]
  have htables : InitStep.Scoped (· < m.importedGlobals + m.globals.length) tables := by
    refine scoped_of_forall fun step hstep g hg => ?_
    obtain ⟨s, hs, off, hoffset, rfl⟩ := exists_of_forall₂ htables hstep
    exact lt_of_mem_reads (hm.segments s (mem_of_mem_filter hs)).1.2 hoffset hg
  exact hmemory.append (hbase.append (hscoped.append (htables.append hhook fun _ => False.elim)
    hsets) fun _ => .inr) fun _ => .inr

/-- **The initializer of every binary module that is compiled.** The text has the lines of the
unit, each ended by a newline, and among them those of the initializer: the lines of its steps, one
after the other. The memory is set up first, then each global of the module in the order of
indices, then the tables by the segments that have functions, in their order, and the hook is called
last. No step reads a global of the module that no earlier step has set.

**Proof sketch.** The steps follow the globals and segments of the module one by one. A global that
an initial value names was visible when it was read, and later imports only move the module's own
globals up; so its index is that of an import or of a global before it. -/
theorem exists_initialized_unit {bytes : List UInt8} {o : Options} {text : String}
    (h : (compile bytes o).outcome = .ok text) :
    ∃ m u, (Module.decode ⟨bytes, .clean⟩).outcome = .ok m ∧ (assemble m o).outcome = .ok u ∧
      text = String.join (u.lines.map fun line => line ++ "\n") ∧
      (∃ printed, List.Forall₂ (InitStep.Prints u.symbols) u.initializer printed ∧
        ("void " ++ u.symbols.initializer ++ "(void) \x7b") ::
          printed.flatten.map (fun line => "  " ++ line) ++ ["\x7d"] <:+: u.lines) ∧
      SetsUp m u.initializer ∧ InitStep.Scoped (· < m.importedGlobals) u.initializer := by
  simp only [compile, emit, Traced.outcome_bind_eq_ok, Traced.outcome_pure, Except.ok.injEq] at h
  obtain ⟨_, -, m, hdecode, u, hassemble, rfl⟩ := h
  obtain ⟨hm, -⟩ := Module.coherent_of_decode hdecode
  have hsteps : (initializer m o).outcome = .ok u.initializer := by
    simp only [assemble, Traced.outcome_bind_eq_ok, Traced.outcome_pure, Except.ok.injEq]
      at hassemble
    obtain ⟨_, -, _, -, _, -, _, -, steps, hsteps, _, -, _, -, rfl⟩ := hassemble
    exact hsteps
  have hsetsUp := setsUp_of_initializer hm hsteps
  obtain ⟨printed, hprinted, hlines⟩ := C.exists_initializerLines u.symbols u.initializer
  refine ⟨m, u, hdecode, hassemble, rfl, ⟨printed, hprinted, ?_⟩, hsetsUp, hsetsUp.scoped hm⟩
  rw [← hlines]
  exact (suffix_append [_, _] _).isInfix.trans (infix_append _ _ _)

/-- The bytes of a module whose import comes behind its globals. The second global takes the value
of global 0: of the first one when it is read, and of the import in the end. -/
def lateImport : List UInt8 :=
  [0x00, 0x61, 0x73, 0x6d, 0x01, 0x00, 0x00, 0x00,
    0x06, 0x0b, 0x02, 0x7f, 0x00, 0x41, 0x07, 0x0b, 0x7f, 0x00, 0x23, 0x00, 0x0b,
    0x02, 0x11, 0x01, 0x01, 0x61, 0x0a, 0x6d, 0x65, 0x6d, 0x6f, 0x72, 0x79, 0x42, 0x61, 0x73, 0x65,
    0x03, 0x7f, 0x00]

/-- The initializer of this module reads the import only. -/
theorem initialized_unit_lateImport : ∃ (text : String) (m : Module) (u : C.CompilationUnit),
    (compile lateImport {}).outcome = .ok text ∧
      text = String.join (u.lines.map fun line => line ++ "\n") ∧ m.importedGlobals = 1 ∧
      SetsUp m u.initializer ∧ InitStep.Scoped (· < 1) u.initializer := by
  have hok : (compile lateImport {}).outcome.isOk = true := by decide +kernel
  have hn : (Module.decode ⟨lateImport, .clean⟩).outcome.map (·.importedGlobals) = .ok 1 := by
    decide +kernel
  cases htext : (compile lateImport {}).outcome with
  | error e =>
    rw [htext] at hok
    cases hok
  | ok text =>
    obtain ⟨m, u, hm, -, hu, -, hsetsUp, hscoped⟩ := exists_initialized_unit htext
    rw [hm] at hn
    have hone : m.importedGlobals = 1 := Except.ok.inj hn
    rw [hone] at hscoped
    exact ⟨text, m, u, rfl, hu, hone, hsetsUp, hscoped⟩

end WasmToC

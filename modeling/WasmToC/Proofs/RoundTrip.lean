import WasmToC.Proofs.Encoding

/-!
# Decoding inverts encoding

The canonical bytes of a module decode as this module. The argument follows the format from the
inside out: types and immediates, instructions, code up to its closing `end`, the entries of each
section, sections inside their declared lengths, the whole. A section lemma says how the section
extends the module that was read before it, so that no lemma has to know which sections came before;
what it asks of that module is what its entries refer to.

## Main definitions

* `Decoder.Carries` — reading bytes as sections takes a module to another.
* `Module.everySection` — a module that has an entry in every section.

## Main results

* `Section.decodes_types`, `decodes_imports`, `decodes_signatures`, `decodes_memories`,
  `decodes_globals`, `decodes_exports`, `decodes_segments`, `decodes_code` — each section adds its
  entries.
* `Module.outcome_decode_encode` — decoding inverts encoding.
-/

namespace WasmToC

open List Encode Reader Section
open Varint (writeUnsigned)

variable {i : Instruction} {m : Module} {α : Type} {is : List Import}

/-! ## Types -/

namespace Reader

variable {func : Reader FuncType} {t : FuncType} {l : Limits}

/-- A type of one tag. -/
lemma reads_formWith (tag : Nat) {form : TypeForm} (hsmall : tag < 128) (hfunc : tag ≠ funcTag)
    (h : formOfTag? tag = some form) : Reads (formWith func) [UInt8.ofNat tag] form := by
  unfold formWith
  refine (reads_tag hsmall).andThen ?_
  rw [if_neg hfunc, h]
  exact reads_pure form

/-- A value type stands for itself where any type is read. -/
lemma reads_value (t : ValueType) : Reads (formWith func) (Encode.valueType t) (.value t) :=
  reads_formWith (valueTag t) (by cases t <;> decide) (by cases t <;> decide) (by cases t <;> rfl)

/-- A value type, where other types might nest. -/
lemma reads_valueOf (t : ValueType) : Reads (valueOf (formWith func)) (Encode.valueType t) t := by
  unfold valueOf
  exact (reads_value t).andThen (reads_pure t)

lemma reads_valueType (t : ValueType) : Reads valueType (Encode.valueType t) t :=
  reads_valueOf t

/-- The result type of a construct. -/
lemma reads_blockType (result : Option ValueType) :
    Reads blockType (Encode.blockType result) result := by
  unfold blockType
  cases result with
  | some t =>
    have hvalue : Reads typeForm (Encode.valueType t) (.value t) := reads_value t
    exact hvalue.andThen (reads_pure (some t))
  | none =>
    have hempty : Reads typeForm [0x40] .emptyBlock :=
      reads_formWith 0x40 (by decide) (by decide) rfl
    exact hempty.andThen (reads_pure none)

/-- Lists of value types are read whatever depth of nesting is left. -/
lemma reads_funcOf {form : Reader TypeForm}
    (hform : ∀ u, Reads (valueOf form) (Encode.valueType u) u)
    (hparams : t.params.length < 2 ^ 32) :
    Reads (funcOf form) (vector Encode.valueType t.params ++
        vector Encode.valueType t.result.toList) t := by
  unfold funcOf vector
  rw [append_assoc]
  refine (reads_varuint hparams).bind ((reads_many fun u _ => hform u).bind ?_)
  obtain ⟨params, res⟩ := t
  cases res with
  | none => exact (reads_varuint (v := 0) (by decide)).bind (reads_pure _)
  | some u =>
    refine (reads_varuint (v := 1) (by decide)).bind ?_
    rw [show ((some u).toList.flatMap Encode.valueType) = Encode.valueType u from
      append_nil _]
    exact (hform u).map fun u => (⟨params, some u⟩ : FuncType)

/-- A function type. The depth up to which types may nest inside does not matter, since its
parameters are value types. -/
lemma reads_funcType (h : t.params.length < 2 ^ 32) : Reads typeForm (funcType t) (.func t) := by
  have hvalue : ∀ d u, Reads (valueOf (formUpTo d)) (Encode.valueType u) u := by
    intro d u
    cases d with
    | zero => exact reads_valueOf u
    | succ d => exact reads_valueOf u
  have hfunc : Reads (fun s => funcOf (formUpTo s.rest.length) s)
      (vector Encode.valueType t.params ++ vector Encode.valueType t.result.toList) t :=
    fun rest e => reads_funcOf (hvalue _) h rest e
  exact (reads_tag (show 0x60 < 128 by decide)).bind (hfunc.map TypeForm.func)

/-- Size limits. -/
lemma reads_limits (h : l.fits = true) : Reads limits (Encode.limits l) l := by
  obtain ⟨initial, maximum⟩ := l
  unfold limits Encode.limits
  cases maximum with
  | none =>
    simp only [Limits.fits, Option.all_none, Bool.and_true, decide_eq_true_eq] at h
    exact (reads_flag false).bind ((reads_varuint h).andThen (reads_pure _))
  | some maximum =>
    simp only [Limits.fits, Option.all_some, Bool.and_eq_true, decide_eq_true_eq] at h
    exact (reads_flag true).bind ((reads_varuint h.1).bind
      ((reads_varuint h.2).map fun n => (⟨initial, some n⟩ : Limits)))

lemma reads_table (h : l.fits = true) : Reads table (0x70 :: Encode.limits l) l := by
  have hfuncref : Reads typeForm [0x70] .funcref :=
    reads_formWith 0x70 (by decide) (by decide) rfl
  exact hfuncref.bind (reads_limits h)

lemma reads_globalType (g : GlobalType) : Reads globalType (Encode.globalType g) g := by
  unfold globalType Encode.globalType
  exact (reads_valueType g.content).bind ((reads_flag g.isMutable).andThen (reads_pure _))

lemma reads_encodedName {s : String} (h : (Encode.name s).length < 2 ^ 32) :
    Reads name (Encode.name s) s :=
  reads_name (Nat.lt_of_le_of_lt (length_le_sized _) h)

/-! ## Code -/

lemma ofByte?_byte (op : Opcode) : Opcode.ofByte? op.byte = some op := by
  cases op with
  | load l => cases l <;> rfl
  | store s => cases s <;> rfl
  | const t => cases t <;> rfl
  | numeric n => cases n <;> rfl
  | _ => rfl

/-- A number of 32 bits fits into them. -/
lemma fitsSigned_i32 (v : Int32) : Varint.fitsSigned 32 v.toInt = true := by
  simp only [Varint.fitsSigned, Bool.and_eq_true, decide_eq_true_eq]
  exact ⟨v.toInt_lt, v.le_toInt⟩

/-- A number of 64 bits fits into them. -/
lemma fitsSigned_i64 (v : Int64) : Varint.fitsSigned 64 v.toInt = true := by
  simp only [Varint.fitsSigned, Bool.and_eq_true, decide_eq_true_eq]
  exact ⟨v.toInt_lt, v.le_toInt⟩

/-- A constant is read behind the opcode of its type. -/
lemma reads_constant (v : Value) : Reads (immediate (.const v.type)) (constant v) (.value v) := by
  cases v with
  | i32 v =>
    have h := (reads_varint (fitsSigned_i32 v)).map fun n => Immediate.value (.i32 (Int32.ofInt n))
    rwa [Int32.ofInt_toInt] at h
  | i64 v =>
    have h := (reads_varint (fitsSigned_i64 v)).map fun n => Immediate.value (.i64 (Int64.ofInt n))
    rwa [Int64.ofInt_toInt] at h
  | f32 bits =>
    have h := (reads_littleEndian (n := 4) bits.toNat_lt).map
      fun n => Immediate.value (.f32 (UInt32.ofNat n))
    rwa [UInt32.ofNat_toNat] at h
  | f64 bits =>
    have h := (reads_littleEndian (n := 8) bits.toNat_lt).map
      fun n => Immediate.value (.f64 (UInt64.ofNat n))
    rwa [UInt64.ofNat_toNat] at h

/-- The immediate of a shaped instruction is read behind its opcode, with the reserved byte where
there is one. -/
lemma reads_immediate {op : Opcode} {imm : Immediate}
    (h : (⟨op, imm⟩ : Instruction).isShaped = true)
    (hn : ∀ targets default, imm = .table targets default → targets.length < 2 ^ 32) :
    Reads (immediate op) (Encode.immediate imm ++ reserved op) imm := by
  simp only [Instruction.isShaped] at h
  split at h
  case h_1 res | h_2 res | h_3 res =>
    exact ((reads_blockType res).map Immediate.block).andNothing
  case h_4 d | h_5 d =>
    exact ((reads_varuint (of_decide_eq_true h)).map Immediate.depth).andNothing
  case h_6 targets default =>
    rw [Bool.and_eq_true, all_eq_true, decide_eq_true_eq] at h
    have htargets :
        Reads (many (varuint 32) targets.length) (targets.flatMap writeUnsigned) targets :=
      reads_many fun d hd => reads_varuint (of_decide_eq_true (h.1 d hd))
    have hdefault := (reads_varuint h.2).map (Immediate.table targets)
    have hall : Reads (immediate .brTable)
        (writeUnsigned targets.length ++ (targets.flatMap writeUnsigned ++ writeUnsigned default))
        (.table targets default) :=
      (reads_varuint (hn targets default rfl)).bind (htargets.bind hdefault)
    rw [← append_assoc] at hall
    exact hall.andNothing
  case h_7 k | h_8 k | h_9 k | h_10 k | h_11 k | h_12 k =>
    exact ((reads_varuint (of_decide_eq_true h)).map Immediate.index).andNothing
  case h_13 typeIndex reserved =>
    exact ((reads_varuint (of_decide_eq_true h)).bind
      ((reads_flag reserved).map (Immediate.callIndirect typeIndex))).andNothing
  case h_14 flags off | h_15 flags off =>
    rw [Bool.and_eq_true, decide_eq_true_eq, decide_eq_true_eq] at h
    exact ((reads_varuint h.1).bind ((reads_varuint h.2).map (Immediate.memory flags))).andNothing
  case h_16 t v =>
    obtain rfl : v.type = t := of_decide_eq_true h
    exact (reads_constant v).andNothing
  case h_17 =>
    cases op
    case currentMemory | growMemory => exact (reads_flag false).andThen (reads_pure _)
    case unreachable | nop | elseOp | endOp | returnOp | drop | select | numeric =>
      exact reads_pure Immediate.none
    all_goals exact absurd h Bool.false_ne_true
  case h_18 => exact absurd h (by decide)

/-- A shaped instruction is read from its bytes, if the targets of a branch table can be counted. -/
lemma reads_instruction (h : i.isShaped = true)
    (hn : ∀ targets default, i.imm = .table targets default → targets.length < 2 ^ 32) :
    Reads instruction (Encode.instruction i) i := by
  obtain ⟨op, imm⟩ := i
  unfold instruction
  refine (reads_byte op.byte).bind ?_
  rw [ofByte?_byte]
  exact (reads_immediate h hn).map (Instruction.mk op)

end Reader

namespace Decoder

open Reader

variable {code : List Instruction}

/-- **Code up to its `end`.** Balanced code is read instruction by instruction, and the `end`
behind it, which finds nothing open, ends it.

**Proof sketch.** Induction on the code, with the number of open constructs, the instructions read
before and the bound on their number as parameters. The depth that the decoder keeps is the one of
`openAfter`, and an `end` inside the code always finds a construct open. -/
theorem decodes_codeUpTo (code : List Instruction) :
    ∀ (fuel d : Nat) (pre : List Instruction), code.length < fuel → openAfter d code = some 0 →
      (∀ i ∈ code, Reads instruction (Encode.instruction i) i) →
      Decodes (codeUpTo fuel d pre) (Encode.expression code) (pre.reverse ++ code) := by
  have hend : Reads instruction (Encode.instruction ⟨.endOp, .none⟩) ⟨.endOp, .none⟩ :=
    reads_instruction rfl nofun
  induction code with
  | nil =>
    intro fuel d pre hfuel hopen _
    obtain ⟨fuel, rfl⟩ : ∃ n, fuel = n + 1 := ⟨fuel - 1, by simp at hfuel; omega⟩
    obtain rfl : d = 0 := by simpa [openAfter] using hopen
    refine (decodes_of_reads hend).andThen ?_
    rw [if_pos ⟨rfl, rfl⟩, append_nil]
    exact decodes_pure _
  | cons i code ih =>
    intro fuel d pre hfuel hopen hread
    obtain ⟨fuel, rfl⟩ : ∃ n, fuel = n + 1 := ⟨fuel - 1, by simp at hfuel; omega⟩
    have hi := hread i mem_cons_self
    have hcode := fun j hj => hread j (mem_cons_of_mem i hj)
    rw [length_cons] at hfuel
    -- what is left to do behind the instruction, at the depth it leaves
    have hr : ∀ depth', openAfter depth' code = some 0 →
        Decodes (codeUpTo fuel depth' (i :: pre)) (Encode.expression code)
          (pre.reverse ++ i :: code) := by
      intro depth' h
      have hgo := ih fuel depth' (i :: pre) (by omega) h hcode
      rwa [reverse_cons, append_assoc] at hgo
    rw [Encode.expression, flatMap_cons, append_assoc]
    refine (decodes_of_reads hi).bind ?_
    unfold openAfter at hopen
    by_cases hopens : i.op.opensConstruct
    · have hne : ¬ (i.op = .endOp ∧ d = 0) := by
        rintro ⟨hop, -⟩
        rw [hop] at hopens
        exact absurd hopens (by decide)
      rw [if_pos hopens] at hopen
      rw [if_neg hne, if_pos hopens]
      exact (decodes_note _ _).bind (hr _ hopen)
    · rw [if_neg hopens] at hopen
      by_cases hop : i.op = .endOp
      · rw [if_pos hop] at hopen
        cases d with
        | zero => simp at hopen
        | succ d =>
          rw [if_neg (by simp), if_neg hopens, if_pos hop]
          exact (decodes_note _ _).bind (hr _ hopen)
      · rw [if_neg hop] at hopen
        rw [if_neg (fun h => hop h.1), if_neg hopens, if_neg hop]
        exact (decodes_note _ _).bind (hr _ hopen)

/-- Balanced code is decoded from its bytes, if each instruction is read from its own. -/
lemma decodes_expression_of_reads (hopen : openAfter 0 code = some 0)
    (hread : ∀ i ∈ code, Reads instruction (instruction i) i) :
    Decodes expression (Encode.expression code) code := by
  have hn : code.length ≤ (code.flatMap instruction).length :=
    count_le_flatMap fun i _ => Nat.succ_pos _
  intro rest e
  have hfuel : code.length < (Encode.expression code ++ rest).length + 1 := by
    rw [length_append, Encode.expression, length_append]
    omega
  exact decodes_codeUpTo code _ 0 [] hfuel hopen hread rest e

/-- Balanced code of shaped instructions is decoded from its bytes. The count of a branch table is
a 32-bit number, since its targets take that many bytes. -/
lemma decodes_expression (hopen : openAfter 0 code = some 0)
    (hshape : ∀ i ∈ code, i.isShaped = true) (hsize : (Encode.expression code).length < 2 ^ 32) :
    Decodes expression (Encode.expression code) code := by
  refine decodes_expression_of_reads hopen fun i hi => reads_instruction (hshape i hi) ?_
  intro targets default himm
  have hn : targets.length ≤ (vector writeUnsigned targets).length :=
    count_le_vector fun d _ => Varint.length_writeUnsigned_pos d
  have hlen : (Encode.instruction i).length ≤ (code.flatMap Encode.instruction).length :=
    length_le_flatMap hi
  simp only [Encode.instruction, Encode.expression, himm, Encode.immediate, length_cons,
    length_append] at hlen hsize
  omega

/-- **Lists of entries.** A count, a step that is repeated as often and what is done with its
result decode an encoded list, when the step reads each entry in the state of those before it. That
the count and the sizes of the entries are 32-bit numbers follows from the size of the whole. -/
theorem decodes_entries {β σ : Type} {step : σ → Decoder σ} {entry : α → List UInt8} {xs : List α}
    {start : σ} {k : Nat → σ → Decoder β} {b : β} (state : List α → σ) (hstart : state [] = start)
    (hsize : (vector entry xs).length < 2 ^ 32) (hpos : ∀ x ∈ xs, 0 < (entry x).length)
    (hstep : ∀ pre x post, xs = pre ++ x :: post → (entry x).length < 2 ^ 32 →
      Decodes (step (state pre)) (entry x) (state (pre ++ [x])))
    (hk : Decodes (k xs.length (state xs)) [] b) :
    Decodes (do
      let count ← varuint 32
      let x ← iterate step count start
      k count x) (vector entry xs) b := by
  have hn : xs.length < 2 ^ 32 := Nat.lt_of_le_of_lt (count_le_vector hpos) hsize
  have hiterate := decodes_iterate state xs fun pre x post hxs =>
    hstep pre x post hxs (Nat.lt_of_le_of_lt (length_le_vector (by simp [hxs])) hsize)
  rw [hstart] at hiterate
  exact (decodes_of_reads (reads_varuint hn)).bind (hiterate.andThen hk)

end Decoder

/-! ## Sections

Each section extends the module that was read before it by its entries. -/

namespace Section

open Reader Decoder

variable {visible : Nat}

/-- A type section adds its function types. -/
lemma decodes_types (m : Module) {ts : List FuncType}
    (hsize : (vector funcType ts).length < 2 ^ 32) :
    Decodes (types m) (vector funcType ts) { m with types := m.types ++ ts } := by
  refine decodes_entries (fun pre => { m with types := m.types ++ pre }) (by simp) hsize
    (fun t _ => Nat.succ_pos _) ?_ ((decodes_note _ _).bind (decodes_pure _))
  intro pre t post _ hentry
  have hparams : t.params.length < 2 ^ 32 := by
    have hn : t.params.length ≤ (vector valueType t.params).length :=
      count_le_vector fun _ _ => Nat.one_pos
    simp only [funcType, length_cons, length_append] at hentry
    omega
  refine (decodes_of_reads (reads_funcType hparams)).andThen ?_
  rw [← append_assoc]
  exact decodes_pure _

/-- What is imported. -/
lemma decodes_importDesc {moduleName field : String} {desc : ImportDesc}
    (hdesc : desc.isAdmissible m.types.length = true) (hts : m.types.length ≤ 2 ^ 32) :
    Decodes (importDesc m moduleName field) (Encode.importDesc desc) desc := by
  unfold importDesc
  cases desc with
  | function t =>
    have ht : t < m.types.length := of_decide_eq_true hdesc
    refine (decodes_of_reads (reads_tag (v := 0) (by decide))).bind ?_
    exact (decodes_of_reads (reads_varuint (by omega))).andThen (.of_if_pos ht (decodes_pure _))
  | table l =>
    exact (decodes_of_reads (reads_tag (v := 1) (by decide))).bind
      ((decodes_of_reads (reads_table hdesc)).map ImportDesc.table)
  | memory l =>
    exact (decodes_of_reads (reads_tag (v := 2) (by decide))).bind
      ((decodes_of_reads (reads_limits hdesc)).map ImportDesc.memory)
  | global g =>
    exact (decodes_of_reads (reads_tag (v := 3) (by decide))).bind
      ((decodes_of_reads (reads_globalType g)).map ImportDesc.global)

/-- An import section adds its imports and brings the counts up to date. -/
lemma decodes_imports (m : Module) (hsize : (vector importEntry is).length < 2 ^ 32)
    (hdesc : ∀ i ∈ is, i.desc.isAdmissible m.types.length = true)
    (hts : m.types.length ≤ 2 ^ 32) :
    Decodes (imports m) (vector importEntry is)
      { m with imports := m.imports ++ is }.countImports := by
  refine decodes_entries (fun pre => { m with imports := m.imports ++ pre }) (by simp) hsize
    (fun i _ => name_append_pos _ _) ?_ ((decodes_note _ _).bind (decodes_pure _))
  intro pre i post his hentry
  have hi : i ∈ is := by simp [his]
  rw [importEntry, length_append, length_append] at hentry
  refine (decodes_of_reads (reads_encodedName (by omega))).bind ?_
  refine (decodes_of_reads (reads_encodedName (by omega))).bind ?_
  refine (decodes_importDesc (hdesc i hi) hts).andThen ?_
  refine (decodes_note _ _).bind ?_
  rw [← append_assoc]
  exact decodes_pure _

/-- A function section adds its signatures. -/
lemma decodes_signatures (m : Module) {ts : List Nat}
    (hsize : (vector writeUnsigned ts).length < 2 ^ 32)
    (hts : ∀ t ∈ ts, t < m.types.length) (htypes : m.types.length ≤ 2 ^ 32) :
    Decodes (signatures m) (vector writeUnsigned ts)
      { m with signatures := m.signatures ++ ts } := by
  refine decodes_entries (fun pre => { m with signatures := m.signatures ++ pre }) (by simp)
    hsize (fun t _ => Varint.length_writeUnsigned_pos t) ?_
    ((decodes_note _ _).bind (decodes_pure _))
  intro pre t post hxs _
  have ht : t < m.types.length := hts t (by simp [hxs])
  refine (decodes_of_reads (reads_varuint (by omega))).andThen ?_
  rw [← append_assoc]
  exact .of_if_pos ht (decodes_pure _)

/-- A memory section adds its memories, when there is at most one in all. -/
lemma decodes_memories (m : Module) {ls : List Limits} (hsize : (vector limits ls).length < 2 ^ 32)
    (hls : ∀ l ∈ ls, l.fits = true ∧ l.maximum.all (l.initial ≤ ·) = true)
    (hone : (m.memories ++ ls).length + m.importedMemories ≤ 1) :
    Decodes (memories m) (vector limits ls) { m with memories := m.memories ++ ls } := by
  refine decodes_entries (fun pre => { m with memories := m.memories ++ pre }) (by simp)
    hsize ?_ ?_ ?_
  · intro l _
    unfold Encode.limits
    split <;> exact Nat.succ_pos _
  · intro pre l post hxs _
    obtain ⟨hfits, hmaximum⟩ := hls l (by simp [hxs])
    refine (decodes_of_reads (reads_limits hfits)).andThen ?_
    rw [← append_assoc]
    cases hmax : l.maximum with
    | none => exact decodes_pure _
    | some maximum =>
      rw [hmax, Option.all_some, decide_eq_true_eq] at hmaximum
      exact .of_if_neg (Nat.not_lt_of_le hmaximum) (decodes_pure _)
  · exact .of_if_neg (Nat.not_lt_of_le hone) ((decodes_note _ _).bind (decodes_pure _))

/-- The two forms of an initializer. -/
lemma initializes_cases (h : i.initializes visible = true) :
    (∃ t imm, i = ⟨.const t, imm⟩) ∨ ∃ k, k < visible ∧ i = ⟨.getGlobal, .index k⟩ := by
  obtain ⟨op, imm⟩ := i
  simp only [Instruction.initializes] at h
  split at h
  · exact .inl ⟨_, _, rfl⟩
  · exact .inr ⟨_, of_decide_eq_true h, rfl⟩
  · exact absurd h Bool.false_ne_true

/-- The initializer of a global or the offset of a segment. -/
lemma decodes_initializer (hshape : i.isShaped = true) (hinit : i.initializes visible = true)
    (hsize : (Encode.expression [i]).length < 2 ^ 32) :
    Decodes (initializer visible) (Encode.expression [i]) i := by
  have hcode : openAfter 0 [i] = some 0 →
      Decodes Decoder.expression (Encode.expression [i]) [i] := fun hopen =>
    decodes_expression hopen (by simpa using hshape) hsize
  unfold initializer
  rcases initializes_cases hinit with ⟨t, imm, rfl⟩ | ⟨k, hk, rfl⟩
  · exact (hcode rfl).andThen (decodes_pure _)
  · exact (hcode rfl).andThen (.of_if_pos hk (decodes_pure _))

/-- A global section adds its globals. Each is initialized by a constant or by a global before
it. -/
lemma decodes_globals (m : Module) {gs : List Global}
    (hsize : (vector globalEntry gs).length < 2 ^ 32)
    (hgs : ∀ i, ∀ h : i < gs.length, gs[i].init.isShaped = true ∧
      gs[i].init.initializes (m.importedGlobals + (m.globals.length + i)) = true) :
    Decodes (globals m) (vector globalEntry gs) { m with globals := m.globals ++ gs } := by
  refine decodes_entries (fun pre => { m with globals := m.globals ++ pre }) (by simp)
    hsize (fun g _ => Nat.succ_pos _) ?_ ((decodes_note _ _).bind (decodes_pure _))
  intro pre g post hxs hentry
  subst hxs
  obtain ⟨hshape, hinit⟩ : g.init.isShaped = true ∧
      g.init.initializes (m.importedGlobals + (m.globals ++ pre).length) = true := by
    have h := hgs pre.length (by simp)
    rwa [getElem_append_right (Nat.le_refl _), getElem_congr_idx (Nat.sub_self _),
      getElem_cons_zero, ← length_append] at h
  rw [globalEntry, length_append] at hentry
  rw [← append_assoc]
  exact (decodes_of_reads (reads_globalType g.type)).bind
    ((decodes_initializer hshape hinit (by omega)).andThen (decodes_pure _))

/-- An export section adds its exports, when what they refer to is there. -/
lemma decodes_exports (m : Module) {es : List Export}
    (hsize : (vector exportEntry es).length < 2 ^ 32)
    (hes : ∀ e ∈ es, e.index < 2 ^ 32 ∧ exportable m e.kind e.index = true) :
    Decodes (exports m) (vector exportEntry es) { m with exports := m.exports ++ es } := by
  refine decodes_entries (fun pre => { m with exports := m.exports ++ pre }) (by simp)
    hsize (fun e _ => name_append_pos _ _) ?_ ((decodes_note _ _).bind (decodes_pure _))
  intro pre e post hxs hentry
  obtain ⟨hindex, htarget⟩ := hes e (by simp [hxs])
  rw [exportEntry, length_append] at hentry
  have hk : e.kind.code < 128 := by cases e.kind <;> decide
  refine (decodes_of_reads (reads_encodedName (by omega))).bind ?_
  refine (decodes_of_reads (reads_tag hk)).bind ?_
  rw [show ExternKind.ofCode? e.kind.code = some e.kind by cases e.kind <;> rfl, ← append_assoc]
  exact (decodes_of_reads (reads_varuint hindex)).andThen (.of_if_pos htarget (decodes_pure _))

/-- The functions of a segment, when they are there. -/
lemma decodes_segmentFunctions {fs : List Nat} (hsize : (vector writeUnsigned fs).length < 2 ^ 32)
    (hfs : ∀ f ∈ fs, f < 2 ^ 32 ∧ (m.function? f).isSome = true) :
    Decodes (segmentFunctions m) (vector writeUnsigned fs) fs := by
  have hdone : Decodes (pure fs.reverse.reverse) [] fs := by
    rw [reverse_reverse]
    exact decodes_pure fs
  refine decodes_entries List.reverse rfl hsize (fun f _ => Varint.length_writeUnsigned_pos f) ?_
    hdone
  intro pre f post hxs _
  obtain ⟨hsmall, hfunction⟩ := hfs f (by simp [hxs])
  rw [reverse_append]
  exact (decodes_of_reads (reads_varuint hsmall)).andThen (.of_if_pos hfunction (decodes_pure _))

/-- An element section adds its segments. -/
lemma decodes_segments (m : Module) {ss : List Segment}
    (hsize : (vector segment ss).length < 2 ^ 32)
    (hoffsets : ∀ s ∈ ss, s.table < 2 ^ 32 ∧ s.offset.isShaped = true ∧
      s.offset.initializes (m.importedGlobals + m.globals.length) = true)
    (hfs : ∀ s ∈ ss, ∀ f ∈ s.functions, f < 2 ^ 32 ∧ (m.function? f).isSome = true) :
    Decodes (segments m) (vector segment ss) { m with segments := m.segments ++ ss } := by
  refine decodes_entries (fun pre => { m with segments := m.segments ++ pre }) (by simp)
    hsize (fun s _ => number_append_pos _ _) ?_ ((decodes_note _ _).bind (decodes_pure _))
  intro pre s post hxs hentry
  obtain ⟨htable, hshape, hinit⟩ := hoffsets s (by simp [hxs])
  rw [Encode.segment, length_append, length_append] at hentry
  rw [← append_assoc]
  exact (decodes_of_reads (reads_varuint htable)).bind
    ((decodes_initializer hshape hinit (by omega)).bind
      ((decodes_segmentFunctions (by omega) (hfs s (by simp [hxs]))).andThen (decodes_pure _)))

/-- The declared locals of a body, when they are not too many. -/
lemma decodes_locals {ts : List ValueType} (hlocals : ts.length ≤ maxLocals)
    (hsize : (vector run (runs ts)).length < 2 ^ 32) :
    Decodes locals (vector run (runs ts)) ts := by
  have hruns := flatMap_runs ts
  generalize runs ts = rs at hruns hsize
  subst hruns
  let expand := fun r : Nat × ValueType => List.replicate r.1 r.2
  have hdone : Decodes (pure (rs.flatMap expand).reverse.reverse) [] (rs.flatMap expand) := by
    rw [reverse_reverse]
    exact decodes_pure _
  refine decodes_entries (fun pre => (pre.flatMap expand).reverse) rfl hsize
    (fun r _ => number_append_pos _ _) ?_ hdone
  rintro pre ⟨quantity, t⟩ post hxs -
  have hroom : (pre.flatMap expand).reverse.length + quantity ≤ maxLocals := by
    simp only [hxs, flatMap_append, flatMap_cons, length_append, length_replicate] at hlocals
    rw [length_reverse]
    simp only [expand]
    omega
  have hnext : ((pre ++ [(quantity, t)]).flatMap expand).reverse =
      List.replicate quantity t ++ (pre.flatMap expand).reverse := by
    simp [expand]
  rw [hnext]
  have hsmall : quantity < 2 ^ 32 := by
    have : maxLocals < 2 ^ 32 := by decide
    omega
  refine (decodes_of_reads (reads_varuint hsmall)).bind (.of_if_neg (Nat.not_lt_of_le hroom) ?_)
  exact (decodes_of_reads (reads_valueType t)).andThen (decodes_pure _)

/-- A body inside its declared size, for the signature at its position. -/
lemma decodes_sizedBody {pos : Nat} {f : Function}
    (hsignature : m.signatures[pos]? = some f.typeIndex)
    (hlocals : f.locals.length ≤ maxLocals) (hopen : openAfter 0 f.code = some 0)
    (hshape : ∀ i ∈ f.code, i.isShaped = true) (hsize : (Encode.body f).length < 2 ^ 32) :
    Decodes (sizedBody m pos) (Encode.body f) f := by
  have hbody : (vector run (runs f.locals) ++ expression f.code).length < 2 ^ 32 :=
    Nat.lt_of_le_of_lt (length_le_sized _) hsize
  have hparts := hbody
  rw [length_append] at hparts
  have hdecoded : Decodes body (vector run (runs f.locals) ++
      expression f.code) (f.locals, f.code) :=
    (decodes_locals hlocals (by omega)).bind
      ((decodes_expression hopen hshape (by omega)).andThen (decodes_pure _))
  unfold sizedBody
  refine (decodes_of_reads (reads_varuint hbody)).bind ?_
  refine (decodes_within (hdecoded.mapError _)).andThen ?_
  refine .of_if_neg (fun h => h rfl) ((decodes_note _ _).bind ?_)
  rw [hsignature]
  exact decodes_pure _

/-- A code section adds its functions, one for each signature. -/
lemma decodes_code (m : Module) {fs : List Function}
    (hsize : (vector Encode.body fs).length < 2 ^ 32)
    (hts : fs.map Function.typeIndex = m.signatures)
    (hlocals : ∀ f ∈ fs, f.locals.length ≤ maxLocals)
    (hcode : ∀ f ∈ fs, openAfter 0 f.code = some 0 ∧ ∀ i ∈ f.code, i.isShaped = true) :
    Decodes (code m) (vector Encode.body fs) { m with functions := m.functions ++ fs } := by
  have hn : fs.length < 2 ^ 32 :=
    Nat.lt_of_le_of_lt (count_le_vector fun f _ => number_append_pos _ _) hsize
  have hlen : fs.length = m.signatures.length := by rw [← hts, length_map]
  unfold code
  refine (decodes_of_reads (reads_varuint hn)).bind (.of_if_neg (fun h => h hlen) ?_)
  let state := fun pre : List Function =>
    (({ m with functions := m.functions ++ pre } : Module), pre.length)
  have hstart : state [] = (m, 0) := by simp [state]
  rw [← hstart]
  refine Decodes.andThen (a := state fs) (decodes_iterate state fs ?_) (decodes_pure _)
  intro pre f post hxs
  have hf : f ∈ fs := by simp [hxs]
  have hentry : (Encode.body f).length < 2 ^ 32 :=
    Nat.lt_of_le_of_lt (length_le_vector hf) hsize
  have hsignature : m.signatures[pre.length]? = some f.typeIndex := by
    simp [← hts, hxs]
  have hnext : state (pre ++ [f]) =
      ({ m with functions := m.functions ++ pre ++ [f] }, pre.length + 1) := by
    simp [state]
  rw [hnext]
  exact (decodes_sizedBody hsignature (hlocals f hf) (hcode f hf).1 (hcode f hf).2 hentry).andThen
    (decodes_pure _)

end Section

/-! ## Modules -/

namespace Module

variable {index : Nat}

/-- An index below the number of imports and definitions together stands for one of them. -/
lemma isSome_resolved {count own : Nat} (hn : is.length = count) (h : index < count + own) :
    (if index < count then is[index]?.map Resolved.imported
      else if index - count < own then some (Resolved.own (index - count))
      else none).isSome = true := by
  by_cases himported : index < count
  · rw [if_pos himported, getElem?_eq_getElem (by omega)]
    rfl
  · rw [if_neg himported, if_pos (by omega)]
    rfl

/-- Every index below the number of functions stands for one, when the imports are counted. -/
lemma isSome_function? (hn : (m.importsOf .function).length = m.importedFunctions)
    (h : index < m.importedFunctions + m.signatures.length) : (m.function? index).isSome = true :=
  isSome_resolved hn h

/-- Every index below the number of globals stands for one, when the imports are counted. -/
lemma isSome_global? (hn : (m.importsOf .global).length = m.importedGlobals)
    (h : index < m.importedGlobals + m.globals.length) : (m.global? index).isSome = true :=
  isSome_resolved hn h

end Module

namespace Decoder

variable {m' : Module} {m'' : Module} {id : Nat}

/-- Reading `bs` as sections takes a module to another, whatever sections come behind. The bound
on the number of sections stays above the number of bytes. -/
def Carries (bs : List UInt8) (m m' : Module) : Prop :=
  ∀ rest fuel, (bs ++ rest).length < fuel → ∃ fuel', rest.length < fuel' ∧
    (sections fuel m ⟨bs ++ rest, .clean⟩).outcome = (sections fuel' m' ⟨rest, .clean⟩).outcome

lemma carries_nil (m : Module) : Carries [] m m := fun _ fuel h => ⟨fuel, h, rfl⟩

/-- Sections in sequence. -/
lemma Carries.append {bs bs' : List UInt8} (h : Carries bs m m') (h' : Carries bs' m' m'') :
    Carries (bs ++ bs') m m'' := by
  intro rest fuel hfuel
  rw [append_assoc] at hfuel ⊢
  obtain ⟨fuel', hfuel', hf⟩ := h (bs' ++ rest) fuel hfuel
  obtain ⟨fuel'', hfuel'', hothers⟩ := h' rest fuel' hfuel'
  exact ⟨fuel'', hfuel'', hf.trans hothers⟩

/-- One section with its id and its length. -/
lemma carries_framed {payload : List UInt8} (hid : id < 128) (hsize : payload.length < 2 ^ 32)
    (h : Decodes (Section.payload id m) payload m') :
    Carries (UInt8.ofNat id :: sized payload) m m' := by
  have hframed : Decodes (framedSection id m) (sized payload) m' := by
    have hlen : Decodes (liftM (varuint 32)) (writeUnsigned payload.length)
      payload.length := decodes_of_reads (reads_varuint hsize)
    exact (hlen.mapError _).bind
      ((decodes_within (h.mapError _)).andThen (.of_if_neg (fun h => h rfl) (decodes_pure _)))
  intro rest fuel hfuel
  obtain ⟨fuel, rfl⟩ : ∃ n, fuel = n + 1 := ⟨fuel - 1, by simp at hfuel; omega⟩
  refine ⟨fuel, ?_, ?_⟩
  · simp only [cons_append, length_cons, length_append] at hfuel
    omega
  · have hname : Decodes sectionId? [UInt8.ofNat id] (some id) := by
      intro rest e
      have hbyte : (UInt8.ofNat id).toNat = id := Utf8.toNat_byte (by omega)
      simp [sectionId?, Source.next, hbyte, Nat.not_le_of_lt hid]
    calc (sections (fuel + 1) m ⟨[UInt8.ofNat id] ++ (sized payload ++ rest), .clean⟩).outcome
        = ((framedSection id m >>= sections fuel) ⟨sized payload ++ rest, .clean⟩).outcome :=
          hname.outcome_bind _ _ _
      _ = (sections fuel m' ⟨rest, .clean⟩).outcome := hframed.outcome_bind _ _ _

/-- A section in front of others, written or left out. It may be left out when it has no entries,
and then adds nothing. -/
lemma Carries.cons {keep : Nat → Bool} {entry : α → List UInt8} {xs : List α}
    {ps : List Part} (hid : id < 128) (hsize : (vector entry xs).length < 2 ^ 32)
    (h : Decodes (payload id m) (vector entry xs) m') (hempty : xs = [] → m' = m)
    (hothers : Carries (Encode.sections keep ps) m' m'') :
    Carries (Encode.sections keep (part id entry xs :: ps)) m m'' := by
  unfold Encode.sections
  rw [filter_cons]
  by_cases hkept : (!xs.isEmpty || keep id) = true
  · rw [part, if_pos hkept, flatMap_cons]
    exact (carries_framed hid hsize h).append hothers
  · have hnone : xs = [] := by
      cases xs with
      | nil => rfl
      | cons x xs => simp at hkept
    rw [part, if_neg hkept, ← hempty hnone]
    exact hothers

/-- At the end of the input the sections are read. -/
lemma Carries.outcome {bs : List UInt8} (h : Carries bs m m') :
    (sections (bs.length + 1) m ⟨bs, .clean⟩).outcome = .ok (m', ⟨[], .clean⟩) := by
  obtain ⟨fuel, hfuel, hrun⟩ := h [] (bs.length + 1) (by simp)
  rw [append_nil] at hrun
  obtain ⟨fuel, rfl⟩ : ∃ n, fuel = n + 1 := ⟨fuel - 1, by simp at hfuel; omega⟩
  exact hrun

/-- The header. -/
lemma decodes_header : Decodes header (Encode.magic ++ Varint.littleEndian 4 1) 1 := by
  have hmagic : Reader.Reads (Reader.littleEndian 4) Encode.magic magic :=
    reads_littleEndian (n := 4) (v := magic) (by decide)
  have hversion : Reader.Reads (Reader.littleEndian 4) (Varint.littleEndian 4 1) version :=
    reads_littleEndian (by decide)
  refine ((decodes_of_reads hmagic).mapError headerError).bind (.of_if_neg (fun h => h rfl) ?_)
  refine ((decodes_of_reads hversion).mapError headerError).andThen (.of_if_neg (fun h => h rfl) ?_)
  exact (decodes_note _ _).bind (decodes_pure _)

end Decoder

namespace Module

open Decoder

/-- Every export of an encodable module has its target. -/
lemma exportable_of_lt (hcounts : m.countImports = m) {e : Export}
    (hfunction : e.kind = .function → e.index < m.importedFunctions + m.signatures.length)
    (hglobal : e.kind = .global → e.index < m.importedGlobals + m.globals.length) :
    exportable m e.kind e.index = true := by
  unfold exportable
  split
  · rename_i hk
    exact isSome_function? (congrArg importedFunctions hcounts) (hfunction hk)
  · rename_i hk
    exact isSome_global? (congrArg importedGlobals hcounts) (hglobal hk)
  · rfl
  · rfl

/-- **The sections of a module.** Read in order they build up the module, from nothing but its
version.

**Proof sketch.** Each section extends what was read before it, and what it refers to was read
before it. -/
theorem carries_parts (keep : Nat → Bool) (h : Encodable m) :
    Carries (Encode.sections keep (Encode.parts m)) { version := 1 } m := by
  have hsizes := h.sizes
  simp only [Encode.parts, mem_cons, not_mem_nil, or_false, forall_eq_or_imp, forall_eq] at hsizes
  obtain ⟨hs1, hs2, hs3, hs5, hs6, hs7, hs9, hs10⟩ := hsizes
  have hn : m.types.length ≤ (vector funcType m.types).length :=
    count_le_vector fun _ _ => Nat.succ_pos _
  have hts : m.types.length ≤ 2 ^ 32 := Nat.le_of_lt (Nat.lt_of_le_of_lt hn hs1)
  have hexports : ∀ e ∈ m.exports, e.index < 2 ^ 32 ∧ exportable m e.kind e.index = true :=
    fun e he =>
      ⟨(h.exports e he).1, exportable_of_lt h.counts (h.exports e he).2.1 (h.exports e he).2.2⟩
  have hsegments : ∀ s ∈ m.segments, ∀ f ∈ s.functions,
      f < 2 ^ 32 ∧ (m.function? f).isSome = true := fun s hs f hf =>
    ⟨(h.segments s hs f hf).1,
      isSome_function? (congrArg importedFunctions h.counts) (h.segments s hs f hf).2⟩
  have hgs : ∀ i, ∀ hi : i < m.globals.length, m.globals[i].init.isShaped = true ∧
      m.globals[i].init.initializes (m.importedGlobals + (0 + i)) = true := by
    intro i hi
    rw [Nat.zero_add]
    exact h.globals i hi
  obtain ⟨version, types, imports, signatures, memories, globals, exports, segments, functions,
    customSections, importedFunctions, importedGlobals, importedTables⟩ := m
  obtain rfl : version = 1 := h.version
  obtain rfl : customSections = [] := h.customSections
  have hcounts := h.counts
  simp only [countImports, importsOf, mk.injEq, true_and] at hcounts
  obtain ⟨rfl, rfl, rfl⟩ := hcounts
  refine Carries.cons (by decide) hs1 ((decodes_note _ _).bind
    (decodes_types _ hs1)) (by rintro rfl; rfl) ?_
  refine Carries.cons (by decide) hs2 ((decodes_note _ _).bind
    (decodes_imports _ hs2 h.imports hts)) (by rintro rfl; rfl) ?_
  refine Carries.cons (by decide) hs3 ((decodes_note _ _).bind
    (decodes_signatures _ hs3 h.signatures hts)) (by rintro rfl; rfl) ?_
  refine Carries.cons (by decide) hs5 ((decodes_note _ _).bind
    (decodes_memories _ hs5 h.memories h.oneMemory)) (by rintro rfl; rfl) ?_
  refine Carries.cons (by decide) hs6 ((decodes_note _ _).bind
    (decodes_globals _ hs6 hgs)) (by rintro rfl; rfl) ?_
  refine Carries.cons (by decide) hs7 ((decodes_note _ _).bind
    (decodes_exports _ hs7 hexports)) (by rintro rfl; rfl) ?_
  refine Carries.cons (by decide) hs9 ((decodes_note _ _).bind
    (decodes_segments _ hs9 h.offsets hsegments)) (by rintro rfl; rfl) ?_
  refine Carries.cons (by decide) hs10 ((decodes_note _ _).bind
    (decodes_code _ hs10 h.functions h.locals h.code)) (by rintro rfl; rfl) ?_
  exact carries_nil _

/-- **Decoding inverts encoding.** The bytes of an encodable module decode as this module, whichever
of its empty sections are written. -/
theorem outcome_decode_encode (keep : Nat → Bool) (m : Module) (h : Encodable m) :
    (decode ⟨m.encode keep, .clean⟩).outcome = .ok m := by
  have hfinish : (finish m ⟨[], .clean⟩).outcome = .ok (m, ⟨[], .clean⟩) := by
    have hlen : m.functions.length = m.signatures.length := by
      rw [← h.functions, length_map]
    have hdone : Decodes (finish m) [] m :=
      .of_if_neg (by omega) (.of_if_neg (by omega) ((decodes_note _ _).bind (decodes_pure _)))
    exact hdone [] .clean
  have hwhole : (wholeModule ⟨m.encode keep, .clean⟩).outcome = .ok (m, ⟨[], .clean⟩) := by
    rw [encode, h.version, ← append_assoc]
    unfold wholeModule
    rw [decodes_header.outcome_bind]
    change (sections _ _ _ >>= fun p => finish p.1 p.2 : Traced _).outcome = _
    rw [Traced.outcome_bind, (carries_parts keep h).outcome]
    exact hfinish
  unfold decode
  rw [Traced.outcome_bind, hwhole]
  rfl

/-- A module that has an entry in every section. -/
def everySection : Module where
  types := [⟨[.i32, .f64], some .i64⟩, ⟨[], none⟩]
  imports := [⟨"env", "größe", .function 1⟩, ⟨"env", "table", .table ⟨1, some 300⟩⟩,
    ⟨"env", "base", .global ⟨.i32, false⟩⟩]
  signatures := [0, 1]
  memories := [⟨1, some 65536⟩]
  globals := [⟨⟨.i32, true⟩, ⟨.getGlobal, .index 0⟩⟩,
    ⟨⟨.f64, false⟩, ⟨.const .f64, .value (.f64 0x7ff8000000000001)⟩⟩]
  exports := [⟨"run", .function, 1⟩, ⟨"quiet", .global, 2⟩, ⟨"memory", .memory, 0⟩]
  segments := [⟨0, ⟨.getGlobal, .index 1⟩, [1, 0, 2]⟩]
  functions := [ ⟨0, [.i32, .i32, .f32, .i32],
      [⟨.block, .block (some .i64)⟩, ⟨.const .i64, .value (.i64 (-9223372036854775808))⟩,
        ⟨.getLocal, .index 0⟩, ⟨.brTable, .table [0, 1] 0⟩, ⟨.endOp, .none⟩]⟩,
    ⟨1, [], [⟨.const .i32, .value (.i32 (-129))⟩, ⟨.growMemory, .none⟩,
      ⟨.callIndirect, .callIndirect 1 false⟩]⟩]
  importedFunctions := 1
  importedGlobals := 1
  importedTables := 1

/-- This module can be written. -/
lemma encodable_everySection : Encodable everySection where
  version := rfl
  customSections := rfl
  counts := rfl
  imports := by decide
  signatures := by decide
  oneMemory := by decide
  memories := by decide
  globals := by decide
  exports := by decide
  offsets := by decide
  segments := by decide
  functions := rfl
  locals := by decide
  code := by decide
  sizes := by decide +kernel

/-- Written without its empty sections, it is read back. -/
theorem outcome_decode_everySection : Encodable everySection ∧
    (decode ⟨everySection.encode fun _ => false, .clean⟩).outcome = .ok everySection :=
  ⟨encodable_everySection,
    outcome_decode_encode (fun _ => false) everySection encodable_everySection⟩

end Module

end WasmToC

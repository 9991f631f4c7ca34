import WasmToC.Proofs.CallSites
import WasmToC.Proofs.ExprShape
import WasmToC.Proofs.PendingSafety

/-!
# Texts say what was built

Read by the grammar of C, the text of an expression is the tree that the expression was built as:
operators, casts and signs apply to the operands that they were built with, and to nothing else.
The only obstacle is a function or global whose symbol is no name in C. Symbols are made of the
names that a module and its options give, and `int32` and `t` make a type name.

## Main definitions

* `C.literalTree`, `C.Expr.tree` — the tree that an expression is built as.
* `C.Expr.ReadsAsBuilt` — its text has the shape of this tree and no other.

## Main results

* `C.Expr.Built.fitText` — the text of an expression that is built is fit to be an operand.
* `texts_read_as_built` — all expressions of a body read as they were built.
* `type_name_for_global` — a global whose symbol is the name of a type cannot be read.
-/

namespace WasmToC

open List

variable {w : String}

namespace C

variable {k : Nat} {e : Expr}

/-! ## Trees -/

/-- The tree of a whole number. -/
def intTree : Int → Tree
  | .ofNat k => .number (toString k)
  | .negSucc k => .before .minus (.number (toString (k + 1)))

/-- The tree of a constant. -/
def literalTree : Value → Tree
  | .i32 v => if v = Int32.minValue then .name "INT32_MIN" else intTree v.toInt
  | .i64 v =>
    if v = Int64.minValue then .name "INT64_MIN" else .call (.name "INT64_C") [intTree v.toInt]
  | .f32 bits =>
    .call (.name "wasm_rt_f32_bits") [.number ("0x" ++ Text.hexFixed 8 bits.toNat ++ "u")]
  | .f64 bits =>
    .call (.name "wasm_rt_f64_bits")
      [.call (.name "UINT64_C") [.number ("0x" ++ Text.hexFixed 16 bits.toNat)]]

mutual

/-- The tree that an expression is built as. -/
def Expr.tree (n : Naming) : Expr → Tree
  | .const v => literalTree v
  | .zero t => .number t.cZero
  | .var i => .name (localName n.params i)
  | .temp i => .name (tempName i)
  | .global i => .name (n.symbols.global i)
  | .memorySize => .call (.name "wasm_rt_memory_size") []
  | .memoryGrow delta => .call (.name "wasm_rt_memory_grow") [delta.tree n]
  | .load op addr off =>
    .call (.name (supportName op.name)) [addr.tree n, .number s!"{off}u"]
  | .call f args => .call (.name (n.symbols.function f)) (Expr.trees n args)
  | .numeric op args => op.form.tree (Expr.trees n args)
  | .choose cond yes no => .conditional (cond.tree n) (yes.tree n) (no.tree n)

/-- The trees of a list of expressions. -/
def Expr.trees (n : Naming) : List Expr → List Tree
  | [] => []
  | e :: es => e.tree n :: Expr.trees n es

end

lemma Expr.trees_eq_map (n : Naming) (es : List Expr) : Expr.trees n es = es.map (Expr.tree n) := by
  induction es with
  | nil => rfl
  | cons e es ih => rw [Expr.trees, ih, map_cons]

/-! ## Numbers and names -/

lemma isNumeralChar_of_isWordChar {c : Char} (h : isWordChar c = true) :
    isNumeralChar c = true := by
  simp [isNumeralChar, h]

/-- The digits of a number, perhaps with a suffix. -/
lemma isNumber_digits {x : String} (rest : List Char) (hx : x.toList = Nat.toDigits 10 k ++ rest)
    (hr : rest.all isWordChar = true) : isNumber x = true := by
  rw [isNumber, hx]
  cases hdigits : Nat.toDigits 10 k with
  | nil => exact absurd hdigits Nat.toDigits_ne_nil
  | cons c cs =>
    have hall : ∀ d ∈ c :: cs, d ∈ Nat.toDigits 10 k := by
      rw [hdigits]
      exact fun d hd => hd
    have hc : c.isDigit = true :=
      Nat.isDigit_of_mem_toDigits (by decide) (by decide) (hall c mem_cons_self)
    refine Bool.and_eq_true_iff.mpr ⟨hc, all_eq_true.mpr fun d hd => ?_⟩
    refine isNumeralChar_of_isWordChar ?_
    rcases mem_append.mp hd with hd | hd
    · exact isWordChar_of_mem_toDigits (hall d (mem_cons_of_mem c hd))
    · exact all_eq_true.mp hr d hd

/-- A bit pattern. -/
lemma isNumber_hex (width k : Nat) (rest : String) (hr : rest.toList.all isWordChar = true) :
    isNumber ("0x" ++ Text.hexFixed width k ++ rest) = true := by
  rw [isNumber, toList_hex]
  refine Bool.and_eq_true_iff.mpr ⟨rfl, all_eq_true.mpr fun d hd => ?_⟩
  refine isNumeralChar_of_isWordChar ?_
  rcases mem_cons.mp hd with rfl | hd
  · rfl
  · rcases mem_append.mp hd with hd | hd
    · exact isWordChar_of_mem_hexDigits hd
    · exact all_eq_true.mp hr d hd

lemma isNumber_cZero (t : ValueType) : isNumber t.cZero = true := by
  cases t <;> decide +kernel

/-- No keyword and no type name ends in a digit. -/
lemma isName_of_toDigits (front : List Char) (hw : w.toList = front ++ Nat.toDigits 10 k) :
    isName w = true := by
  have hreserved : ∀ w ∈ typeNames ++ keywords, w.toList.getLast?.any Char.isDigit = false := by
    decide +kernel
  have hdigit : w.toList.getLast?.any Char.isDigit = true := by
    rw [hw, getLast?_append_of_ne_nil _ Nat.toDigits_ne_nil,
      getLast?_eq_some_getLast Nat.toDigits_ne_nil]
    exact Nat.isDigit_of_mem_toDigits (by decide) (by decide) (getLast_mem _)
  have hmem : w ∉ typeNames ++ keywords := by
    intro h
    rw [hreserved w h] at hdigit
    cases hdigit
  rw [mem_append, not_or] at hmem
  simpa [isName, isTypeName] using hmem

/-- The macros and support functions that constants and the size of the memory take. -/
def supportNames : List String := [
  "INT32_MIN", "INT64_MIN", "INT64_C", "UINT64_C", "wasm_rt_f32_bits", "wasm_rt_f64_bits",
  "wasm_rt_memory_size", "wasm_rt_memory_grow"]

lemma isName_of_mem_supportNames (hw : w ∈ supportNames) :
    isIdentifier w = true ∧ isName w = true := by
  have h : ∀ w ∈ supportNames, isIdentifier w = true ∧ isName w = true := by decide +kernel
  exact h w hw

lemma isName_load (op : Load) :
    isIdentifier (supportName op.name) = true ∧ isName (supportName op.name) = true := by
  have h : ∀ op ∈ Load.all, isIdentifier (supportName op.name) = true ∧
      isName (supportName op.name) = true := by
    decide +kernel
  exact h op (by cases op <;> decide)

/-- A letter with a number is a name. -/
lemma suffixedText_numbered {c : Char} (hw : w.toList = c :: Nat.toDigits 10 k)
    (hc : c.isAlpha = true) : SuffixedText w.toList (.name w) := by
  refine .name ?_ (isName_of_toDigits [c] hw)
  rw [isIdentifier, hw]
  refine Bool.and_eq_true_iff.mpr ⟨by simp [hc], all_eq_true.mpr fun d hd => ?_⟩
  exact isWordChar_of_mem_toDigits hd

lemma suffixedText_support (hw : w ∈ supportNames) : SuffixedText w.toList (.name w) :=
  .name (isName_of_mem_supportNames hw).1 (isName_of_mem_supportNames hw).2

/-- A macro or support function of one argument. -/
lemma suffixedText_supportCall (hw : w ∈ supportNames) {text : String} {t : Tree}
    (h : CastText text.toList t) :
    SuffixedText (callText w [text]).toList (.call (.name w) [t]) := by
  obtain ⟨hidentifier, hname⟩ := isName_of_mem_supportNames hw
  exact SuffixedText.call [(text, t)] hidentifier hname (forall_mem_singleton.mpr h)

/-! ## Constants -/

lemma suffixedText_nat (k : Nat) : SuffixedText (toString k).toList (.number (toString k)) :=
  .number (isNumber_digits (k := k) [] (by simp [Nat.toList_repr]) rfl)

/-- A whole number, perhaps with a sign. -/
lemma fitText_int (k : Int) : FitText (toString k) (intTree k) := by
  cases k with
  | ofNat k => exact .inl (suffixedText_nat k)
  | negSucc k =>
    have htext : (toString (Int.negSucc k)).toList = '-' :: (toString (k + 1)).toList := by
      show ("-" ++ toString (k + 1)).toList = _
      simp
    rw [FitText, htext]
    exact .inr ⟨rfl, .negate (suffixedText_nat (k + 1))⟩

/-- A constant. -/
lemma fitText_literal (v : Value) : FitText (literal v) (literalTree v) := by
  cases v with
  | i32 v =>
    show FitText (if v = Int32.minValue then "INT32_MIN" else toString v.toInt)
      (if v = Int32.minValue then .name "INT32_MIN" else intTree v.toInt)
    split
    · have h := suffixedText_support (w := "INT32_MIN") (by simp [supportNames])
      exact h.fitText
    · exact fitText_int v.toInt
  | i64 v =>
    rw [literal_i64, literalTree]
    split
    · have h := suffixedText_support (w := "INT64_MIN") (by simp [supportNames])
      exact h.fitText
    · have h := suffixedText_supportCall (w := "INT64_C") (by simp [supportNames])
        (fitText_int v.toInt).castText
      exact h.fitText
  | f32 bits =>
    have hbits := SuffixedText.number (isNumber_hex 8 bits.toNat "u" rfl)
    have h := suffixedText_supportCall (w := "wasm_rt_f32_bits") (by simp [supportNames])
      hbits.castText
    rw [literal_f32]
    exact h.fitText
  | f64 bits =>
    have hbits := SuffixedText.number (isNumber_hex 16 bits.toNat "" rfl)
    rw [String.append_empty] at hbits
    have hinner := suffixedText_supportCall (w := "UINT64_C") (by simp [supportNames])
      hbits.castText
    have h := suffixedText_supportCall (w := "wasm_rt_f64_bits") (by simp [supportNames])
      hinner.castText
    rw [literal_f64]
    exact h.fitText

/-! ## Expressions -/

namespace Expr

variable {n : Naming}

/-- Texts and trees of arguments, side by side. -/
def readings (n : Naming) (args : List Expr) : List (String × Tree) :=
  args.map fun a => (a.text n, a.tree n)

lemma map_fst_readings (args : List Expr) : (readings n args).map Prod.fst = texts n args := by
  rw [texts_eq_map, readings, map_map]
  rfl

lemma map_snd_readings (args : List Expr) : (readings n args).map Prod.snd = trees n args := by
  rw [trees_eq_map, readings, map_map]
  rfl

/-- **The text of an expression that is built is fit to be an operand**, if all functions and
globals that it mentions have names. -/
theorem Built.fitText (h : e.Built) (hnames : ∀ x ∈ e.mentions,
      isIdentifier (x.symbol n.symbols) = true ∧ isName (x.symbol n.symbols) = true) :
    FitText (e.text n) (e.tree n) := by
  induction h with
  | @intro e happlied _ ih =>
    obtain ⟨hnamed, hmentions⟩ := forall_mentions.mp hnames
    replace ih : ∀ a ∈ e.operands, FitText (a.text n) (a.tree n) :=
      fun a ha => ih a ha (hmentions a ha)
    clear hnames hmentions
    cases e with
    | const v => exact fitText_literal v
    | zero t => exact (SuffixedText.number (isNumber_cZero t)).fitText
    | var i =>
      refine (suffixedText_numbered (toList_localName n.params i) ?_).fitText
      split <;> rfl
    | temp i => exact (suffixedText_numbered (toList_tempName i) rfl).fitText
    | global i =>
      obtain ⟨hidentifier, hname⟩ := hnamed (.global i) mem_cons_self
      exact (SuffixedText.name hidentifier hname).fitText
    | memorySize =>
      obtain ⟨hidentifier, hname⟩ :=
        isName_of_mem_supportNames (w := "wasm_rt_memory_size") (by simp [supportNames])
      have h := SuffixedText.call [] hidentifier hname (by simp)
      exact h.fitText
    | memoryGrow delta =>
      have hdelta := ih delta mem_cons_self
      have h := suffixedText_supportCall (w := "wasm_rt_memory_grow") (by simp [supportNames])
        hdelta.castText
      exact h.fitText
    | load op addr off =>
      have haddress := ih addr mem_cons_self
      have hoffset := SuffixedText.number (isNumber_digits (x := s!"{off}u") (k := off)
        ['u'] (by simp [toString, Nat.toList_repr]) rfl)
      have h := SuffixedText.call [(addr.text n, addr.tree n), (s!"{off}u", .number s!"{off}u")]
        (isName_load op).1 (isName_load op).2
        (forall_mem_cons.mpr ⟨haddress.castText, forall_mem_singleton.mpr hoffset.castText⟩)
      exact h.fitText
    | call f args =>
      obtain ⟨hidentifier, hname⟩ := hnamed (.function f) mem_cons_self
      have hargs : ∀ arg ∈ readings n args, CastText arg.1.toList arg.2 :=
        forall_mem_map.mpr fun a ha => (ih a ha).castText
      have h := SuffixedText.call _ hidentifier hname hargs
      rw [map_fst_readings, map_snd_readings] at h
      exact h.fitText
    | numeric op args =>
      have hargs : ∀ arg ∈ readings n args, FitText arg.1 arg.2 := forall_mem_map.mpr ih
      have hok : op.form.ok (readings n args).length = true := by
        rw [readings, length_map, happlied.1]
        exact ok_form op
      have h := Form.fitText hargs hok
      rw [map_fst_readings, map_snd_readings, ← template_eq_form] at h
      exact h
    | choose cond yes no =>
      have hcond := (ih cond (by simp [operands])).operand
      have hyes := (ih yes (by simp [operands])).operand
      have hno := (ih no (by simp [operands])).operand
      refine SuffixedText.fitText ?_
      simpa [text, tree, chooseText] using
        SuffixedText.choose hcond.castText hyes.castText hno.castText

/-- The text of an expression has the shape of its tree and no other, if all functions and globals
that it mentions have names. -/
def ReadsAsBuilt (n : Naming) (e : Expr) : Prop :=
  (∀ x ∈ e.mentions, isName (x.symbol n.symbols) = true) → ∀ t, Parses (e.text n) t ↔ t = e.tree n

end Expr

/-! ## Symbols -/

/-- What an expression mentions has an identifier. -/
lemma isIdentifier_of_mem_mentions (m : Module) (o : Options) {x : Entity} (hx : x ∈ e.mentions) :
    isIdentifier (x.symbol (Symbols.ofModule m o)) = true := by
  obtain ⟨part, -, hx⟩ := mem_flatMap.mp hx
  cases part with
  | global i =>
    rw [mem_singleton.mp hx]
    exact (Symbols.allotted_ofModule m o).isIdentifier_global i
  | call f args =>
    rw [mem_singleton.mp hx]
    exact (Symbols.allotted_ofModule m o).isIdentifier_function f
  | _ => cases hx

/-- What is built reads as it was built. -/
lemma Expr.Built.readsAsBuilt (h : e.Built) (m : Module) (o : Options) (params : Nat) :
    e.ReadsAsBuilt ⟨Symbols.ofModule m o, params⟩ := by
  intro hnames
  have hfit := h.fitText (n := ⟨Symbols.ofModule m o, params⟩) fun x hx =>
    ⟨isIdentifier_of_mem_mentions m o hx, hnames x hx⟩
  exact hfit.castText.parses_iff

lemma Line.Built.shown {line : Line} (h : line.Built) : ∀ e ∈ line.shown, e.Built := by
  unfold Line.shown
  split
  · exact forall_mem_singleton.mpr ⟨h.operands, h.exprs⟩
  · exact h.exprs

end C

open C

/-- **The texts of expressions read as they were built.** Let a body be read up to any point, in
any surroundings, and let names come from any module and options. The text of every expression that
waits there, and of every expression in a line that has been written or that the end of the body
adds, is an expression by the grammar of C, and its tree is the one that the expression was built
as, provided that the symbols of the functions and globals in it are neither keywords nor names of
types.

**Proof sketch.** Every expression along the run is built of fitting parts (`allBuilt_of_run`), and
reading inverts the spelling of each form. -/
theorem texts_read_as_built {env : Surroundings} {code : List Instruction} {r : Rebuild}
    (hrun : (Rebuild.run env code {}).outcome = .ok r) (m : Module) (o : Options)
    (params : Nat) :
    (∀ v ∈ r.pendings, v.expr.ReadsAsBuilt ⟨Symbols.ofModule m o, params⟩) ∧
      (∀ line ∈ r.lines, ∀ e ∈ line.shown, e.ReadsAsBuilt ⟨Symbols.ofModule m o, params⟩) ∧
      ∀ r1, r.finish env = .ok r1 → ∀ line ∈ r1.lines, ∀ e ∈ line.shown,
        e.ReadsAsBuilt ⟨Symbols.ofModule m o, params⟩ := by
  have hbuilt := Rebuild.allBuilt_of_run hrun
  refine ⟨fun v hv => (hbuilt.pendings v hv).readsAsBuilt m o params,
    fun line hline e he => ((hbuilt.lines line hline).shown e he).readsAsBuilt m o params,
    fun r1 hfinish line hline e he => ?_⟩
  obtain ⟨-, hfinishes⟩ := Rebuild.finishes_of_finish hfinish
  exact (((hbuilt.finishes hfinishes).lines line hline).shown e he).readsAsBuilt m o params

/-- A negative number is subtracted from the result of a call. -/
def subtractsFromCall : List Instruction :=
  [⟨.getLocal, .index 0⟩, ⟨.call, .index 0⟩, ⟨.const .i32, .value (.i32 (-5))⟩,
    ⟨.numeric .i32Sub, .none⟩]

/-- The difference waits, and its text has a cast around two others and a sign inside. -/
theorem texts_read_as_built_subtractsFromCall : ∃ (n : Naming) (r : Rebuild) (v : Pending),
      n.symbols = Symbols.ofModule callsItself.inModule {} ∧
      (Rebuild.run callsItself subtractsFromCall {}).outcome = .ok r ∧ v ∈ r.pendings ∧
      v.expr.text n = "(int32_t)((uint32_t)Wasm_Module_F0(p0) - (uint32_t)(-5))" ∧
      (∀ x ∈ v.expr.mentions, isName (x.symbol n.symbols) = true) ∧
      ∀ t, Parses (v.expr.text n) t ↔ t = v.expr.tree n := by
  have hread := texts_read_as_built
    (show (Rebuild.run callsItself subtractsFromCall {}).outcome = _ from rfl)
    callsItself.inModule {} 1
  refine ⟨_, _, _, rfl, rfl, mem_cons_self, ?_, ?_, hread.1 _ mem_cons_self ?_⟩
  · decide +kernel
  · decide +kernel
  · decide +kernel

/-! ## Symbols that are no names -/

/-- The name of a type is no expression. -/
lemma not_parses_typeName (hw : isTypeName w = true) (t : Tree) : ¬ Parses w t := by
  rintro ⟨ts, hts, hd⟩
  have hcut : Cut (w.toList ++ []) [.word w] [] := cut_word (isIdentifier_of_isTypeName hw) rfl
  rw [Cut, append_nil, hts] at hcut
  obtain ⟨x, us, rfl, hx⟩ := hd.starts
  obtain ⟨rfl, -⟩ : x = .word w ∧ us = [] := by simpa [lex?] using hcut
  simp [Lexeme.starts, hw] at hx

/-- A function that reads a global, which is the import `t` of `int32`. -/
def readsImport : Surroundings where
  inModule :=
    { types := [⟨[], some .i32⟩], signatures := [0], importedGlobals := 1,
      imports := [⟨"int32", "t", .global ⟨.i32, false⟩⟩] }
  index := 0
  type := ⟨[], some .i32⟩
  locals := []

/-- **A global can get the name of a type**, and then there is no tree for it. -/
theorem type_name_for_global : ∃ (r : Rebuild) (v : Pending),
      (Rebuild.run readsImport [⟨.getGlobal, .index 0⟩] {}).outcome = .ok r ∧ v ∈ r.pendings ∧
      v.expr.text ⟨Symbols.ofModule readsImport.inModule {}, 0⟩ = "int32_t" ∧
      ¬ ∀ t, Parses (v.expr.text ⟨Symbols.ofModule readsImport.inModule {}, 0⟩) t ↔
        t = v.expr.tree ⟨Symbols.ofModule readsImport.inModule {}, 0⟩ := by
  have htext : (Expr.global 0).text ⟨Symbols.ofModule readsImport.inModule {}, 0⟩ = "int32_t" := by
    decide +kernel
  refine ⟨_, Pending.global 0 .i32, rfl, mem_cons_self, htext, fun h => ?_⟩
  have hparses := (h _).mpr rfl
  exact not_parses_typeName (w := "int32_t") rfl _ (htext ▸ hparses)

end WasmToC

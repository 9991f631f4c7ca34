import WasmToC.Proofs.Words
import WasmToC.Unit.Initializer

/-!
# The words of functions

The words of an expression, statement, function or initializer are common ones, and the names of
its variables and of what it mentions.

## Main definitions

* `C.FunctionDef.mentions`, `C.InitStep.mentions` — what a function definition and a
  step of the initializer mention.
* `C.Expr.Allowed` — an expression whose own name may be used.

## Main results

* `C.Expr.spelled_text`, `C.Stmt.spelled_allLines` — expressions and
  statements.
* `C.FunctionDef.spelled_lines`, `C.spelled_initializerLines` — the functions of a
  unit.
-/

namespace WasmToC.C

open List String Spelled InitStep Text

variable {P : String → Prop} {c : Char} {s : Symbols}

/-! ## Numerals and names -/

/-- An identifier has word characters only. -/
lemma isWordChar_of_mem_identifier {text : String} (htext : isIdentifier text = true)
    (hc : c ∈ text.toList) : isWordChar c = true := by
  unfold isIdentifier at htext
  split at htext
  · cases htext
  · rename_i first rest hlist
    obtain ⟨hf, hr⟩ := Bool.and_eq_true_iff.mp htext
    rw [hlist] at hc
    rcases mem_cons.mp hc with rfl | hc
    · rcases Bool.or_eq_true_iff.mp hf with hf | hf
      · simp [isWordChar, Char.isAlphanum, hf]
      · simp [isWordChar, hf]
    · exact all_eq_true.mp hr c hc

/-- A numeral is not spelled like a variable. -/
lemma common_numeral {w : String} (h : w.toList.head?.any Char.isDigit = true) : Common w := by
  refine ⟨.numeral h, ?_⟩
  cases hw : w.toList with
  | nil => rfl
  | cons c digits =>
    have hc : c.isDigit = true := by simpa [hw] using h
    have hne (d : Char) (hd : d.isDigit = false) : (c = d) = False := by
      refine eq_false ?_
      rintro rfl
      simp [hc] at hd
    simp [isVariable, hne 'p' rfl, hne 'l' rfl, hne 't' rfl]

namespace Spelled

variable {text : String}

/-- A numeral starts with a digit. -/
lemma numeral (hw : ∀ c ∈ text.toList, isWordChar c = true)
    (hdigit : text.toList.head?.any Char.isDigit = true) : Spelled P text :=
  word hw (.inl (common_numeral hdigit))

/-- The digits of a number, perhaps with a suffix. -/
lemma digits {n : Nat} {rest : List Char} (htext : text.toList = Nat.toDigits 10 n ++ rest)
    (hr : rest.all isWordChar = true) : Spelled P text := by
  refine numeral (fun c hc => ?_) ?_
  · rw [htext] at hc
    exact (mem_append.mp hc).elim isWordChar_of_mem_toDigits (all_eq_true.mp hr c)
  · rw [htext]
    cases hdigits : Nat.toDigits 10 n with
    | nil => exact absurd hdigits Nat.toDigits_ne_nil
    | cons c cs =>
      exact Nat.isDigit_of_mem_toDigits (by decide) (by decide) (hdigits ▸ mem_cons_self)

/-- An unsigned number. -/
lemma unsigned (n : Nat) : Spelled P s!"{n}u" :=
  digits (n := n) (by simp [toString, Nat.toList_repr]; rfl) rfl

/-- A letter and a number. -/
lemma numbered {n : Nat} (htext : text.toList = c :: Nat.toDigits 10 n) (hc : isWordChar c = true)
    (h : Common text ∨ P text) : Spelled P text := by
  refine word (fun d hd => ?_) h
  rw [htext] at hd
  rcases mem_cons.mp hd with rfl | hd
  · exact hc
  · exact isWordChar_of_mem_toDigits hd

/-- A local. -/
lemma localName {params i : Nat} (h : P (localName params i)) :
    Spelled P (C.localName params i) := by
  refine numbered (toList_localName params i) ?_ (.inr h)
  split <;> rfl

/-- A temporary. -/
lemma tempName {i : Nat} (h : P (tempName i)) : Spelled P (C.tempName i) :=
  numbered (toList_tempName i) rfl (.inr h)

/-- A label, which is always allowed. -/
lemma labelName (l : Nat) : Spelled P (labelName l) :=
  numbered (toList_labelName l) rfl (.inl ⟨.label l, by rw [toList_labelName]; rfl⟩)

/-- An identifier. -/
lemma identifier (htext : isIdentifier text = true) (h : P text) : Spelled P text :=
  word (fun _ hc => isWordChar_of_mem_identifier htext hc) (.inr h)

/-- A call. -/
lemma call {args : List String} (hname : Spelled P text)
    (ha : ∀ arg ∈ args, Spelled P arg) : Spelled P (callText text args) :=
  (between hname rfl (commas ha)).before rfl

/-- The support function that does what an opcode's name says. -/
lemma support {cs : List Char} (hcs : cs.all (fun c => isWordChar c || c = '.') = true)
    (h : Ordinary (supportName (String.ofList cs))) :
    Spelled P (supportName (String.ofList cs)) := by
  have hlead : ("wasm_rt_".toList.all isWordChar) = true := by decide +kernel
  refine word (fun c hc => ?_) (.inl ⟨h, by rw [supportName, toList_append]; rfl⟩)
  simp only [supportName, toList_append, toList_ofList] at hc
  rcases mem_append.mp hc with hc | hc
  · exact all_eq_true.mp hlead c hc
  · obtain ⟨d, hd, rfl⟩ := mem_map.mp hc
    have hword := all_eq_true.mp hcs d hd
    split
    · rfl
    · simpa [*] using hword

/-- An assignment. -/
lemma assign {place value : String} (hplace : Spelled P place)
    (hvalue : Spelled P value) : Spelled P (assignText place value) :=
  (between hplace rfl hvalue).before rfl

/-- A choice. -/
lemma choose {cond yes no : String} (hcond : Spelled P cond)
    (hyes : Spelled P yes) (hno : Spelled P no) :
    Spelled P (chooseText cond yes no) :=
  (between (between (hcond.operand.behind rfl) rfl hyes.operand) rfl hno.operand).before rfl

/-- A jump. -/
lemma jump (label : Nat) : Spelled P (jumpText label) :=
  ((lead (fixed (by rfl)) rfl (labelName label))).before rfl

/-- A line that is indented. -/
lemma indented {line : String} (d : Nat) (h : Spelled P line) : Spelled P (indented d line) :=
  behind (by simp [isGap, isWordChar]) h

end Spelled

/-! ## Expressions -/

/-- A type. -/
lemma spelled_cType (t : ValueType) : Spelled P t.cType := by
  cases t with
  | i32 | i64 | f32 | f64 => exact .fixed (by rfl)

/-- The zero of a type. -/
lemma spelled_cZero (t : ValueType) : Spelled P t.cZero := by
  have hzero : Common "0" := common_numeral (by decide)
  have hfloat : Common "0f" := common_numeral (by decide)
  cases t with
  | i32 | i64 => exact .ofWords ["0"] rfl (by simpa using hzero)
  | f32 => exact .ofWords ["0", "0f"] rfl (by simpa using ⟨hzero, hfloat⟩)
  | f64 => exact .ofWords ["0", "0"] rfl (by simpa using hzero)

/-- A whole number, perhaps with a sign. -/
lemma spelled_int (k : Int) : Spelled P (toString k) := by
  cases k with
  | ofNat k => exact .digits (n := k) (by simp [toString, Int.repr, Nat.toList_repr]; rfl) rfl
  | negSucc k => exact .behind rfl (.digits (n := k + 1) (by simp [Nat.toList_repr]; rfl) rfl)

/-- A hexadecimal digit depends on the last four bits. -/
lemma hexDigit_mod (k : Nat) : hexDigit k = hexDigit (k % 16) := by
  simp [hexDigit]

/-- Hexadecimal digits belong to words. -/
lemma isWordChar_hexDigit (k : Nat) : isWordChar (hexDigit k) = true := by
  have h : ∀ d < 16, isWordChar (hexDigit d) = true := by decide
  rw [hexDigit_mod]
  exact h _ (Nat.mod_lt _ (by decide))

/-- So do the digits of a number. -/
lemma isWordChar_of_mem_hexDigits {width k : Nat} (h : c ∈ hexDigits width k) :
    isWordChar c = true := by
  induction width generalizing k with
  | zero => cases h
  | succ width ih =>
    rcases mem_append.mp h with h | h
    · exact ih h
    · rw [mem_singleton.mp h]
      exact isWordChar_hexDigit k

/-- A hexadecimal number, with its suffix. -/
lemma toList_hex (width k : Nat) (rest : String) : ("0x" ++ hexFixed width k ++ rest).toList =
      '0' :: 'x' :: (hexDigits width k ++ rest.toList) := by
  simp [toList_append, hexFixed]

/-- A bit pattern. -/
lemma spelled_hex (width k : Nat) {rest : String} (hr : rest.toList.all isWordChar = true) :
    Spelled P ("0x" ++ hexFixed width k ++ rest) := by
  have hlist := toList_hex width k rest
  generalize "0x" ++ hexFixed width k ++ rest = text at hlist ⊢
  refine .numeral (fun c hc => ?_) (by rw [hlist]; rfl)
  simp only [hlist, mem_cons, mem_append] at hc
  rcases hc with rfl | rfl | hc | hc
  · rfl
  · rfl
  · exact isWordChar_of_mem_hexDigits hc
  · exact all_eq_true.mp hr c hc

/-- A call with one argument. -/
lemma toList_callText (name arg : String) :
    (callText name [arg]).toList = name.toList ++ '(' :: (arg.toList ++ [')']) := by
  simp [callText]

/-- The least number has no literal of its own. -/
lemma literal_i64 (v : Int64) : literal (.i64 v) =
    if v = Int64.minValue then "INT64_MIN" else callText "INT64_C" [toString v.toInt] := by
  have hcall : "INT64_C(" ++ toString v.toInt ++ ")" = callText "INT64_C" [toString v.toInt] := by
    rw [← toList_inj]
    simp [toList_callText]
  rw [← hcall]
  rfl

/-- A float is given by its bits. -/
lemma literal_f32 (bits : UInt32) : literal (.f32 bits) =
    callText "wasm_rt_f32_bits" ["0x" ++ hexFixed 8 bits.toNat ++ "u"] := by
  show "wasm_rt_f32_bits(0x" ++ hexFixed 8 bits.toNat ++ "u)" = _
  rw [← toList_inj]
  simp [toList_callText]

/-- A double is given by its bits. -/
lemma literal_f64 (bits : UInt64) : literal (.f64 bits) =
    callText "wasm_rt_f64_bits" [callText "UINT64_C" ["0x" ++ hexFixed 16 bits.toNat]] := by
  show "wasm_rt_f64_bits(UINT64_C(0x" ++ hexFixed 16 bits.toNat ++ "))" = _
  rw [← toList_inj]
  simp [toList_callText]

/-- A constant. -/
lemma spelled_literal (v : Value) : Spelled P (literal v) := by
  cases v with
  | i32 v =>
    show Spelled P (if v = Int32.minValue then "INT32_MIN" else toString v.toInt)
    split
    · exact .fixed (by rfl)
    · exact spelled_int v.toInt
  | i64 v =>
    rw [literal_i64]
    split
    · exact .fixed (by rfl)
    · exact call (fixed (by rfl)) (by simpa using spelled_int v.toInt)
  | f32 bits =>
    have hbits : Spelled P ("0x" ++ hexFixed 8 bits.toNat ++ "u") :=
      spelled_hex _ _ (by decide)
    rw [literal_f32]
    exact call (fixed (by rfl)) (by simpa using hbits)
  | f64 bits =>
    have hbits : Spelled P ("0x" ++ hexFixed 16 bits.toNat ++ "") :=
      spelled_hex _ _ (by decide)
    rw [literal_f64]
    refine call (fixed (by rfl)) (forall_mem_singleton.mpr ?_)
    exact call (fixed (by rfl)) (by simpa using hbits)

/-- The support function of a load. -/
lemma spelled_load (op : Load) : Spelled P (supportName op.name) := by
  have h := Ordinary.load op
  cases op <;> exact .support rfl h

/-- The support function of a store. -/
lemma spelled_store (op : Store) : Spelled P (supportName op.name) := by
  have h := Ordinary.store op
  cases op <;> exact .support rfl h

namespace Expr

variable {n : Naming}

/-- Expressions are spelled as each of them is. -/
lemma forall_mem_texts {args : List Expr} (h : ∀ a ∈ args, Spelled P (a.text n)) :
    ∀ text ∈ texts n args, Spelled P text := by
  rw [texts_eq_map]
  exact forall_mem_map.mpr h

/-- Whether the name in an expression itself, apart from its operands, may be used. -/
def Allowed (P : String → Prop) (n : Naming) : Expr → Prop
  | .var i => P (localName n.params i)
  | .temp i => P (tempName i)
  | .global i => Spelled P (n.symbols.global i)
  | .call f _ => Spelled P (n.symbols.function f)
  | _ => True

/-- **The words of an expression** are common ones, or names in it. -/
theorem spelled_text (e : Expr) (h : ∀ part ∈ e.parts, part.Allowed P n) :
    Spelled P (e.text n) := by
  induction e using Expr.induct with
  | const v => exact spelled_literal v
  | zero t => exact spelled_cZero t
  | var i => exact .localName (forall_parts.mp h).1
  | temp i => exact .tempName (forall_parts.mp h).1
  | global i => exact (forall_parts.mp h).1
  | memorySize => exact .fixed (by rfl)
  | memoryGrow delta ih =>
    have hdelta := ih ((forall_parts.mp h).2 delta (by simp [operands]))
    exact .call (.fixed (by rfl)) (by simpa using hdelta)
  | load op addr off ih =>
    have haddress := ih ((forall_parts.mp h).2 addr (by simp [operands]))
    exact .call (spelled_load op)
      (forall_mem_cons.mpr ⟨haddress, forall_mem_singleton.mpr (.unsigned off)⟩)
  | call f args ih =>
    obtain ⟨hf, hargs⟩ := forall_parts.mp h
    exact .call hf (forall_mem_texts fun a ha => ih a ha (hargs a ha))
  | numeric op args ih =>
    exact .numeric op (forall_mem_texts fun a ha => ih a ha ((forall_parts.mp h).2 a ha))
  | choose cond yes no ihcondition ihyes ihno =>
    have hoperands := (forall_parts.mp h).2
    exact .choose (ihcondition (hoperands cond (by simp [operands])))
      (ihyes (hoperands yes (by simp [operands]))) (ihno (hoperands no (by simp [operands])))

/-- Expressions with parts that are allowed. -/
lemma spelled_texts (args : List Expr) (h : ∀ a ∈ args, ∀ part ∈ a.parts, part.Allowed P n) :
    ∀ text ∈ texts n args, Spelled P text :=
  forall_mem_texts fun a ha => a.spelled_text (h a ha)

end Expr

/-! ## Statements -/

section Statements

variable {n : Naming}

/-- A statement under a condition. -/
lemma spelled_if {cond text : String} (hcond : Spelled P cond)
    (htext : Spelled P text) : Spelled P ("if (" ++ cond ++ ") " ++ text) :=
  .between ((fixed (by rfl)).lead rfl hcond) rfl htext

/-- A place that is assigned. -/
lemma spelled_place (place : Place) (h : ∀ part ∈ place.expr.parts, part.Allowed P n) :
    Spelled P (place.text n) := by
  have hexpr := place.expr.spelled_text h
  cases place <;> exact hexpr

/-- A return. -/
lemma spelled_leaveText (value : Option Expr)
    (h : ∀ e ∈ value.toList, ∀ part ∈ e.parts, part.Allowed P n) :
    Spelled P (leaveText n value) := by
  cases value with
  | none => exact .fixed (by rfl)
  | some e =>
    exact ((fixed (by rfl)).lead rfl (e.spelled_text (h e mem_cons_self))).before rfl

/-- The line of a label. -/
lemma spelled_labelLines (d : Nat) (label : Option Nat) :
    ∀ line ∈ labelLines d label, Spelled P line := by
  cases label with
  | none => simp [labelLines]
  | some l => simpa [labelLines] using ((Spelled.labelName l).before rfl).indented d

/-- The line that opens an `if`. -/
lemma spelled_ifLine (d : Nat) (cond : Expr)
    (h : ∀ part ∈ cond.parts, part.Allowed P n) : Spelled P (ifLine n d cond) :=
  (((fixed (by rfl)).lead rfl (cond.spelled_text h)).before rfl).indented d

/-- The code of a trap. -/
lemma spelled_trapCode (code : TrapCode) : Spelled P code.text := by
  cases code with
  | unreachable => exact .fixed (by rfl)
  | indirectCall => exact .fixed (by rfl)

/-- The words of a statement of one line. -/
lemma spelled_run (s : Stmt) (d : Nat) (hs : s.flatten = [.run s])
    (h : ∀ part ∈ (Line.run s).parts, part.Allowed P n) :
    ∀ line ∈ s.lines n d, Spelled P line := by
  rw [Line.parts, forall_mem_flatMap, forall_mem_append] at h
  obtain ⟨hsubjects, hexprs⟩ := h
  cases s with
  | block | loop | onlyIf | ifElse => simp [Stmt.flatten] at hs
  | assign place value =>
    rw [Stmt.lines, forall_mem_singleton]
    exact (assign (spelled_place place (hsubjects _ mem_cons_self))
      (value.spelled_text (hexprs value mem_cons_self))).indented d
  | discard value =>
    rw [Stmt.lines, forall_mem_singleton]
    exact (((fixed (by rfl)).lead rfl
      (value.spelled_text (hexprs value mem_cons_self)).operand).before rfl).indented d
  | call f args =>
    have hf := (Expr.forall_parts.mp (hsubjects _ mem_cons_self)).1
    rw [Stmt.lines, forall_mem_singleton]
    exact ((call hf (Expr.spelled_texts args hexprs)).before rfl).indented d
  | store op addr off value =>
    obtain ⟨haddress, hr⟩ := forall_mem_cons.mp hexprs
    have hvalue := forall_mem_singleton.mp hr
    rw [Stmt.lines, forall_mem_singleton]
    refine ((call (spelled_store op) ?_).before rfl).indented d
    simp only [forall_mem_cons]
    exact ⟨addr.spelled_text haddress, .unsigned off, value.spelled_text hvalue, by simp⟩
  | trap code =>
    rw [Stmt.lines, forall_mem_singleton]
    exact ((call (.fixed (by rfl))
      (forall_mem_singleton.mpr (spelled_trapCode code))).before rfl).indented d
  | jump label =>
    rw [Stmt.lines, forall_mem_singleton]
    exact (jump label).indented d
  | jumpIf cond carried label =>
    have hif {action : String} (haction : Spelled P action) :=
      (spelled_if (cond.spelled_text (hexprs _ mem_cons_self)) haction).indented d
    rcases carried with _ | ⟨t, value⟩
    · rw [Stmt.lines, forall_mem_singleton]
      exact hif (.jump label)
    · have ht := (Expr.forall_parts.mp (hsubjects _ mem_cons_self)).1
      have hvalue := value.spelled_text (hexprs _ (mem_cons_of_mem _ mem_cons_self))
      rw [Stmt.lines, forall_mem_singleton]
      exact hif ((between ((assign (.tempName ht) hvalue).behind rfl) rfl (.jump label)).before rfl)
  | leave value =>
    rw [Stmt.lines, forall_mem_singleton]
    exact (spelled_leaveText value hexprs).indented d
  | leaveIf cond value =>
    obtain ⟨hcond, hvalue⟩ := forall_mem_cons.mp hexprs
    rw [Stmt.lines, forall_mem_singleton]
    exact (spelled_if (cond.spelled_text hcond) (spelled_leaveText value hvalue)).indented d

/-- The words of lines are common ones, or names in them. -/
lemma spelled_layout (d : Nat) {ls : List Line}
    (hruns : ∀ s, Line.run s ∈ ls → s.flatten = [.run s])
    (h : ∀ l ∈ ls, ∀ part ∈ l.parts, part.Allowed P n) :
    ∀ line ∈ layout n d ls, Spelled P line := by
  induction ls generalizing d with
  | nil => simp [layout]
  | cons l ls ih =>
    obtain ⟨hl, hls⟩ := forall_mem_cons.mp h
    have hrest := fun d => ih d (fun s hs => hruns s (mem_cons_of_mem l hs)) hls
    cases l with
    | label l =>
      exact forall_mem_cons.mpr ⟨spelled_labelLines d (some l) _ mem_cons_self, hrest _⟩
    | openBlock | close => exact forall_mem_cons.mpr ⟨.indented _ (.gap rfl), hrest _⟩
    | openElse =>
      exact forall_mem_cons.mpr ⟨.indented _ (.fixed (by rfl)), hrest _⟩
    | openIf cond =>
      have hcond := forall_mem_flatMap.mp hl cond mem_cons_self
      exact forall_mem_cons.mpr ⟨spelled_ifLine d cond hcond, hrest _⟩
    | run s =>
      rw [layout, runLines_eq]
      exact forall_mem_append.mpr ⟨spelled_run s d (hruns s mem_cons_self) hl, hrest _⟩

/-- **The words of statements** are common ones, or names in their lines. -/
theorem Stmt.spelled_allLines (d : Nat) (ss : List Stmt)
    (h : ∀ line ∈ Stmt.flattenAll ss, ∀ part ∈ line.parts, part.Allowed P n) :
    ∀ line ∈ Stmt.allLines n d ss, Spelled P line := by
  rw [← layout_body]
  exact spelled_layout d (fun s hs => (nested_flattenAll ss).flatten_of_mem hs) h

end Statements

/-! ## Function definitions -/

/-- What is mentioned has symbols that may be used. -/
def Allows (P : String → Prop) (s : Symbols) (mentioned : List Entity) : Prop :=
  ∀ x ∈ mentioned, Spelled P (x.symbol s)

/-- What is allowed, one part after another. -/
@[simp] lemma allows_append {xs ys : List Entity} :
    Allows P s (xs ++ ys) ↔ Allows P s xs ∧ Allows P s ys :=
  forall_mem_append

/-- What is allowed, one entity after another. -/
@[simp] lemma allows_cons {x : Entity} {xs : List Entity} :
    Allows P s (x :: xs) ↔ Spelled P (x.symbol s) ∧ Allows P s xs :=
  forall_mem_cons

/-- What a function definition mentions: itself, and what its body does. -/
def FunctionDef.mentions (f : FunctionDef) : List Entity :=
  .function f.index :: Stmt.mentions f.body

/-- A declaration that is perhaps `static`. -/
lemma spelled_storage (isExported : Bool) {text : String} (htext : Spelled P text) :
    Spelled P (storage isExported ++ text) := by
  cases isExported with
  | true => simpa [storage] using htext
  | false => exact (fixed (by rfl)).lead rfl htext

/-- The declaration of a variable. -/
lemma spelled_declaration (t : ValueType) {name : String} (hname : Spelled P name) :
    Spelled P (FunctionDef.declaration t name) :=
  (between (spelled_cType t) rfl (.assign hname (spelled_cZero t))).indented 1

section Definitions

variable (hlocal : ∀ params i, P (localName params i))
include hlocal

/-- A parameter. -/
lemma spelled_param (i : Nat) (t : ValueType) : Spelled P (t.cType ++ s!" p{i}") := by
  have hsplit : t.cType ++ s!" p{i}" = t.cType ++ " " ++ localName (i + 1) i := by
    rw [← toList_inj, toList_append, toList_append, toList_append,
      toList_localName, if_pos (Nat.lt_succ_self i)]
    simp [toString, Nat.toList_repr]
  rw [hsplit]
  exact .between (spelled_cType t) rfl (.localName (hlocal _ _))

/-- A signature. -/
lemma spelled_signature {name : String} (hname : Spelled P name) (t : FuncType)
    (named : Bool) : Spelled P (signature name t named) := by
  have hvoid : Spelled P "void" := .fixed (by rfl)
  have hres : Spelled P ((t.result.map ValueType.cType).getD "void") := by
    cases t.result with
    | none => exact hvoid
    | some r => exact spelled_cType r
  refine (between (.between hres rfl hname) rfl ?_).before rfl
  split
  · exact hvoid
  · refine .commas fun text htext => ?_
    obtain ⟨i, hi, rfl⟩ := mem_mapIdx.mp htext
    split
    · exact spelled_param hlocal i _
    · exact spelled_cType _

/-- The head of a function. -/
lemma spelled_head {index : Nat} (h : Spelled P (s.function index)) (isExported : Bool)
    (t : FuncType) : Spelled P (FunctionDef.head s index isExported t) :=
  spelled_storage isExported (spelled_signature hlocal h t true)

/-- **The words of a function definition** are ordinary, or symbols of what it mentions. -/
theorem FunctionDef.spelled_lines (htemp : ∀ i, P (tempName i)) (f : FunctionDef)
    (h : Allows P s f.mentions) : ∀ line ∈ f.lines s, Spelled P line := by
  obtain ⟨hf, hbody⟩ := allows_cons.mp h
  simp only [FunctionDef.lines, cons_append, forall_mem_cons, forall_mem_append]
  refine ⟨(spelled_head hlocal hf f.isExported f.type).before rfl,
    ⟨⟨?_, ?_⟩, ?_⟩, .gap rfl, by simp⟩
  · intro line hl
    obtain ⟨i, hi, rfl⟩ := mem_mapIdx.mp hl
    exact spelled_declaration _ (.localName (hlocal _ _))
  · intro line hl
    obtain ⟨i, hi, rfl⟩ := mem_mapIdx.mp hl
    exact spelled_declaration _ (.tempName (htemp _))
  · refine Stmt.spelled_allLines 1 f.body fun line hl part hpart => ?_
    have hnamed : ∀ x ∈ part.named, Spelled P (x.symbol s) := fun x hx =>
      hbody x (mem_flatMap_of_mem hl (Line.mem_mentions.mpr ⟨part, hpart, hx⟩))
    cases part with
    | var i => exact hlocal _ i
    | temp i => exact htemp i
    | global i => exact hnamed (.global i) mem_cons_self
    | call g => exact hnamed (.function g) mem_cons_self
    | _ => trivial

end Definitions

/-! ## The initializer -/

/-- What an initializer mentions. -/
def InitExpr.mentions : InitExpr → List Entity
  | .global i => [.global i]
  | .const _ => []

/-- What a step of the initializer mentions. -/
def InitStep.mentions : InitStep → List Entity
  | .memory .. => []
  | .memoryBase g => [.global g]
  | .setGlobal i value => .global i :: value.mentions
  | .fillTable table off functions =>
    .table table :: (off.mentions ++ functions.map .function)
  | .call f => [.function f]

/-- A constant expression. -/
lemma spelled_initExpr (e : InitExpr) (h : Allows P s e.mentions) : Spelled P (e.text s) := by
  cases e with
  | global i => exact h (.global i) (by simp [InitExpr.mentions])
  | const v => exact spelled_literal v

/-- The words of a step of the initializer. -/
lemma InitStep.spelled_lines (step : InitStep) (h : Allows P s step.mentions) :
    ∀ line ∈ step.lines s, Spelled P line := by
  have hcast {text : String} (htext : Spelled P text) : Spelled P ("(uint32_t)" ++ text) :=
    (Spelled.fixed (by rfl)).lead rfl htext
  cases step with
  | memory initial maximum =>
    have hsplit : s!"wasm_rt_memory_init({initial}u, {maximum}u);" =
        callText "wasm_rt_memory_init" [s!"{initial}u", s!"{maximum}u"] ++ ";" := by
      rw [← toList_inj]
      simp [callText, toList_append, toString]
    rw [lines, forall_mem_singleton, hsplit]
    refine (Spelled.call (.fixed (by rfl)) ?_).before rfl
    exact forall_mem_cons.mpr ⟨.unsigned initial, forall_mem_singleton.mpr (.unsigned maximum)⟩
  | memoryBase g =>
    rw [lines, forall_mem_singleton]
    exact ((Spelled.fixed (by rfl)).lead rfl (h (.global g) (by simp [mentions]))).before rfl
  | setGlobal i value =>
    obtain ⟨hi, hvalue⟩ := allows_cons.mp h
    rw [lines, forall_mem_singleton]
    exact .assign hi (spelled_initExpr value hvalue)
  | fillTable table off functions =>
    rw [mentions, allows_cons, allows_append] at h
    obtain ⟨htable, hoffset, hfs⟩ := h
    simp only [lines, forall_mem_cons]
    refine ⟨.gap rfl, ?_, ?_, .gap rfl, by simp⟩
    · refine ((Spelled.fixed (by rfl)).lead rfl (.commas fun text htext => ?_)).before rfl
      obtain ⟨f, hf, rfl⟩ := mem_map.mp htext
      exact (Spelled.fixed (by rfl)).lead rfl (hfs (.function f) (mem_map_of_mem hf))
    · refine ((Spelled.call (.fixed (by rfl)) ?_).behind
        rfl).before rfl
      simp only [forall_mem_cons]
      exact ⟨htable.behind rfl, hcast (spelled_initExpr off hoffset),
        .fixed (by rfl), .unsigned _, by simp⟩
  | call f =>
    rw [lines, forall_mem_singleton]
    exact (Spelled.call (h (.function f) (by simp [mentions])) (by simp)).before rfl

/-- **The words of the initializer** are ordinary, its own name, or symbols of what its steps
mention. -/
theorem spelled_initializerLines {steps : List InitStep} (hname : Spelled P s.initializer)
    (h : Allows P s (steps.flatMap mentions)) :
    ∀ line ∈ initializerLines s steps, Spelled P line := by
  simp only [initializerLines, cons_append, forall_mem_cons, forall_mem_append]
  have hlead : Spelled P ("void " ++ s.initializer) :=
    (fixed (by rfl)).lead rfl hname
  refine ⟨hlead.append (.fixed (by rfl)) (.inr (by decide)), ?_, .gap rfl, by simp⟩
  intro line hl
  obtain ⟨text, htext, rfl⟩ := mem_map.mp hl
  obtain ⟨step, hstep, htext⟩ := mem_flatMap.mp htext
  have hallows : Allows P s step.mentions :=
    fun x hx => h x (mem_flatMap.mpr ⟨step, hstep, hx⟩)
  exact (step.spelled_lines hallows text htext).indented 1

end WasmToC.C

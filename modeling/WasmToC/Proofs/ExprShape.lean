import WasmToC.Proofs.Lexing
import WasmToC.Proofs.Spellings

/-!
# The shape of an expression

An expression is built as a tree, and its text is to be read as the same tree. The tree of a
numeric instruction is given by a form, which is its template with the operators, casts and calls
told apart from the characters; a form that is spelled out is the template.

## Main definitions

* `C.Form` — a template as a tree.
* `Numeric.form` — the form of each numeric instruction.
* `C.Expr.tree` — the tree that an expression is built as.

## Main results

* `C.Form.fitText` — a form that is filled has the shape of the form.
-/

namespace WasmToC

open List C.Template

namespace C

/-! ## Forms -/

/-- A template as a tree. -/
inductive Form where
  /-- The operand at a position. -/
  | operand (pos : Nat)
  /-- A number. -/
  | number (x : String)
  /-- A cast. -/
  | cast (type : String) (inner : Form)
  /-- A binary operator in parentheses. -/
  | binary (op : Punct) (left right : Form)
  /-- A sign in parentheses. -/
  | negate (pos : Nat)
  /-- A call with some of the operands. -/
  | call (name : String) (positions : List Nat)
  deriving Repr

namespace Form

/-- The tree of a form, over the trees of the operands. -/
def tree (operands : List Tree) : Form → Tree
  | operand i => operands.getD i (.name "")
  | number x => .number x
  | cast w inner => .cast w (inner.tree operands)
  | binary p left right => .binary p (left.tree operands) (right.tree operands)
  | negate i => .before .minus (operands.getD i (.name ""))
  | call w is => .call (.name w) (is.map fun i => operands.getD i (.name ""))

/-- The pieces of a text. -/
def pieces (text : List Char) : Template := text.map .char

/-- A form, spelled out. -/
def template : Form → Template
  | operand i => [.hole i]
  | number x => pieces x.toList
  | cast w inner => .char '(' :: (pieces w.toList ++ .char ')' :: inner.template)
  | binary p left right =>
    .char '(' :: (left.template ++ .char ' ' ::
      (pieces p.spelling ++ .char ' ' :: right.template) ++ [.char ')'])
  | negate i => [.char '(', .char '-', .hole i, .char ')']
  | call w is =>
    pieces w.toList ++ .char '(' ::
      (List.intercalate [.char ',', .char ' '] (is.map fun i => [.hole i]) ++ [.char ')'])

/-- Whether a form is made of what the grammar knows, with operands at the first positions only. -/
def ok (operands : Nat) : Form → Bool
  | operand i => i < operands
  | number x => isNumber x
  | cast w inner => isTypeName w && inner.ok operands
  | binary p left right => p.rank?.isSome && left.ok operands && right.ok operands
  | negate i => i < operands
  | call w is => isIdentifier w && isName w && is.all (· < operands)

/-- A comparison of the operands as they are. -/
def compare (p : Punct) : Form := cast "int32_t" (binary p (operand 0) (operand 1))

/-- An operator between the operands as they are. -/
def plain (p : Punct) : Form := binary p (operand 0) (operand 1)

/-- An operator between the operands as another type. -/
def through (res type : String) (p : Punct) : Form :=
  cast res (binary p (cast type (operand 0)) (cast type (operand 1)))

/-- The second operand, reduced to a width. -/
def count (mask : String) : Form := binary .bitAnd (operand 1) (number mask)

/-- A conversion through another type. -/
def convert (res type : String) : Form := cast res (cast type (operand 0))

end Form

end C

open C C.Form in
/-- The form of an instruction. -/
def Numeric.form : Numeric → Form
  | .i32Eqz | .i64Eqz => cast "int32_t" (binary .equal (operand 0) (number "0"))
  | .i32Eq | .i64Eq | .f32Eq | .f64Eq => compare .equal
  | .i32Ne | .i64Ne | .f32Ne | .f64Ne => compare .notEqual
  | .i32LtS | .i64LtS | .f32Lt | .f64Lt => compare .less
  | .i32LtU => through "int32_t" "uint32_t" .less
  | .i32GtS | .i64GtS | .f32Gt | .f64Gt => compare .greater
  | .i32GtU => through "int32_t" "uint32_t" .greater
  | .i32LeS | .i64LeS | .f32Le | .f64Le => compare .lessEq
  | .i32LeU => through "int32_t" "uint32_t" .lessEq
  | .i32GeS | .i64GeS | .f32Ge | .f64Ge => compare .greaterEq
  | .i32GeU => through "int32_t" "uint32_t" .greaterEq
  | .i64LtU => through "int32_t" "uint64_t" .less
  | .i64GtU => through "int32_t" "uint64_t" .greater
  | .i64LeU => through "int32_t" "uint64_t" .lessEq
  | .i64GeU => through "int32_t" "uint64_t" .greaterEq
  | .i32Clz => call "wasm_rt_i32_clz" [0]
  | .i32Ctz => call "wasm_rt_i32_ctz" [0]
  | .i32Popcnt => call "wasm_rt_i32_popcnt" [0]
  | .i32Add => through "int32_t" "uint32_t" .plus
  | .i32Sub => through "int32_t" "uint32_t" .minus
  | .i32Mul => through "int32_t" "uint32_t" .times
  | .i32DivS | .i64DivS | .f32Div | .f64Div => plain .divide
  | .i32DivU => through "int32_t" "uint32_t" .divide
  | .i32RemS | .i64RemS => plain .modulo
  | .i32RemU => through "int32_t" "uint32_t" .modulo
  | .i32And | .i64And => plain .bitAnd
  | .i32Or | .i64Or => plain .bitOr
  | .i32Xor | .i64Xor => plain .bitXor
  | .i32Shl => cast "int32_t" (binary .shiftLeft (cast "uint32_t" (operand 0)) (count "31"))
  | .i32ShrS => binary .shiftRight (operand 0) (count "31")
  | .i32ShrU => cast "int32_t" (binary .shiftRight (cast "uint32_t" (operand 0)) (count "31"))
  | .i32Rotl => call "wasm_rt_i32_rotl" [0, 1]
  | .i32Rotr => call "wasm_rt_i32_rotr" [0, 1]
  | .i64Clz => call "wasm_rt_i64_clz" [0]
  | .i64Ctz => call "wasm_rt_i64_ctz" [0]
  | .i64Popcnt => call "wasm_rt_i64_popcnt" [0]
  | .i64Add => through "int64_t" "uint64_t" .plus
  | .i64Sub => through "int64_t" "uint64_t" .minus
  | .i64Mul => through "int64_t" "uint64_t" .times
  | .i64DivU => through "int64_t" "uint64_t" .divide
  | .i64RemU => through "int64_t" "uint64_t" .modulo
  | .i64Shl => cast "int64_t" (binary .shiftLeft (cast "uint64_t" (operand 0)) (count "63"))
  | .i64ShrS => binary .shiftRight (operand 0) (count "63")
  | .i64ShrU => cast "int64_t" (binary .shiftRight (cast "uint64_t" (operand 0)) (count "63"))
  | .i64Rotl => call "wasm_rt_i64_rotl" [0, 1]
  | .i64Rotr => call "wasm_rt_i64_rotr" [0, 1]
  | .f32Abs => call "fabsf" [0]
  | .f32Neg | .f64Neg => negate 0
  | .f32Ceil => call "ceilf" [0]
  | .f32Floor => call "floorf" [0]
  | .f32Trunc => call "truncf" [0]
  | .f32Nearest => call "nearbyintf" [0]
  | .f32Sqrt => call "sqrtf" [0]
  | .f32Add | .f64Add => plain .plus
  | .f32Sub | .f64Sub => plain .minus
  | .f32Mul | .f64Mul => plain .times
  | .f32Min => call "wasm_rt_f32_min" [0, 1]
  | .f32Max => call "wasm_rt_f32_max" [0, 1]
  | .f32Copysign => call "copysignf" [0, 1]
  | .f64Abs => call "fabs" [0]
  | .f64Ceil => call "ceil" [0]
  | .f64Floor => call "floor" [0]
  | .f64Trunc => call "trunc" [0]
  | .f64Nearest => call "nearbyint" [0]
  | .f64Sqrt => call "sqrt" [0]
  | .f64Min => call "wasm_rt_f64_min" [0, 1]
  | .f64Max => call "wasm_rt_f64_max" [0, 1]
  | .f64Copysign => call "copysign" [0, 1]
  | .i32WrapI64 | .i32TruncUF32 | .i32TruncUF64 => convert "int32_t" "uint32_t"
  | .i32TruncSF32 | .i32TruncSF64 => cast "int32_t" (operand 0)
  | .i64ExtendSI32 | .i64TruncSF32 | .i64TruncSF64 => cast "int64_t" (operand 0)
  | .i64ExtendUI32 => convert "int64_t" "uint32_t"
  | .i64TruncUF32 | .i64TruncUF64 => convert "int64_t" "uint64_t"
  | .f32ConvertSI32 | .f32ConvertSI64 | .f32DemoteF64 => cast "float" (operand 0)
  | .f32ConvertUI32 => convert "float" "uint32_t"
  | .f32ConvertUI64 => convert "float" "uint64_t"
  | .f64ConvertSI32 | .f64ConvertSI64 | .f64PromoteF32 => cast "double" (operand 0)
  | .f64ConvertUI32 => convert "double" "uint32_t"
  | .f64ConvertUI64 => convert "double" "uint64_t"
  | .i32ReinterpretF32 => call "wasm_rt_i32_reinterpret_f32" [0]
  | .i64ReinterpretF64 => call "wasm_rt_i64_reinterpret_f64" [0]
  | .f32ReinterpretI32 => call "wasm_rt_f32_reinterpret_i32" [0]
  | .f64ReinterpretI64 => call "wasm_rt_f64_reinterpret_i64" [0]

namespace C

/-- Every template is its form, spelled out. -/
lemma template_eq_form (op : Numeric) : template op = op.form.template := by
  have hchars {cs : List Char} {t : Template} (h : parse cs = t) :
      parse (String.ofList cs).toList = t := by
    rwa [String.toList_ofList]
  cases op <;> exact hchars rfl

/-- Every form is made of what the grammar knows. -/
lemma ok_form (op : Numeric) : op.form.ok op.shape.arity = true := by
  have h : ∀ op ∈ Numeric.all, op.form.ok op.shape.arity = true := by decide +kernel
  exact h op (mem_all_numeric op)

/-! ## Templates that are filled -/

namespace Template

variable (operands : List String)

lemma toList_fill_nil : (fill operands []).toList = [] := rfl

lemma toList_fill_append (s t : Template) :
    (fill operands (s ++ t)).toList = (fill operands s).toList ++ (fill operands t).toList := by
  simp [fill, String.toList_join]

lemma toList_fill_pieces (text : List Char) : (fill operands (Form.pieces text)).toList = text := by
  induction text with
  | nil => rfl
  | cons c text ih =>
    rw [Form.pieces, map_cons, toList_fill_char]
    exact congrArg (c :: ·) ih

/-- Operands with commas between them. -/
lemma toList_fill_commas (is : List Nat) :
    (fill operands (List.intercalate [.char ',', .char ' '] (is.map fun i => [.hole i]))).toList =
      (", ".intercalate (is.map (filled operands))).toList := by
  induction is with
  | nil => rfl
  | cons i is ih =>
    cases is with
    | nil => simp [fill, filled]
    | cons j is =>
      simp only [map_cons, intercalate_cons_cons, String.intercalate_cons_cons] at ih ⊢
      rw [toList_fill_append, toList_fill_append, ih]
      simp [fill, filled]

end Template

namespace Form

variable {args : List (String × Tree)}

lemma filled_operand (ha : ∀ arg ∈ args, FitText arg.1 arg.2) {i : Nat}
    (hi : i < args.length) : SuffixedText (filled (args.map Prod.fst) i).toList
      ((args.map Prod.snd).getD i (.name "")) := by
  have h := (ha args[i] (getElem_mem hi)).operand
  simpa [filled, hi] using h

/-- The parenthesis behind a word closes the one in front of it. -/
lemma afterClose?_word {cs : List Char} (hcs : ∀ c ∈ cs, isWordChar c = true) (rest : List Char) :
    afterClose? 0 (cs ++ ')' :: rest) = some rest := by
  induction cs with
  | nil => rfl
  | cons c cs ih =>
    obtain ⟨hc, hcs⟩ := forall_mem_cons.mp hcs
    have hne : c ≠ '(' ∧ c ≠ ')' := by constructor <;> (rintro rfl; cases hc)
    simp [afterClose?, hne, ih hcs]

/-- A cast does not bind tightly. -/
lemma isTight_cast {w : String} (hw : isTypeName w = true) {text : List Char} (hne : text ≠ []) :
    isTight ('(' :: (w.toList ++ ')' :: text)) = false := by
  have hword : ∀ c ∈ w.toList, isWordChar c = true :=
    fun c hc => isWordChar_of_mem_identifier (isIdentifier_of_isTypeName hw) hc
  have hopen : isNumeralChar '(' = false ∧ isWordChar '(' = false := by decide
  simp [isTight, hopen, afterClose?_word hword, hne]

/-- **A form that is filled has the shape of the form.**

**Proof sketch.** Induction on the form. Operands bind tightly once they stand in the template, so
that a cast or a sign takes all of them; everything else is in parentheses, except a cast, which is
put in parentheses where it becomes an operand itself. -/
theorem fitText (ha : ∀ arg ∈ args, FitText arg.1 arg.2) {f : Form} (hf : f.ok args.length = true) :
    FitText (f.template.fill (args.map Prod.fst)) (f.tree (args.map Prod.snd)) := by
  induction f with
  | operand i =>
    have h := filled_operand ha (i := i) (by simpa [ok] using hf)
    refine .inl ?_
    rw [template, toList_fill_hole]
    simpa [toList_fill_nil, tree] using h
  | number x =>
    refine .inl ?_
    rw [template, toList_fill_pieces]
    exact .number hf
  | cast w inner ih =>
    obtain ⟨hw, hinner⟩ := Bool.and_eq_true_iff.mp hf
    have h := (ih hinner).castText
    refine .inr ?_
    rw [template, toList_fill_char, toList_fill_append, toList_fill_pieces, toList_fill_char]
    exact ⟨isTight_cast hw h.ne_nil, h.cast hw⟩
  | binary p left right ihleft ihright =>
    simp only [ok, Bool.and_eq_true, Option.isSome_iff_exists] at hf
    obtain ⟨⟨⟨k, hp⟩, hleft⟩, hright⟩ := hf
    have h := CastText.binary hp (ihleft hleft).castText (ihright hright).castText
    refine .inl ?_
    simpa [template, toList_fill_char, toList_fill_append,
      toList_fill_pieces, toList_fill_nil, tree] using h
  | negate i =>
    have h := (CastText.negate (filled_operand ha (i := i) (by simpa [ok] using hf))).parens
    refine .inl ?_
    simpa [template, toList_fill_char, toList_fill_hole, toList_fill_nil, tree] using h
  | call w is =>
    simp only [ok, Bool.and_eq_true, all_eq_true, decide_eq_true_eq] at hf
    obtain ⟨⟨hw, hname⟩, his⟩ := hf
    have hoperands : ∀ arg ∈ is.map fun i => (filled (args.map Prod.fst) i,
        (args.map Prod.snd).getD i (.name "")), CastText arg.1.toList arg.2 := by
      intro arg harg
      obtain ⟨i, hi, rfl⟩ := mem_map.mp harg
      exact (filled_operand ha (his i hi)).castText
    have h := SuffixedText.call _ hw hname hoperands
    refine .inl ?_
    simpa [template, toList_fill_char, toList_fill_append,
      toList_fill_pieces, toList_fill_commas, toList_fill_nil, tree,
      callText, Function.comp_def] using h

end Form

end C

end WasmToC

import WasmToC.Proofs.BitIntrinsics
import WasmToC.Proofs.ExprShape
import WasmToC.Proofs.IntegerEval

/-!
# Integer instructions in C

The C expression of an integer instruction has the value that the instruction gives. The
expressions are those that the texts are read as, so that it does not matter how an operand is
spelled, only what it evaluates to. Arithmetic goes through the unsigned types and wraps, shift
counts are reduced to the width, and counts and rotations are functions of the support library.

Division is the exception. Nothing in front of it looks at the divisor, so that where the
instruction traps, and in one case where it does not, the expression has no defined behaviour.

## Main definitions

* `IntInstr.form` — the form of an integer instruction, for both widths at once.
* `C.Operand`, `C.Operand.Means` — an operand with its text, its tree and its value.

## Main results

* `C.eval_relation`, `C.eval_unary`, `C.eval_operation`,
  `C.eval_eqz`, `C.eval_wrap`, `C.eval_extendS`, `C.eval_extendU` —
  the instructions, kind by kind.
* `integer_lowering` — every instruction that is no division.
* `division_lowering` — division, where it has a value and where it traps.
* `division_unchecked` — a division by zero does not reach the trap handler.
-/

namespace WasmToC

open C List BitVec Scalar Tree IntBinary C.Datum IntInstr

/-! ## Forms by width -/

namespace Width

/-- The name of the signed type of a width. -/
def signedName : Width → String
  | w32 => "int32_t"
  | w64 => "int64_t"

/-- The name of the unsigned type of a width. -/
def unsignedName : Width → String
  | w32 => "uint32_t"
  | w64 => "uint64_t"

/-- What a shift count is reduced by. -/
def mask : Width → String
  | w32 => "31"
  | w64 => "63"

/-- The name of the support function that rotates to the left. -/
def leftRotationName : Width → String
  | w32 => "wasm_rt_i32_rotl"
  | w64 => "wasm_rt_i64_rotl"

/-- The name of the support function that rotates to the right. -/
def rightRotationName : Width → String
  | w32 => "wasm_rt_i32_rotr"
  | w64 => "wasm_rt_i64_rotr"

end Width

/-- The name of the support function that counts. -/
def IntUnary.functionName : Width → IntUnary → String
  | .w32, .clz => "wasm_rt_i32_clz"
  | .w32, .ctz => "wasm_rt_i32_ctz"
  | .w32, .popcnt => "wasm_rt_i32_popcnt"
  | .w64, .clz => "wasm_rt_i64_clz"
  | .w64, .ctz => "wasm_rt_i64_ctz"
  | .w64, .popcnt => "wasm_rt_i64_popcnt"

open C.Form in
/-- The form of a comparison. -/
def IntRelation.form (W : Width) : IntRelation → Form
  | eq => compare .equal
  | ne => compare .notEqual
  | ltS => compare .less
  | ltU => through "int32_t" W.unsignedName .less
  | gtS => compare .greater
  | gtU => through "int32_t" W.unsignedName .greater
  | leS => compare .lessEq
  | leU => through "int32_t" W.unsignedName .lessEq
  | geS => compare .greaterEq
  | geU => through "int32_t" W.unsignedName .greaterEq

open C.Form in
/-- The form of an operation on two integers. -/
def IntBinary.form (W : Width) : IntBinary → Form
  | add => through W.signedName W.unsignedName .plus
  | sub => through W.signedName W.unsignedName .minus
  | mul => through W.signedName W.unsignedName .times
  | divS => plain .divide
  | divU => through W.signedName W.unsignedName .divide
  | remS => plain .modulo
  | remU => through W.signedName W.unsignedName .modulo
  | and => plain .bitAnd
  | or => plain .bitOr
  | xor => plain .bitXor
  | shl => cast W.signedName (binary .shiftLeft (cast W.unsignedName (operand 0)) (count W.mask))
  | shrS => binary .shiftRight (operand 0) (count W.mask)
  | shrU => cast W.signedName (binary .shiftRight (cast W.unsignedName (operand 0)) (count W.mask))
  | rotl => call W.leftRotationName [0, 1]
  | rotr => call W.rightRotationName [0, 1]

open C.Form in
/-- The form of an integer instruction. -/
def IntInstr.form : IntInstr → Form
  | eqz _ => cast "int32_t" (Form.binary .equal (operand 0) (number "0"))
  | relation W op => op.form W
  | unary W op => call (op.functionName W) [0]
  | binary W op => op.form W
  | wrap => convert "int32_t" "uint32_t"
  | extendS => cast "int64_t" (operand 0)
  | extendU => convert "int64_t" "uint32_t"

/-- The two widths of an instruction have the same form, up to names. -/
lemma form_of_integer? {op : Numeric} {i : IntInstr} (h : op.integer? = some i) :
    op.form = i.form := by
  cases op <;> first | (cases h; rfl) | simp [Numeric.integer?] at h

namespace C

/-! ## Evaluation -/

variable {others : Tree → Except NoValue Datum} {W : Width}

lemma Datum.ofValue_value (x : BitVec W.bits) : ofValue (W.value x) = .int ⟨.signed W, x⟩ := by
  cases W <;> rfl

lemma ofName?_signedName (W : Width) : IntType.ofName? W.signedName = some (.signed W) := by
  cases W <;> rfl

lemma ofName?_unsignedName (W : Width) : IntType.ofName? W.unsignedName = some (.unsigned W) := by
  cases W <;> rfl

lemma bitsIn_of_width (s s' : Bool) (x : BitVec W.bits) :
    (⟨⟨W, s⟩, x⟩ : Scalar).bitsIn ⟨W, s'⟩ = x := by
  cases s <;> simp [bitsIn, val, IntType.val]

lemma convert_of_width (s s' : Bool) (x : BitVec W.bits) :
    (⟨⟨W, s⟩, x⟩ : Scalar).convert ⟨W, s'⟩ = ⟨⟨W, s'⟩, x⟩ := by
  rw [convert, bitsIn_of_width]

/-! ## Operators -/

section Operators

variable {ta tb : Tree} {x y : BitVec W.bits} {p : Punct}
  (ha : ta.eval others = .ok (.int ⟨.signed W, x⟩))
  (hb : tb.eval others = .ok (.int ⟨.signed W, y⟩))

/-- Operands of one type meet in this type. -/
lemma binary?_of_type (s : Bool) (hshift : p.isShift = false) :
    Scalar.binary? p ⟨⟨W, s⟩, x⟩ ⟨⟨W, s⟩, y⟩ = Scalar.operate? p ⟨W, s⟩ x y := by
  have hcommon : IntType.common ⟨W, s⟩ ⟨W, s⟩ = ⟨W, s⟩ := by simp [IntType.common]
  rw [Scalar.binary?_eq_operate? hshift, hcommon, bitsIn_of_width, bitsIn_of_width]

include ha hb in
/-- An operator between the operands as they are. -/
lemma eval_plain {answer : Except NoValue Scalar} (hshift : p.isShift = false)
    (hp : operate? p (.signed W) x y = some answer) :
    ((Form.plain p).tree [ta, tb]).eval others = answer.map .int := by
  refine eval_binary ha hb ?_
  rw [binary?_of_type true hshift, hp]

include ha in
lemma eval_unsigned : (cast W.unsignedName ta).eval others = .ok (.int ⟨.unsigned W, x⟩) := by
  rw [eval_cast_of_ok (ofName?_unsignedName W) ha, convert_of_width]

include ha hb in
/-- An operator between the operands as unsigned numbers. -/
lemma eval_through {w : String} {t : IntType} {answer : Except NoValue Scalar}
    (hw : IntType.ofName? w = some t) (hshift : p.isShift = false)
    (hp : operate? p (.unsigned W) x y = some answer) :
    ((Form.through w W.unsignedName p).tree [ta, tb]).eval others =
      answer.map fun v => .int (v.convert t) := by
  refine eval_cast hw (eval_binary (eval_unsigned ha) (eval_unsigned hb) ?_)
  rw [binary?_of_type false hshift, hp]

/-- A number of the signed type of 32 bits beside an operand takes the operand's type. -/
lemma binary?_ofInt {k : Int} (hk : (IntType.signed .w32).Holds k) (hshift : p.isShift = false) :
    Scalar.binary? p ⟨.signed W, x⟩ (.ofInt (.signed .w32) k) =
      Scalar.operate? p (.signed W) x (BitVec.ofInt W.bits k) := by
  cases W with
  | w32 => exact binary?_of_type true hshift
  | w64 =>
    have hval : (Scalar.ofInt (.signed .w32) k).val = k := hk
    rw [Scalar.binary?_eq_operate? hshift]
    show Scalar.operate? p (.signed .w64) (Scalar.bitsIn ⟨.signed .w64, x⟩ (.signed .w64))
      (BitVec.ofInt Width.w64.bits (Scalar.ofInt (.signed .w32) k).val) = _
    rw [hval, bitsIn_of_width]

lemma literal?_mask (W : Width) :
    literal? W.mask = some (.ofInt (.signed .w32) (W.bits - 1 : Nat)) := by
  cases W <;> decide

lemma literal?_zero : literal? "0" = some (.ofInt (.signed .w32) 0) := by
  decide

/-- The lower bits of a number are its remainder. -/
lemma toInt_and_mask (y : BitVec W.bits) :
    (y &&& BitVec.ofInt W.bits (W.bits - 1 : Nat)).toInt = (y.toNat % W.bits : Nat) := by
  have hand : (y &&& BitVec.ofInt W.bits (W.bits - 1 : Nat)).toNat = y.toNat % W.bits := by
    rw [ofInt_natCast, toNat_and]
    cases W with
    | w32 => exact Nat.and_two_pow_sub_one_eq_mod y.toNat 5
    | w64 => exact Nat.and_two_pow_sub_one_eq_mod y.toNat 6
  have hlt : y.toNat % W.bits < W.bits := Nat.mod_lt _ W.bits_pos
  have hpow : 2 * W.bits < 2 ^ W.bits := by cases W <;> decide
  rw [toInt_eq_toNat_of_lt (by omega), hand]

include hb in
/-- The second operand, reduced to the width. -/
lemma eval_count (ta : Tree) :
    ∃ c : Scalar, ((Form.count W.mask).tree [ta, tb]).eval others = .ok (.int c) ∧
      c.val = (y.toNat % W.bits : Nat) := by
  have hmask : (IntType.signed .w32).Holds (W.bits - 1 : Nat) := by cases W <;> decide
  have hand : Scalar.binary? .bitAnd ⟨.signed W, y⟩ (.ofInt (.signed .w32) (W.bits - 1 : Nat)) =
      some (.ok ⟨.signed W, y &&& BitVec.ofInt W.bits (W.bits - 1 : Nat)⟩) :=
    binary?_ofInt hmask rfl
  exact ⟨_, eval_binary hb (eval_number (literal?_mask W)) hand, toInt_and_mask y⟩

end Operators

/-! ## Results -/

section Results

variable {x y : BitVec W.bits}

lemma result_unsigned (k : Int) :
    result (.unsigned W) k = .ok ⟨.unsigned W, BitVec.ofInt W.bits k⟩ := by
  simp [result, ofInt]

lemma ofInt_toNat (x : BitVec W.bits) : BitVec.ofInt W.bits (x.toNat : Int) = x := by
  rw [ofInt_natCast, ofNat_toNat, setWidth_eq]

lemma operate?_plus : operate? .plus (.unsigned W) x y = some (.ok ⟨.unsigned W, x + y⟩) := by
  show some (result (.unsigned W) (x.toNat + y.toNat)) = _
  rw [result_unsigned, ofInt_add, ofInt_toNat, ofInt_toNat]

lemma operate?_minus : operate? .minus (.unsigned W) x y = some (.ok ⟨.unsigned W, x - y⟩) := by
  show some (result (.unsigned W) (x.toNat - y.toNat)) = _
  rw [result_unsigned, Int.sub_eq_add_neg, ofInt_add, ofInt_neg, ofInt_toNat,
    ofInt_toNat, ← BitVec.sub_eq_add_neg]

lemma operate?_times : operate? .times (.unsigned W) x y = some (.ok ⟨.unsigned W, x * y⟩) := by
  show some (result (.unsigned W) (x.toNat * y.toNat)) = _
  rw [result_unsigned, ofInt_mul, ofInt_toNat, ofInt_toNat]

/-- Shift counts that have been reduced are in range. -/
lemma count_in_range {c : Int} (hc : c = (y.toNat % W.bits : Nat)) :
    ¬ (c < 0 ∨ (W.bits : Int) ≤ c) := by
  have hlt : y.toNat % W.bits < W.bits := Nat.mod_lt _ W.bits_pos
  omega

lemma shiftLeft_unsigned {c : Int} (hc : c = (y.toNat % W.bits : Nat)) :
    shiftLeft ⟨.unsigned W, x⟩ c = .ok ⟨.unsigned W, x <<< (y.toNat % W.bits)⟩ := by
  have hbits : BitVec.ofInt W.bits ((x.toNat : Int) * 2 ^ (y.toNat % W.bits)) =
      x <<< (y.toNat % W.bits) := by
    rw [show ((x.toNat : Int) * 2 ^ (y.toNat % W.bits)) =
      ((x.toNat * 2 ^ (y.toNat % W.bits) : Nat) : Int) by push_cast; rfl, ofInt_natCast]
    refine eq_of_toNat_eq ?_
    rw [toNat_ofNat, toNat_shiftLeft, Nat.shiftLeft_eq]
  rw [shiftLeft, if_neg (count_in_range hc)]
  have hval : (⟨.unsigned W, x⟩ : Scalar).val = x.toNat := rfl
  rw [hval, if_neg (by omega), result_unsigned, hc, Int.toNat_natCast, hbits]

lemma shiftRight_unsigned {c : Int} (hc : c = (y.toNat % W.bits : Nat)) :
    shiftRight ⟨.unsigned W, x⟩ c = .ok ⟨.unsigned W, x >>> (y.toNat % W.bits)⟩ := by
  have hbits : BitVec.ofInt W.bits ((x.toNat : Int) >>> (y.toNat % W.bits)) =
      x >>> (y.toNat % W.bits) := by
    show BitVec.ofInt W.bits ((x.toNat >>> (y.toNat % W.bits) : Nat) : Int) = _
    rw [ofInt_natCast]
    refine eq_of_toNat_eq ?_
    rw [toNat_ofNat, toNat_ushiftRight]
    exact Nat.mod_eq_of_lt (Nat.lt_of_le_of_lt (Nat.shiftRight_le _ _) x.isLt)
  rw [shiftRight, if_neg (count_in_range hc), hc, Int.toNat_natCast]
  show Except.ok (⟨.unsigned W, BitVec.ofInt W.bits ((x.toNat : Int) >>> (y.toNat % W.bits))⟩ :
    Scalar) = _
  rw [hbits]

lemma shiftRight_signed {c : Int} (hc : c = (y.toNat % W.bits : Nat)) :
    shiftRight ⟨.signed W, x⟩ c = .ok ⟨.signed W, x.sshiftRight (y.toNat % W.bits)⟩ := by
  rw [shiftRight, if_neg (count_in_range hc), hc, Int.toNat_natCast]
  rfl

end Results

/-! ## Instructions -/

section Instructions

variable {ta tb : Tree} {x y : BitVec W.bits} (ha : ta.eval others = .ok (.int ⟨.signed W, x⟩))
  (hb : tb.eval others = .ok (.int ⟨.signed W, y⟩))

lemma ofValue_truth (b : Bool) : ofValue (truth b) = .int (.ofBool b) := by
  cases b <;> rfl

lemma convert_ofBool (b : Bool) :
    (Scalar.ofBool b).convert (.signed .w32) = .ofBool b := convert_of_width true true _

include ha hb in
/-- A comparison of signed numbers. -/
lemma eval_compare {p : Punct} {b : Bool} (hshift : p.isShift = false)
    (hp : Scalar.operate? p (.signed W) x y = some (.ok (.ofBool b))) :
    ((Form.compare p).tree [ta, tb]).eval others = .ok (.ofValue (truth b)) := by
  rw [ofValue_truth, ← convert_ofBool]
  exact eval_cast (ofName?_signedName .w32) (eval_plain ha hb hshift hp)

include ha hb in
/-- A comparison of unsigned numbers. -/
lemma eval_compareUnsigned {p : Punct} {b : Bool} (hshift : p.isShift = false)
    (hp : Scalar.operate? p (.unsigned W) x y = some (.ok (.ofBool b))) :
    ((Form.through "int32_t" W.unsignedName p).tree [ta, tb]).eval others =
      .ok (.ofValue (truth b)) := by
  rw [ofValue_truth, ← convert_ofBool]
  exact eval_through ha hb (ofName?_signedName .w32) hshift hp

include ha hb in
/-- **Comparisons.** -/
theorem eval_relation (op : IntRelation) :
    ((op.form W).tree [ta, tb]).eval others = .ok (.ofValue (truth (op.holds x y))) := by
  cases op with
  | eq =>
    refine eval_compare ha hb rfl ?_
    show some (Except.ok (Scalar.ofBool (x.toInt = y.toInt))) = _
    simp only [toInt_inj, IntRelation.holds]
  | ne =>
    refine eval_compare ha hb rfl ?_
    show some (Except.ok (Scalar.ofBool (x.toInt ≠ y.toInt))) = _
    simp only [ne_eq, toInt_inj, IntRelation.holds]
  | ltS | gtS | leS | geS => exact eval_compare ha hb rfl rfl
  | ltU | gtU | leU | geU =>
    refine eval_compareUnsigned ha hb rfl ?_
    simp [operate?, IntType.val, IntRelation.holds]

/-- An operand that is passed to an intrinsic of its width stays as it is. -/
lemma argument_signed (x : BitVec W.bits) : (⟨.signed W, x⟩ : Scalar).argument W = W.value x := by
  rw [argument, bitsIn_of_width]

include ha in
/-- **Counts.** -/
theorem eval_unary (op : IntUnary) : ((Form.call (op.functionName W) [0]).tree [ta]).eval others =
      .ok (.ofValue (W.value (op.apply x))) := by
  have hargs : evalAll others [ta] = .ok [.int ⟨.signed W, x⟩] := by
    rw [evalAll_cons ha rfl]
  have hf : unaryIntrinsics.lookup (op.functionName W) = some (W, op.function W) := by
    cases W <;> cases op <;> rfl
  refine eval_call hargs ?_
  rw [intrinsic?, hf]
  show some (Except.ok (ofValue ((op.function W).apply (argument ⟨.signed W, x⟩ W)))) = _
  rw [argument_signed, op.apply_function]

include ha hb in
/-- A call of a rotation. -/
lemma eval_rotation {f : String} {function : Support.Binary} {z : BitVec W.bits}
    (hf : binaryIntrinsics.lookup f = some (W, function))
    (hz : function.apply (W.value x) (W.value y) = some (W.value z)) :
    ((Form.call f [0, 1]).tree [ta, tb]).eval others = .ok (.ofValue (W.value z)) := by
  have hargs : evalAll others [ta, tb] = .ok [.int ⟨.signed W, x⟩, .int ⟨.signed W, y⟩] := by
    rw [evalAll_cons ha (evalAll_cons hb rfl)]
  refine eval_call hargs ?_
  simp only [intrinsic?, hf, Option.map_some, argument_signed, hz]

include ha hb in
/-- A result that is computed as an unsigned number. -/
lemma eval_throughWidth {p : Punct} {z : BitVec W.bits} (hshift : p.isShift = false)
    (hp : operate? p (.unsigned W) x y = some (.ok ⟨.unsigned W, z⟩)) :
    ((Form.through W.signedName W.unsignedName p).tree [ta, tb]).eval others =
      .ok (.ofValue (W.value z)) := by
  have h := eval_through ha hb (ofName?_signedName W) hshift hp
  rw [Except.map, convert_of_width] at h
  rw [h, ofValue_value]

include ha hb in
/-- **Operations on two integers**, apart from division. -/
theorem eval_operation {op : IntBinary} {z : BitVec W.bits} (hop : op.isDivision = false)
    (hz : op.apply x y = .ok z) :
    ((op.form W).tree [ta, tb]).eval others = .ok (.ofValue (W.value z)) := by
  cases op with
  | divS | divU | remS | remU => simp [isDivision] at hop
  | add =>
    cases hz
    exact eval_throughWidth ha hb rfl operate?_plus
  | sub =>
    cases hz
    exact eval_throughWidth ha hb rfl operate?_minus
  | mul =>
    cases hz
    exact eval_throughWidth ha hb rfl operate?_times
  | and =>
    cases hz
    rw [ofValue_value]
    exact eval_plain (p := .bitAnd) ha hb rfl rfl
  | or =>
    cases hz
    rw [ofValue_value]
    exact eval_plain (p := .bitOr) ha hb rfl rfl
  | xor =>
    cases hz
    rw [ofValue_value]
    exact eval_plain (p := .bitXor) ha hb rfl rfl
  | shl =>
    cases hz
    obtain ⟨c, hcount, hc⟩ := eval_count hb ta
    have h := eval_cast (ofName?_signedName W)
      (eval_binary (p := .shiftLeft) (eval_unsigned ha) hcount rfl)
    rw [shiftLeft_unsigned hc, Except.map, convert_of_width] at h
    rw [ofValue_value]
    exact h
  | shrS =>
    cases hz
    obtain ⟨c, hcount, hc⟩ := eval_count hb ta
    have h := eval_binary (p := .shiftRight) ha hcount rfl
    rw [shiftRight_signed hc] at h
    rw [ofValue_value]
    exact h
  | shrU =>
    cases hz
    obtain ⟨c, hcount, hc⟩ := eval_count hb ta
    have h := eval_cast (ofName?_signedName W)
      (eval_binary (p := .shiftRight) (eval_unsigned ha) hcount rfl)
    rw [shiftRight_unsigned hc, Except.map, convert_of_width] at h
    rw [ofValue_value]
    exact h
  | rotl =>
    cases hz
    exact eval_rotation ha hb (by cases W <;> rfl) (apply_leftRotation x y)
  | rotr =>
    cases hz
    exact eval_rotation ha hb (by cases W <;> rfl) (apply_rightRotation x y)

include ha in
/-- **The test for zero.** -/
theorem eval_eqz :
    ((eqz W).form.tree [ta]).eval others = .ok (.ofValue (truth (x = 0#W.bits))) := by
  have hzero : Scalar.binary? .equal ⟨.signed W, x⟩ (.ofInt (.signed .w32) 0) =
      some (.ok (.ofBool (x = 0#W.bits))) := by
    rw [binary?_ofInt (by decide) rfl]
    show some (Except.ok (Scalar.ofBool (x.toInt = (BitVec.ofInt W.bits 0).toInt))) = _
    simp only [toInt_inj]
    rfl
  rw [ofValue_truth, ← convert_ofBool]
  exact eval_cast (ofName?_signedName .w32) (eval_binary ha (eval_number literal?_zero) hzero)

end Instructions

section Conversions

variable {ta : Tree}

/-- **The lower half** of an integer. -/
theorem eval_wrap {x : BitVec Width.w64.bits} (ha : ta.eval others = .ok (.int ⟨.signed .w64, x⟩)) :
    (wrap.form.tree [ta]).eval others =
      .ok (.ofValue (Width.w32.value (x.setWidth Width.w32.bits))) := by
  -- the conversion of a signed number keeps its lower bits
  have hbits : bitsIn ⟨.signed .w64, x⟩ (.unsigned .w32) = x.setWidth Width.w32.bits :=
    signExtend_eq_setWidth_of_le x (by decide)
  have hunsigned := eval_cast_of_ok (ofName?_unsignedName .w32) ha
  rw [convert, hbits] at hunsigned
  have h := eval_cast_of_ok (ofName?_signedName .w32) hunsigned
  rw [convert_of_width] at h
  rw [ofValue_value]
  exact h

/-- **An integer with copies of its sign.** -/
theorem eval_extendS {x : BitVec Width.w32.bits}
    (ha : ta.eval others = .ok (.int ⟨.signed .w32, x⟩)) :
    (extendS.form.tree [ta]).eval others =
      .ok (.ofValue (Width.w64.value (x.signExtend Width.w64.bits))) :=
  eval_cast_of_ok (ofName?_signedName .w64) ha

/-- **An integer with zeros.** -/
theorem eval_extendU {x : BitVec Width.w32.bits}
    (ha : ta.eval others = .ok (.int ⟨.signed .w32, x⟩)) :
    (extendU.form.tree [ta]).eval others =
      .ok (.ofValue (Width.w64.value (x.setWidth Width.w64.bits))) := by
  have hbits : BitVec.ofInt Width.w64.bits (x.toNat : Int) = x.setWidth Width.w64.bits := by
    rw [ofInt_natCast, ofNat_toNat]
  rw [ofValue_value, ← hbits]
  exact eval_cast_of_ok (ofName?_signedName .w64) (eval_unsigned ha)

end Conversions

/-! ## Division -/

/-- What is undefined in C where an instruction traps. -/
def Undefined.ofTrap : IntTrap → Undefined
  | .divideByZero => .divisionByZero
  | .overflow => .overflow

section Division

variable {ta tb : Tree} {x y : BitVec W.bits} (ha : ta.eval others = .ok (.int ⟨.signed W, x⟩))
  (hb : tb.eval others = .ok (.int ⟨.signed W, y⟩))

/-- A quotient that does not overflow is in range. -/
lemma result_quotient (h : ¬ Overflows x y) : result (.signed W) (x.toInt.tdiv y.toInt) =
      .ok ⟨.signed W, BitVec.ofInt W.bits (x.toInt.tdiv y.toInt)⟩ := by
  have hquotient := toInt_sdiv_of_ne_or_ne x y (Decidable.not_and_iff_not_or_not.mp h)
  have hholds : (IntType.signed W).Holds (x.toInt.tdiv y.toInt) := by
    show (BitVec.ofInt W.bits (x.toInt.tdiv y.toInt)).toInt = x.toInt.tdiv y.toInt
    rw [← hquotient, ofInt_toInt]
  rw [result, if_neg (fun h => h.2 hholds)]
  rfl

/-- The quotient that overflows is just out of range. -/
lemma result_overflow (h : Overflows x y) :
    result (.signed W) (x.toInt.tdiv y.toInt) = .error (.undefined .overflow) := by
  obtain ⟨rfl, rfl⟩ := h
  cases W <;> decide

lemma toInt_ne_zero (h : y ≠ 0#W.bits) : y.toInt ≠ 0 := by
  rwa [ne_eq, ← toInt_zero, toInt_inj]

lemma toNat_ne_zero (h : y ≠ 0#W.bits) : (y.toNat : Int) ≠ 0 := by
  intro h'
  exact h (eq_of_toNat_eq (by simpa using h'))

lemma operate?_divide_signed (hy : y ≠ 0#W.bits) : operate? .divide (.signed W) x y =
      some (result (.signed W) (x.toInt.tdiv y.toInt)) :=
  if_neg (toInt_ne_zero hy)

lemma operate?_modulo_signed (hy : y ≠ 0#W.bits) (h : ¬ Overflows x y) :
    operate? .modulo (.signed W) x y =
      some (.ok ⟨.signed W, BitVec.ofInt W.bits (x.toInt.tmod y.toInt)⟩) := by
  refine (if_neg (toInt_ne_zero hy)).trans ?_
  show some (Except.map _ (result (.signed W) (x.toInt.tdiv y.toInt))) = _
  rw [result_quotient h]
  rfl

lemma operate?_divide_unsigned (hy : y ≠ 0#W.bits) : operate? .divide (.unsigned W) x y =
      some (.ok ⟨.unsigned W, BitVec.ofNat W.bits (x.toNat / y.toNat)⟩) := by
  refine (if_neg (toNat_ne_zero hy)).trans ?_
  show some (result (.unsigned W) ((x.toNat : Int).tdiv y.toNat)) = _
  rw [result_unsigned, ← Int.ofNat_tdiv, ofInt_natCast]

lemma operate?_modulo_unsigned (hy : y ≠ 0#W.bits) : operate? .modulo (.unsigned W) x y =
      some (.ok ⟨.unsigned W, BitVec.ofNat W.bits (x.toNat % y.toNat)⟩) := by
  refine (if_neg (toNat_ne_zero hy)).trans ?_
  show some (Except.map _ (result (.unsigned W) ((x.toNat : Int).tdiv y.toNat))) = _
  rw [result_unsigned]
  show some (Except.ok (⟨.unsigned W, BitVec.ofInt W.bits ((x.toNat : Int).tmod y.toNat)⟩ :
    Scalar)) = _
  rw [← Int.ofNat_tmod, ofInt_natCast]

lemma operate?_zero (s : Bool) {p : Punct} (hp : p = .divide ∨ p = .modulo) :
    operate? p ⟨W, s⟩ x 0#W.bits = some (.error (.undefined .divisionByZero)) := by
  have hzero : IntType.val ⟨W, s⟩ 0#W.bits = 0 := by cases s <;> simp [IntType.val]
  obtain rfl | rfl := hp
  · exact if_pos hzero
  · exact if_pos hzero

include ha hb in
/-- **Division**, where the instruction has a value. -/
theorem eval_division {op : IntBinary} {z : BitVec W.bits} (hop : op.isDivision = true)
    (hz : op.apply x y = .ok z) (hrem : op = .remS → ¬ Overflows x y) :
    ((op.form W).tree [ta, tb]).eval others = .ok (.ofValue (W.value z)) := by
  have hy : y ≠ 0#W.bits := by
    rintro rfl
    cases op <;> simp [apply, isDivision] at hz hop
  cases op <;> simp only [isDivision, Bool.false_eq_true] at hop
  case divS =>
    rw [apply, if_neg hy] at hz
    split at hz
    · cases hz
    · next h =>
      cases hz
      rw [ofValue_value, ← Except.map, ← result_quotient h]
      exact eval_plain ha hb rfl (operate?_divide_signed hy)
  case remS =>
    rw [apply, if_neg hy] at hz
    cases hz
    rw [ofValue_value]
    exact eval_plain ha hb rfl (operate?_modulo_signed hy (hrem rfl))
  case divU =>
    rw [apply, if_neg hy] at hz
    cases hz
    exact eval_throughWidth ha hb rfl (operate?_divide_unsigned hy)
  case remU =>
    rw [apply, if_neg hy] at hz
    cases hz
    exact eval_throughWidth ha hb rfl (operate?_modulo_unsigned hy)

include ha hb in
/-- **Division where the instruction traps** has no defined behaviour. -/
theorem eval_division_trap {op : IntBinary} {trap : IntTrap} (hz : op.apply x y = .error trap) :
    ((op.form W).tree [ta, tb]).eval others = .error (.undefined (.ofTrap trap)) := by
  cases op <;> try cases hz
  case divS =>
    rw [apply] at hz
    split at hz
    · next hy =>
      subst hy
      cases hz
      exact eval_plain ha hb rfl (operate?_zero true (.inl rfl))
    · next hy =>
      split at hz
      · next h =>
        cases hz
        have hp := operate?_divide_signed (x := x) hy
        rw [result_overflow h] at hp
        exact eval_plain ha hb rfl hp
      · cases hz
  case remS =>
    rw [apply] at hz
    split at hz
    · next hy =>
      subst hy
      cases hz
      exact eval_plain ha hb rfl (operate?_zero true (.inr rfl))
    · cases hz
  case divU =>
    rw [apply] at hz
    split at hz
    · next hy =>
      subst hy
      cases hz
      exact eval_through ha hb (ofName?_signedName W) rfl (operate?_zero false (.inl rfl))
    · cases hz
  case remU =>
    rw [apply] at hz
    split at hz
    · next hy =>
      subst hy
      cases hz
      exact eval_through ha hb (ofName?_signedName W) rfl (operate?_zero false (.inr rfl))
    · cases hz

end Division

/-! ## Templates with operands -/

/-- An operand of a template. -/
structure Operand where
  /-- Its text. -/
  text : String
  /-- What the text is read as. -/
  tree : Tree
  /-- What it evaluates to. -/
  value : Value

/-- The text of an operand is fit to be one and has the shape of its tree, and the tree evaluates to
the value. -/
structure Operand.Means (others : Tree → Except NoValue Datum) (a : Operand) : Prop where
  /-- The text is fit to be an operand. -/
  fit : FitText a.text a.tree
  /-- The tree has the value. -/
  eval : a.tree.eval others = .ok (.ofValue a.value)

/-- A template that is filled with operands reads as the form that is filled with their trees. -/
lemma parses_template {op : Numeric} {args : List Operand} (hlen : args.length = op.shape.arity)
    (hfit : ∀ a ∈ args, FitText a.text a.tree) (t : Tree) :
    Parses ((template op).fill (args.map Operand.text)) t ↔
      t = op.form.tree (args.map Operand.tree) := by
  have hfits : ∀ arg ∈ args.map fun a => (a.text, a.tree), FitText arg.1 arg.2 :=
    forall_mem_map.mpr hfit
  have hok : op.form.ok (args.map fun a => (a.text, a.tree)).length = true := by
    rw [length_map, hlen]
    exact ok_form op
  have h := Form.fitText hfits hok
  rw [map_map, map_map, ← template_eq_form] at h
  exact h.castText.parses_iff t

/-- An operand of an integer type evaluates to its bits. -/
lemma Operand.Means.exists_bits {a : Operand} (h : a.Means others) (ht : a.value.type = W.type) :
    ∃ x : BitVec W.bits, a.value = W.value x ∧ a.tree.eval others = .ok (.int ⟨.signed W, x⟩) := by
  obtain ⟨x, hx⟩ := Width.exists_value ht
  refine ⟨x, hx, ?_⟩
  rw [h.eval, hx, ofValue_value]

/-- The only operand of an instruction. -/
lemma exists_operand {args : List Operand}
    (hts : args.map (fun a => a.value.type) = List.replicate 1 W.type)
    (ha : ∀ a ∈ args, a.Means others) :
    ∃ a, ∃ x : BitVec W.bits, args = [a] ∧ a.value = W.value x ∧
      a.tree.eval others = .ok (.int ⟨.signed W, x⟩) := by
  obtain ⟨a, rfl⟩ := length_eq_one_iff.mp (by simpa using congrArg List.length hts)
  obtain ⟨x, hx, hax⟩ := (ha a (by simp)).exists_bits (head_eq_of_cons_eq hts)
  exact ⟨a, x, rfl, hx, hax⟩

/-- Both operands of an instruction. -/
lemma exists_operands {args : List Operand}
    (hts : args.map (fun a => a.value.type) = List.replicate 2 W.type)
    (ha : ∀ a ∈ args, a.Means others) :
    ∃ a b, ∃ x y : BitVec W.bits, args = [a, b] ∧ (a.value = W.value x ∧ b.value = W.value y) ∧
      a.tree.eval others = .ok (.int ⟨.signed W, x⟩) ∧
      b.tree.eval others = .ok (.int ⟨.signed W, y⟩) := by
  obtain ⟨a, b, rfl⟩ := length_eq_two.mp (by simpa using congrArg List.length hts)
  obtain ⟨htype, hts⟩ := List.cons.inj hts
  obtain ⟨x, hx, hax⟩ := (ha a (by simp)).exists_bits htype
  obtain ⟨y, hy, hby⟩ := (ha b (by simp)).exists_bits (head_eq_of_cons_eq hts)
  exact ⟨a, b, x, y, rfl, ⟨hx, hy⟩, hax, hby⟩

/-- **Integer instructions other than divisions** evaluate to what they mean. -/
theorem eval_form {i : IntInstr} {args : List Operand}
    (hdivision : ∀ W op, i = .binary W op → op.isDivision = false)
    (hts : args.map (fun a => a.value.type) = List.replicate i.shape.arity i.shape.operand)
    (ha : ∀ a ∈ args, a.Means others) :
    ∃ result, i.meaning (args.map Operand.value) = some (.ok result) ∧
      (i.form.tree (args.map Operand.tree)).eval others = .ok (.ofValue result) := by
  cases i with
  | eqz W =>
    obtain ⟨a, x, rfl, hx, hax⟩ := exists_operand hts ha
    exact ⟨_, by simp [meaning, hx], eval_eqz hax⟩
  | relation W op =>
    obtain ⟨a, b, x, y, rfl, ⟨hx, hy⟩, hax, hby⟩ := exists_operands hts ha
    exact ⟨_, by simp [meaning, hx, hy], eval_relation hax hby op⟩
  | unary W op =>
    obtain ⟨a, x, rfl, hx, hax⟩ := exists_operand hts ha
    exact ⟨_, by simp [meaning, hx], eval_unary hax op⟩
  | binary W op =>
    obtain ⟨a, b, x, y, rfl, ⟨hx, hy⟩, hax, hby⟩ := exists_operands hts ha
    have hop := hdivision W op rfl
    obtain ⟨z, hz⟩ := exists_apply hop x y
    exact ⟨_, by simp [meaning, hx, hy, hz, Except.map], eval_operation hax hby hop hz⟩
  | wrap =>
    obtain ⟨a, x, rfl, hx, hax⟩ := exists_operand (W := .w64) hts ha
    exact ⟨_, by simp [meaning, hx], eval_wrap hax⟩
  | extendS =>
    obtain ⟨a, x, rfl, hx, hax⟩ := exists_operand (W := .w32) hts ha
    exact ⟨_, by simp [meaning, hx], eval_extendS hax⟩
  | extendU =>
    obtain ⟨a, x, rfl, hx, hax⟩ := exists_operand (W := .w32) hts ha
    exact ⟨_, by simp [meaning, hx], eval_extendU hax⟩

end C

/-- **Integer instructions are C expressions of the same value.** Take an instruction with integer
operands and an integer result that is no division or remainder, and operands of its type whose
texts evaluate to them. The text of the instruction over these operands is an expression by the
grammar of C, with one tree. The behaviour of this tree is defined, and its value is what the
instruction gives.

**Proof sketch.** The template parses as its form, and for each instruction the arithmetic of the
form, modulo the width, is its own. -/
theorem integer_lowering (op : Numeric) (hoperand : op.shape.operand.isInteger = true)
    (hres : op.shape.result.isInteger = true) (hdivision : op.isDivision = false)
    (others : Tree → Except NoValue Datum) (args : List Operand)
    (hts : args.map (fun a => a.value.type) = List.replicate op.shape.arity op.shape.operand)
    (hargs : ∀ a ∈ args, a.Means others) :
    ∃ tree result, op.meaning (args.map Operand.value) = some (.ok result) ∧
      (∀ t, Parses ((template op).fill (args.map Operand.text)) t ↔ t = tree) ∧
      tree.eval others = .ok (.ofValue result) := by
  have hlen : args.length = op.shape.arity := by
    simpa using congrArg List.length hts
  have hparses := parses_template hlen fun a ha => (hargs a ha).fit
  have hsome := isSome_integer? op
  rw [hoperand, hres, Bool.and_self, Option.isSome_iff_exists] at hsome
  obtain ⟨i, hi⟩ := hsome
  rw [shape_of_integer? hi] at hts
  have hnot : ∀ W op, i = .binary W op → op.isDivision = false := by
    rintro W op rfl
    simpa [Numeric.isDivision, hi] using hdivision
  obtain ⟨result, hmeaning, heval⟩ := eval_form hnot hts hargs
  refine ⟨_, result, ?_, hparses, ?_⟩
  · rw [Numeric.meaning, hi, Option.bind_some, hmeaning]
  · rw [form_of_integer? hi, heval]

/-! ## Two parameters as operands -/

/-- Two parameters with given values; nothing else has a value. -/
def parameters (a b : Value) : Tree → Except NoValue Datum
  | .name w => .ok (.ofValue (if w = "p0" then a else b))
  | _ => .error .trap

/-- The parameters as operands. -/
def parameterOperands (a b : Value) : List Operand :=
  [⟨"p0", .name "p0", a⟩, ⟨"p1", .name "p1", b⟩]

lemma means_parameterOperands (a b : Value) :
    ∀ o ∈ parameterOperands a b, o.Means (parameters a b) := by
  have hfit : ∀ w ∈ ["p0", "p1"], FitText w (.name w) := by
    have hname : ∀ w ∈ ["p0", "p1"], isIdentifier w = true ∧ isName w = true := by decide +kernel
    intro w hw
    exact (SuffixedText.name (hname w hw).1 (hname w hw).2).fitText
  refine forall_mem_cons.mpr ⟨⟨hfit "p0" (by simp), rfl⟩,
    forall_mem_singleton.mpr ⟨hfit "p1" (by simp), rfl⟩⟩

/-- A template over the parameters. -/
lemma parses_parameters {op : Numeric} (h : op.shape.arity = 2) (t : Tree) :
    Parses ((template op).fill ["p0", "p1"]) t ↔ t = op.form.tree [.name "p0", .name "p1"] := by
  have hlen : (parameterOperands (.i32 0) (.i32 0)).length = op.shape.arity := h.symm
  exact parses_template hlen (fun a ha => (means_parameterOperands _ _ a ha).fit) t

/-- A negative number is shifted to the right by 65 bits, which are one. -/
theorem integer_lowering_shiftedParameter : ∃ tree result,
      Numeric.i64ShrS.meaning [.i64 (-3), .i64 65] = some (.ok result) ∧
      (∀ t, Parses ((template .i64ShrS).fill ["p0", "p1"]) t ↔ t = tree) ∧
      tree.eval (parameters (.i64 (-3)) (.i64 65)) = .ok (.ofValue result) :=
  integer_lowering .i64ShrS rfl rfl rfl (parameters (.i64 (-3)) (.i64 65))
    (parameterOperands (.i64 (-3)) (.i64 65)) rfl (means_parameterOperands _ _)

/-- The operands whose signed quotient does not fit. -/
def leastByMinusOne : Width → List Value
  | .w32 => [.i32 Int32.minValue, .i32 (-1)]
  | .w64 => [.i64 Int64.minValue, .i64 (-1)]

/-- **Division where it has a value.** Take an integer division or remainder, and operands of its
type whose texts evaluate to them. The text of the instruction over these operands is an expression
by the grammar of C, with one tree. Where the instruction has a value, so has the tree, and it is
the same; the signed remainder of the least number by -1 is not covered. Where the instruction
traps, the behaviour of the tree is undefined, and the trap handler is not called. -/
theorem division_lowering (op : Numeric) (hdivision : op.isDivision = true)
    (others : Tree → Except NoValue Datum) (args : List Operand)
    (hts : args.map (fun a => a.value.type) = List.replicate op.shape.arity op.shape.operand)
    (hargs : ∀ a ∈ args, a.Means others) :
    ∃ tree outcome, op.meaning (args.map Operand.value) = some outcome ∧
      (∀ t, Parses ((template op).fill (args.map Operand.text)) t ↔ t = tree) ∧
      (∀ result, outcome = .ok result → (∀ W, op.integer? = some (.binary W .remS) →
          args.map Operand.value ≠ leastByMinusOne W) →
        tree.eval others = .ok (.ofValue result)) ∧
      ∀ trap, outcome = .error trap → tree.eval others = .error (.undefined (.ofTrap trap)) := by
  have hlen : args.length = op.shape.arity := by
    simpa using congrArg List.length hts
  have hparses := parses_template hlen fun a ha => (hargs a ha).fit
  obtain ⟨W, f, hi, hf⟩ : ∃ W f, op.integer? = some (.binary W f) ∧ f.isDivision = true := by
    unfold Numeric.isDivision at hdivision
    split at hdivision
    · next W f hi => exact ⟨W, f, hi, hdivision⟩
    · cases hdivision
  rw [shape_of_integer? hi] at hts
  obtain ⟨a, b, x, y, rfl, ⟨hx, hy⟩, hax, hby⟩ := exists_operands hts hargs
  refine ⟨_, (f.apply x y).map W.value, ?_, hparses, ?_, ?_⟩
  · simp [Numeric.meaning, hi, meaning, hx, hy]
  · intro result hres hrem
    rw [form_of_integer? hi]
    cases hz : f.apply x y with
    | error trap =>
      rw [hz] at hres
      cases hres
    | ok z =>
      rw [hz] at hres
      cases hres
      refine eval_division hax hby hf hz ?_
      rintro rfl ⟨rfl, rfl⟩
      refine hrem W hi ?_
      simp only [map_cons, map_nil, hx, hy]
      cases W <;> decide
  · intro trap htrap
    rw [form_of_integer? hi]
    cases hz : f.apply x y with
    | ok z =>
      rw [hz] at htrap
      cases htrap
    | error cause =>
      rw [hz] at htrap
      cases htrap
      exact eval_division_trap hax hby hz

/-- A negative number is divided by two. -/
theorem division_lowering_halvedParameter :
    ∃ tree outcome, Numeric.i32DivS.meaning [.i32 (-7), .i32 2] = some outcome ∧
      (∀ t, Parses ((template .i32DivS).fill ["p0", "p1"]) t ↔ t = tree) ∧
      (∀ result, outcome = .ok result → (∀ W, Numeric.i32DivS.integer? = some (.binary W .remS) →
          [Value.i32 (-7), .i32 2] ≠ leastByMinusOne W) →
        tree.eval (parameters (.i32 (-7)) (.i32 2)) = .ok (.ofValue result)) ∧
      ∀ trap, outcome = .error trap →
        tree.eval (parameters (.i32 (-7)) (.i32 2)) = .error (.undefined (.ofTrap trap)) :=
  division_lowering .i32DivS rfl (parameters (.i32 (-7)) (.i32 2))
    (parameterOperands (.i32 (-7)) (.i32 2)) rfl (means_parameterOperands _ _)

/-- **Divisions are not checked.** A quotient by zero traps, and its text has no defined behaviour
and calls no trap handler. The remainder of the least number by -1 is zero, and its text has no
defined behaviour either. -/
theorem division_unchecked :
    Numeric.i32DivS.meaning [.i32 1, .i32 0] = some (.error .divideByZero) ∧
      (∀ t, Parses ((template .i32DivS).fill ["p0", "p1"]) t ↔
        t = .binary .divide (.name "p0") (.name "p1")) ∧
      (Tree.binary .divide (.name "p0") (.name "p1")).eval (parameters (.i32 1) (.i32 0)) =
        .error (.undefined .divisionByZero) ∧
      Numeric.i32RemS.meaning [.i32 Int32.minValue, .i32 (-1)] = some (.ok (.i32 0)) ∧
      (∀ t, Parses ((template .i32RemS).fill ["p0", "p1"]) t ↔
        t = .binary .modulo (.name "p0") (.name "p1")) ∧
      (Tree.binary .modulo (.name "p0") (.name "p1")).eval
          (parameters (.i32 Int32.minValue) (.i32 (-1))) =
        .error (.undefined .overflow) := by
  exact ⟨by decide, parses_parameters rfl, rfl, by decide, parses_parameters rfl, rfl⟩

end WasmToC

import WasmToC.Proofs.Faithful
import WasmToC.Proofs.IntegerEval

/-!
# Constants and what they denote

The text of a constant, read by the grammar of C, is a constant expression. Its value is the
constant, bit for bit, and every literal in it fits the type that C gives it. The magnitude of a
least integer does not, which is why these have names.

## Main definitions

* `C.Scalar.literalIn?` — the value of a literal.
* `C.Tree.constant?` — the value of a constant expression.
* `C.Denotes` — a text is a constant expression with a value.

## Main results

* `C.denotes_literal` — the text of a constant denotes the constant.
-/

namespace WasmToC.C

open List Text

/-! ## Constant expressions -/

namespace Scalar

/-- A number as a value of a type, if the type has it among its values. -/
def ofInt? (t : IntType) (k : Int) : Option Scalar := if t.Holds k then some (ofInt t k) else none

/-- The number that hexadecimal digits stand for. -/
def hexValue? (cs : List Char) : Option Nat :=
  cs.foldlM (fun k c => ("0123456789abcdef".toList.idxOf? c.toLower).map (16 * k + ·)) 0

/-- The number of a decimal or hexadecimal literal without a suffix. -/
def numeral? : List Char → Option Int
  | '0' :: 'x' :: c :: cs => (hexValue? (c :: cs)).map Int.ofNat
  | cs => (literal? (String.ofList cs)).map val

/-- The value of a literal in a type, or in the unsigned one of the same width if `u` stands behind
it. -/
def literalIn? (t : IntType) (x : String) : Option Scalar :=
  if x.toList.getLast? = some 'u' then
    (numeral? x.toList.dropLast).bind (ofInt? (.unsigned t.width))
  else (numeral? x.toList).bind (ofInt? t)

end Scalar

/-- The limits that have names. -/
def limits : List (String × Scalar) := [
  ("INT32_MIN", .ofInt (.signed .w32) (-2 ^ 31)), ("INT64_MIN", .ofInt (.signed .w64) (-2 ^ 63))]

/-- The macros that give the literal in their argument a type. -/
def literalMacros : List (String × IntType) := [
  ("INT64_C", .signed .w64), ("UINT64_C", .unsigned .w64)]

/-- A macro, or a function that makes a float of its bits. -/
def constantCall? (f : String) : List Datum → Option Datum
  | [.int x] =>
    match literalMacros.lookup f, x with
    | some t, x => if x.type = t then some (.int x) else none
    | none, ⟨⟨.w32, false⟩, bits⟩ => if f = "wasm_rt_f32_bits" then some (.float ⟨bits⟩) else none
    | none, ⟨⟨.w64, false⟩, bits⟩ => if f = "wasm_rt_f64_bits" then some (.double ⟨bits⟩) else none
    | _, _ => none
  | _ => none

mutual

/-- The value of a constant expression with literals of a given type. Every literal and every
result has to fit its type. -/
def Tree.constant? (t : IntType) : Tree → Option Datum
  | .number x => (Scalar.literalIn? t x).map .int
  | .name w => (limits.lookup w).map .int
  | .before .minus e =>
    match e.constant? t with
    | some (.int x) => (Scalar.ofInt? x.type (-x.val)).map .int
    | _ => none
  | .call (.name f) args =>
    (Tree.constants? ((literalMacros.lookup f).getD t) args).bind (constantCall? f)
  | _ => none

/-- The values of a list of constant expressions. -/
def Tree.constants? (t : IntType) : List Tree → Option (List Datum)
  | [] => some []
  | e :: es => do return (← e.constant? t) :: (← Tree.constants? t es)

end

/-- A text is a constant expression with a value. Literals are of type `int`. -/
def Denotes (text : String) (d : Datum) : Prop :=
  ∃ t, Parses text t ∧ t.constant? (.signed .w32) = some d

/-! ## Literals -/

lemma IntType.holds_signed_iff {W : Width} {k : Int} :
    (signed W).Holds k ↔ -2 ^ (W.bits - 1) ≤ k ∧ k < 2 ^ (W.bits - 1) := by
  cases W <;> simp [Holds, val, Width.bits, BitVec.toInt_ofInt, Int.bmod_def] <;> omega

namespace Scalar

/-- No number but zero starts with a zero. -/
lemma head?_toDigits (k : Nat) (hk : k ≠ 0) : (Nat.toDigits 10 k).head?.any (· ≠ '0') = true := by
  induction k using Nat.strongRecOn with
  | ind k ih =>
    rw [Nat.toDigits_eq_if (by decide)]
    split
    · simpa [Nat.digitChar_eq_zero] using hk
    · rw [head?_append_of_ne_nil _ Nat.toDigits_ne_nil]
      exact ih (k / 10) (by omega) (by omega)

lemma foldl_digits {cs : List Char} (h : ∀ c ∈ cs, c.isDigit = true) (k : Nat) :
    cs.foldl (fun (k : Int) c => 10 * k + (c.toNat - '0'.toNat)) k = Nat.ofDigitChars 10 cs k := by
  induction cs generalizing k with
  | nil => rfl
  | cons c cs ih =>
    have hc : '0'.toNat ≤ c.toNat := by
      have := h c mem_cons_self
      simp only [Char.isDigit, Bool.and_eq_true, decide_eq_true_eq] at this
      exact this.1
    rw [foldl_cons, Nat.ofDigitChars_cons, ← ih (forall_mem_cons.mp h).2, Int.natCast_add,
      Int.natCast_sub hc]
    rfl

/-- Decimal digits are read as the number they were written for. -/
lemma literal?_toString {k : Nat} (hk : k < 2 ^ 63) :
    (literal? (toString k)).map val = some (k : Int) := by
  have hlist : (toString k).toList = Nat.toDigits 10 k := Nat.toList_repr
  have hdigits : ∀ c ∈ Nat.toDigits 10 k, c.isDigit = true := fun c =>
    Nat.isDigit_of_mem_toDigits (by decide) (by decide)
  have hzero : toString k = "0" ∨ (Nat.toDigits 10 k).head?.any (· ≠ '0') = true := by
    by_cases h : k = 0
    · exact .inl (by rw [h]; rfl)
    · exact .inr (head?_toDigits k h)
  have hvalue := foldl_digits hdigits 0
  rw [Nat.ofDigitChars_ten_toDigits, Int.natCast_zero] at hvalue
  have hholds : (IntType.signed .w64).Holds k :=
    IntType.holds_signed_iff.mpr (by simp only [Width.bits]; omega)
  rw [literal?, hlist, if_pos ⟨all_eq_true.mpr hdigits, hzero⟩, hvalue]
  simp only [if_pos hholds]
  split
  · next h => exact congrArg some h
  · exact congrArg some hholds

/-- A literal of decimal digits. -/
lemma literalIn?_toString {t : IntType} {k : Nat} (hk : k < 2 ^ 63) (ht : t.Holds k) :
    literalIn? t (toString k) = some (ofInt t k) := by
  have hletter : ∀ c ∈ (toString k).toList, c.isDigit = true := by
    rw [show (toString k).toList = Nat.toDigits 10 k from Nat.toList_repr]
    exact fun c => Nat.isDigit_of_mem_toDigits (by decide) (by decide)
  have hlast : (toString k).toList.getLast? ≠ some 'u' := fun h =>
    absurd (hletter 'u' (mem_of_getLast? h)) (by decide)
  have hnumeral : numeral? (toString k).toList = some (k : Int) := by
    rw [← literal?_toString hk, numeral?, String.ofList_toList]
    intro c cs h
    exact absurd (hletter 'x' (h ▸ by simp)) (by decide)
  rw [literalIn?, if_neg hlast, hnumeral, Option.bind_some, ofInt?, if_pos ht]

/-- Hexadecimal digits are read as the number they were written for. -/
lemma hexValue?_hexDigits (width k : Nat) :
    hexValue? (hexDigits width k) = some (k % 16 ^ width) := by
  have hdigit : ∀ d < 16, "0123456789abcdef".toList.idxOf? (hexDigit d).toLower = some d := by
    decide
  induction width generalizing k with
  | zero => simp [hexValue?, hexDigits, Nat.mod_one]
  | succ width ih =>
    unfold hexValue? at ih ⊢
    rw [hexDigits, foldlM_append, ih, hexDigit_mod]
    simp only [Option.bind_eq_bind, Option.bind_some, foldlM_cons, foldlM_nil,
      hdigit (k % 16) (Nat.mod_lt k (by decide)), Option.map_some, Nat.pow_succ', Nat.mod_mul,
      Nat.add_comm]
    rfl

/-- A bit pattern is read as it is. -/
lemma numeral?_hexDigits {W : Width} (x : BitVec W.bits) :
    (numeral? ('0' :: 'x' :: hexDigits (W.bits / 4) x.toNat)).bind (ofInt? (.unsigned W)) =
      some ⟨.unsigned W, x⟩ := by
  have hlt : x.toNat < 16 ^ (W.bits / 4) := by
    cases W <;> exact x.isLt
  have hvalue := hexValue?_hexDigits (W.bits / 4) x.toNat
  rw [Nat.mod_eq_of_lt hlt] at hvalue
  obtain ⟨c, cs, hcs⟩ := exists_cons_of_ne_nil
    (l := hexDigits (W.bits / 4) x.toNat) (by cases W <;> simp [Width.bits, hexDigits])
  rw [hcs] at hvalue ⊢
  have hholds : (IntType.unsigned W).Holds (Int.ofNat x.toNat) := by
    simp [IntType.Holds, IntType.val]
  rw [numeral?, hvalue, Option.map_some, Option.bind_some, ofInt?, if_pos hholds]
  simp [ofInt]

end Scalar

/-! ## Constants -/

/-- An integer whose magnitude fits into its type. -/
lemma constant?_intTree {W : Width} (x : BitVec W.bits) (hx : x.toInt ≠ -2 ^ (W.bits - 1)) :
    (intTree x.toInt).constant? (.signed W) = some (.int ⟨.signed W, x⟩) := by
  have hbounds := And.intro x.le_toInt x.toInt_lt
  have hbits : BitVec.ofInt W.bits x.toInt = x := BitVec.ofInt_toInt
  generalize x.toInt = k at hx hbounds hbits
  subst hbits
  have hholds : ∀ j : Int, j.natAbs = k.natAbs → (IntType.signed W).Holds j := by
    intro j hj
    rw [IntType.holds_signed_iff]
    cases W <;> simp only [Width.bits] at hbounds hx ⊢ <;> omega
  have hlt : k.natAbs < 2 ^ 63 := by
    cases W <;> simp only [Width.bits] at hbounds hx <;> omega
  have hliteral := congrArg (Option.map Datum.int)
    (Scalar.literalIn?_toString hlt (hholds k.natAbs rfl))
  cases k with
  | ofNat k => exact hliteral
  | negSucc k =>
    have hnumber : (Tree.number (toString (k + 1))).constant? (.signed W) =
        some (.int (.ofInt (.signed W) (k + 1 : Nat))) := hliteral
    have hval : (Scalar.ofInt (.signed W) (k + 1 : Nat)).val = (k + 1 : Nat) := hholds _ rfl
    simp only [intTree, Tree.constant?.eq_3, hnumber, hval]
    exact congrArg (Option.map Datum.int) (if_pos (hholds (.negSucc k) rfl))

-- The magnitude of the least integer is no `int`.
example : (intTree Int32.minValue.toInt).constant? (.signed .w32) = none := by rfl

/-- A macro or function, applied to a constant. -/
lemma constant?_call {t t' : IntType} {f : String} {e : Tree} {d d' : Datum}
    (ht : (literalMacros.lookup f).getD t = t') (he : e.constant? t' = some d)
    (hf : constantCall? f [d] = some d') : (Tree.call (.name f) [e]).constant? t = some d' := by
  rw [Tree.constant?, ht, Tree.constants?, he]
  exact hf

lemma constant?_literalTree (v : Value) :
    (literalTree v).constant? (.signed .w32) = some (.ofValue v) := by
  cases v with
  | i32 v =>
    rw [literalTree]
    split
    · next h => subst h; rfl
    · next h =>
      exact constant?_intTree (W := .w32) v.toBitVec fun hv => h (Int32.toInt_inj.mp hv)
  | i64 v =>
    rw [literalTree]
    split
    · next h => subst h; rfl
    · next h =>
      have hx := constant?_intTree (W := .w64) v.toBitVec fun hv => h (Int64.toInt_inj.mp hv)
      exact constant?_call rfl hx rfl
  | f32 bits =>
    have hlist : ("0x" ++ hexFixed 8 bits.toNat ++ "u").toList =
        '0' :: 'x' :: hexDigits 8 bits.toNat ++ ['u'] := toList_hex ..
    refine constant?_call (d := .int ⟨.unsigned .w32, bits.toBitVec⟩) rfl ?_ rfl
    rw [Tree.constant?, Scalar.literalIn?, hlist, getLast?_concat, if_pos rfl, dropLast_concat]
    exact congrArg (Option.map Datum.int) (Scalar.numeral?_hexDigits (W := .w32) bits.toBitVec)
  | f64 bits =>
    have hlist : ("0x" ++ hexFixed 16 bits.toNat).toList =
        '0' :: 'x' :: hexDigits 16 bits.toNat := by
      simp [hexFixed]
    have hlast : ('0' :: 'x' :: hexDigits 16 bits.toNat).getLast? ≠ some 'u' := by
      have hall : ∀ d < 16, hexDigit d ≠ 'u' := by decide
      rw [hexDigits, ← cons_append, ← cons_append, getLast?_concat, hexDigit_mod]
      exact fun h => hall _ (Nat.mod_lt _ (by decide)) (Option.some.inj h)
    refine constant?_call (d := .int ⟨.unsigned .w64, bits.toBitVec⟩) rfl ?_ rfl
    refine constant?_call (d := .int ⟨.unsigned .w64, bits.toBitVec⟩) rfl ?_ rfl
    rw [Tree.constant?, Scalar.literalIn?, hlist, if_neg hlast]
    exact congrArg (Option.map Datum.int) (Scalar.numeral?_hexDigits (W := .w64) bits.toBitVec)

lemma Datum.ofValue_inj {u v : Value} (h : ofValue u = ofValue v) : u = v := by
  cases u <;> cases v <;> grind [ofValue, Int32.toBitVec_inj, Int64.toBitVec_inj]

/-- **The text of a constant denotes the constant** and nothing else, so that constants with equal
texts are equal. -/
theorem denotes_literal (v : Value) :
    (∀ d, Denotes (literal v) d ↔ d = .ofValue v) ∧ ∀ u, literal u = literal v ↔ u = v := by
  have hdenotes : ∀ u d, Denotes (literal u) d ↔ d = .ofValue u := by
    intro u d
    unfold Denotes
    simp only [(fitText_literal u).castText.parses_iff, exists_eq_left, constant?_literalTree,
      Option.some.injEq]
    exact eq_comm
  refine ⟨hdenotes v, fun u => ⟨fun h => ?_, fun h => h ▸ rfl⟩⟩
  exact Datum.ofValue_inj ((hdenotes v _).mp (h ▸ (hdenotes u _).mpr rfl))

end WasmToC.C

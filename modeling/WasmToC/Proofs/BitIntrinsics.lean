import Mathlib.Algebra.Ring.Nat
import Mathlib.Data.Nat.Find
import WasmToC.Proofs.IntegerMeaning
import WasmToC.Support.Machine

/-!
# Counting and rotating bits

The loops and shifts of the support library compute the counts and rotations of WebAssembly, at
every width. A loop is allowed as many rounds as there are bits, and that is enough: each round
takes one zero from the end, or one bit that is set.

## Main results

* `Support.leadingZeros_eq`, `Support.trailingZeros_eq`,
  `Support.popCount_eq` — the counts.
* `Support.rotateLeft_eq`, `Support.rotateRight_eq` — the rotations.
* `IntUnary.apply_function`, `apply_leftRotation`,
  `apply_rightRotation` — the functions of the support library on integers of either width.
* `counts_and_rotations` — all of them, with counts of either sign.
-/

namespace WasmToC

open BitVec Support

variable {W : Width}

namespace Support

variable {w : Nat} {p : Nat → Bool} {n : Nat} {x : BitVec w}

/-! ## Zeros at either end -/

lemma findIdx_range (hn : n < w) (hp : p n = true) (hb : ∀ i < n, p i = false) :
    (List.range w).findIdx p = n := by
  rw [List.findIdx_eq (by simpa using hn)]
  simpa [hp] using hb

lemma findIdx_range_of_forall (hp : ∀ i < w, p i = false) : (List.range w).findIdx p = w := by
  rw [List.findIdx_eq_length_of_false (by simpa using hp), List.length_range]

/-- A position that is found at all is found first somewhere. -/
lemma exists_first (h : ∃ i, p i = true) : ∃ n, p n = true ∧ ∀ i < n, p i = false :=
  ⟨Nat.find h, Nat.find_spec h, fun _ hi => Bool.eq_false_iff.mpr (Nat.find_min h hi)⟩

/-- A loop that looks at a bit and shifts counts the bits in front of the first one that is set. -/
lemma shiftLoop_eq (loop : Nat → BitVec w → Nat → Nat) {bit : BitVec w → Nat → Bool}
    {shift : BitVec w → BitVec w} (hloop : ∀ fuel x count,
      loop (fuel + 1) x count = if bit x 0 then count else loop fuel (shift x) (count + 1))
    (hshift : ∀ x i, bit (shift x) i = bit x (i + 1)) {fuel : Nat} (hfuel : n < fuel)
    (hn : bit x n = true) (hb : ∀ i < n, bit x i = false) (count : Nat) :
    loop fuel x count = count + n := by
  induction n generalizing fuel x count with
  | zero =>
    obtain ⟨fuel, rfl⟩ := Nat.exists_eq_succ_of_ne_zero (Nat.ne_of_gt hfuel)
    rw [hloop, hn, if_pos rfl, Nat.add_zero]
  | succ n ih =>
    obtain ⟨fuel, rfl⟩ := Nat.exists_eq_succ_of_ne_zero (Nat.ne_zero_of_lt hfuel)
    have hr : loop fuel (shift x) (count + 1) = count + 1 + n := by
      refine ih (by omega) (by rwa [hshift]) (fun i hi => ?_) (count + 1)
      rw [hshift]
      exact hb (i + 1) (by omega)
    rw [hloop, hb 0 (by omega), if_neg (by simp), hr]
    omega

/-- A loop that ends by itself with a count: whatever more rounds it is allowed change nothing. -/
def Stops (loop : Nat → BitVec w → Nat → Nat) (x : BitVec w) (n : Nat) : Prop :=
  ∀ fuel, n < fuel → loop fuel x 0 = n

lemma stops_leadingLoop (h : x ≠ 0#w) :
    leadingZeroBits x < w ∧ Stops leadingLoop x (leadingZeroBits x) := by
  obtain ⟨n, hn, hb⟩ := exists_first (p := x.getMsbD) (by
    by_contra hnone
    simp only [not_exists, Bool.not_eq_true] at hnone
    exact h (eq_of_getMsbD_eq fun i _ => by simp [hnone i]))
  have hw : n < w := lt_of_getMsbD hn
  rw [leadingZeroBits, findIdx_range hw hn hb]
  refine ⟨hw, fun fuel hfuel => ?_⟩
  rw [shiftLoop_eq leadingLoop (fun _ _ _ => rfl) (fun x i => by simp [getMsbD_shiftLeft])
    hfuel hn hb 0, Nat.zero_add]

lemma leadingZeroBits_zero : leadingZeroBits (0 : BitVec w) = w :=
  findIdx_range_of_forall (by simp)

/-- **Leading zeros are counted.** -/
theorem leadingZeros_eq (x : BitVec w) : leadingZeros x = leadingZeroBits x := by
  unfold leadingZeros
  split
  · next h => rw [h, leadingZeroBits_zero]
  · next h => exact (stops_leadingLoop h).2 w (stops_leadingLoop h).1

/-- A bit string that is not zero has a lowest bit that is set. -/
lemma exists_lowest (h : x ≠ 0#w) : ∃ n < w, x.getLsbD n = true ∧ ∀ i < n, x.getLsbD i = false := by
  obtain ⟨n, hn, hb⟩ := exists_first (p := x.getLsbD) (by
    by_contra hnone
    simp only [not_exists, Bool.not_eq_true] at hnone
    exact h (eq_of_getLsbD_eq fun i _ => by simp [hnone i]))
  exact ⟨n, lt_of_getLsbD hn, hn, hb⟩

lemma stops_trailingLoop (h : x ≠ 0#w) :
    trailingZeroBits x < w ∧ Stops trailingLoop x (trailingZeroBits x) := by
  obtain ⟨n, hw, hn, hb⟩ := exists_lowest h
  rw [trailingZeroBits, findIdx_range hw hn hb]
  refine ⟨hw, fun fuel hfuel => ?_⟩
  rw [shiftLoop_eq trailingLoop (fun _ _ _ => rfl) (fun x i => by simp [Nat.add_comm]) hfuel hn
    hb 0, Nat.zero_add]

lemma trailingZeroBits_zero : trailingZeroBits (0 : BitVec w) = w :=
  findIdx_range_of_forall (by simp)

/-- **Trailing zeros are counted.** -/
theorem trailingZeros_eq (x : BitVec w) : trailingZeros x = trailingZeroBits x := by
  unfold trailingZeros
  split
  · next h => rw [h, trailingZeroBits_zero]
  · next h => exact (stops_trailingLoop h).2 w (stops_trailingLoop h).1

/-! ## Bits that are set -/

/-- A number whose lowest bit that is set is at `n`. -/
lemma eq_of_lowest {x : Nat} (hn : x.testBit n = true) (hb : ∀ i < n, x.testBit i = false) :
    x = 2 ^ (n + 1) * (x / 2 ^ (n + 1)) + 2 ^ n := by
  have hmod : x % 2 ^ (n + 1) = 2 ^ n := by
    refine Nat.eq_of_testBit_eq fun i => ?_
    rw [Nat.testBit_mod_two_pow, Nat.testBit_two_pow]
    rcases Nat.lt_trichotomy i n with hi | rfl | hi
    · simp [hb i hi, Nat.ne_of_gt hi]
    · simp [hn]
    · simp [Nat.not_lt_of_le hi, Nat.ne_of_lt hi]
  rw [← hmod]
  exact (Nat.div_add_mod x _).symm

/-- Clearing the lowest bit that is set clears no other. -/
lemma testBit_and_pred {x : Nat} (hn : x.testBit n = true) (hb : ∀ i < n, x.testBit i = false)
    (i : Nat) : (x &&& (x - 1)).testBit i = (x.testBit i && decide (i ≠ n)) := by
  have hx := eq_of_lowest hn hb
  generalize x / 2 ^ (n + 1) = high at hx
  have hlt : 2 ^ n < 2 ^ (n + 1) := Nat.pow_lt_pow_right (by decide) (Nat.lt_succ_self n)
  have hpred : x - 1 = 2 ^ (n + 1) * high + (2 ^ n - 1) := by
    have hpos : 0 < 2 ^ n := Nat.pow_pos (by decide)
    omega
  rw [Nat.testBit_and, hpred, hx, Nat.testBit_two_pow_mul_add _ hlt,
    Nat.testBit_two_pow_mul_add _ (by omega)]
  split
  · rw [Nat.testBit_two_pow, Nat.testBit_two_pow_sub_one]
    rcases Nat.lt_trichotomy i n with hi | rfl | hi
    · simp [Nat.ne_of_gt hi]
    · simp
    · simp [Nat.ne_of_lt hi]
  · next hi =>
    have hne : i ≠ n := by omega
    simp [hne]

/-- One round of the loop takes one bit that is set. -/
lemma setBits_and_pred (hn : x.getLsbD n = true) (hb : ∀ i < n, x.getLsbD i = false) :
    setBits (x &&& (x - 1)) = (setBits x).erase n := by
  have hsub : (x - 1#w).toNat = x.toNat - 1 := by
    have hpos : 0 < x.toNat := by
      refine Nat.pos_of_ne_zero fun h => ?_
      rw [BitVec.getLsbD, h, Nat.zero_testBit] at hn
      simp at hn
    have hone : (1#w).toNat = 1 := by
      simp [Nat.zero_lt_of_lt (lt_of_getLsbD hn)]
    rw [toNat_sub_of_le (by rw [le_def]; omega), hone]
  ext i
  simp only [setBits, Finset.mem_filter, Finset.mem_erase, Finset.mem_range]
  rw [BitVec.getLsbD, toNat_and]
  change _ ∧ (x.toNat &&& (x - 1#w).toNat).testBit i = true ↔ _
  rw [hsub, testBit_and_pred hn hb]
  simp only [Bool.and_eq_true, decide_eq_true_eq, BitVec.getLsbD]
  tauto

/-- The loop counts the bits that are set, if it has as many rounds. -/
lemma popLoop_eq {fuel : Nat} (hfuel : (setBits x).card ≤ fuel) (count : Nat) :
    popLoop fuel x count = count + (setBits x).card := by
  induction fuel generalizing x count with
  | zero => rw [popLoop, Nat.le_zero.mp hfuel, Nat.add_zero]
  | succ fuel ih =>
    rw [popLoop]
    split
    · next h => simp [h, setBits]
    · next h =>
      obtain ⟨n, hw, hn, hb⟩ := exists_lowest h
      have hmem : n ∈ setBits x := by simp [setBits, hw, hn]
      have hcard := Finset.card_erase_add_one hmem
      rw [ih, setBits_and_pred hn hb]
      · omega
      · rw [setBits_and_pred hn hb]
        omega

/-- **Bits that are set are counted.** -/
theorem popCount_eq (x : BitVec w) : popCount x = (setBits x).card := by
  have hfuel : (setBits x).card ≤ w :=
    (Finset.card_filter_le _ _).trans (Nat.le_of_eq (Finset.card_range w))
  rw [popCount, popLoop_eq hfuel, Nat.zero_add]

/-! ## Rotations -/

section Rotations

variable (x c : BitVec W.bits)

/-- The width is a power of two, so that the mask is a remainder. -/
lemma toNat_masked : (masked c).toNat = c.toNat % W.bits := by
  cases W with
  | w32 => exact Nat.and_two_pow_sub_one_eq_mod c.toNat 5
  | w64 => exact Nat.and_two_pow_sub_one_eq_mod c.toNat 6

/-- What is left of the width behind a count is below it, unless there is no count. -/
lemma sub_masked_mod : (.ofNat W.bits W.bits - masked c).toNat % W.bits =
    if c.toNat % W.bits = 0 then 0 else W.bits - c.toNat % W.bits := by
  have hlt : c.toNat % W.bits < W.bits := Nat.mod_lt _ W.bits_pos
  rw [toNat_sub, toNat_masked, toNat_ofNat]
  generalize c.toNat % W.bits = k at hlt
  cases W <;> simp only [Width.bits] at hlt ⊢ <;> split <;> omega

/-- The counts by which a rotation shifts are below the width. -/
lemma shifts_defined (k : BitVec W.bits) : shiftLeft? x (masked k) = some (x <<< (masked k).toNat) ∧
      shiftRight? x (masked k) = some (x >>> (masked k).toNat) := by
  have hlt : (masked k).toNat < W.bits := by
    rw [toNat_masked]
    exact Nat.mod_lt _ W.bits_pos
  exact ⟨if_pos hlt, if_pos hlt⟩

/-- **Rotation to the left.** A count that is a multiple of the width leaves the bits where they
are. -/
theorem rotateLeft_eq : rotateLeft x c = some (x.rotateLeft c.toNat) := by
  simp only [rotateLeft, (shifts_defined x _).1, (shifts_defined x _).2, toNat_masked,
    sub_masked_mod, rotateLeft_def]
  split
  · next h => simp [h, ushiftRight_eq_zero]
  · rfl

/-- **Rotation to the right.** -/
theorem rotateRight_eq : rotateRight x c = some (x.rotateRight c.toNat) := by
  simp only [rotateRight, (shifts_defined x _).1, (shifts_defined x _).2, toNat_masked,
    sub_masked_mod, rotateRight_def]
  split
  · next h => simp [h, shiftLeft_eq_zero]
  · rfl

end Rotations

end Support

/-! ## Functions on integers -/

lemma word32_value (x : BitVec Width.w32.bits) : word32 (Width.w32.value x) = x :=
  (ofNat_toNat 32 x).trans (setWidth_eq x)

lemma word64_value (x : BitVec Width.w64.bits) : word64 (Width.w64.value x) = x :=
  (ofNat_toNat 64 x).trans (setWidth_eq x)

namespace IntUnary

/-- The loop of the support library that counts. -/
def loop {w : Nat} : IntUnary → BitVec w → Nat
  | clz => leadingZeros
  | ctz => trailingZeros
  | popcnt => popCount

/-- The function of the support library that counts. -/
def function : Width → IntUnary → Unary
  | .w32, clz => .i32Clz
  | .w32, ctz => .i32Ctz
  | .w32, popcnt => .i32Popcnt
  | .w64, clz => .i64Clz
  | .w64, ctz => .i64Ctz
  | .w64, popcnt => .i64Popcnt

lemma ofNat_loop {w : Nat} (op : IntUnary) (x : BitVec w) :
    BitVec.ofNat w (op.loop x) = op.apply x := by
  cases op with
  | clz => rw [loop, leadingZeros_eq, apply]
  | ctz => rw [loop, trailingZeros_eq, apply]
  | popcnt => rw [loop, popCount_eq, apply]

/-- **The support library counts.** -/
theorem apply_function (op : IntUnary) (x : BitVec W.bits) :
    (op.function W).apply (W.value x) = W.value (op.apply x) := by
  rw [← ofNat_loop]
  cases W with
  | w32 =>
    have hn : (op.function .w32).apply (Width.w32.value x) =
        countI32 (op.loop (word32 (Width.w32.value x))) := by cases op <;> rfl
    rw [hn, word32_value]
    rfl
  | w64 =>
    have hn : (op.function .w64).apply (Width.w64.value x) =
        countI64 (op.loop (word64 (Width.w64.value x))) := by cases op <;> rfl
    rw [hn, word64_value]
    rfl

end IntUnary

/-- The function of the support library that rotates to the left. -/
def leftRotation : Width → Binary
  | .w32 => .i32Rotl
  | .w64 => .i64Rotl

/-- The function of the support library that rotates to the right. -/
def rightRotation : Width → Binary
  | .w32 => .i32Rotr
  | .w64 => .i64Rotr

/-- **The support library rotates to the left.** -/
theorem apply_leftRotation (x y : BitVec W.bits) :
    (leftRotation W).apply (W.value x) (W.value y) = some (W.value (x.rotateLeft y.toNat)) := by
  have h := congrArg (Option.map W.value) (rotateLeft_eq x y)
  cases W with
  | w32 => rwa [leftRotation, Binary.apply, word32_value, word32_value]
  | w64 => rwa [leftRotation, Binary.apply, word64_value, word64_value]

/-- **The support library rotates to the right.** -/
theorem apply_rightRotation (x y : BitVec W.bits) :
    (rightRotation W).apply (W.value x) (W.value y) = some (W.value (x.rotateRight y.toNat)) := by
  have h := congrArg (Option.map W.value) (rotateRight_eq x y)
  cases W with
  | w32 => rwa [rightRotation, Binary.apply, word32_value, word32_value]
  | w64 => rwa [rightRotation, Binary.apply, word64_value, word64_value]

/-! ## Signed counts -/

/-- The width divides the number of counts, so a negative count is one below the width too. -/
lemma toInt_emod_bits (c : BitVec W.bits) : c.toInt % W.bits = (c.toNat % W.bits : Nat) := by
  have hc := toInt_eq_toNat_cond c
  cases W <;> simp only [Width.bits] at c hc ⊢ <;> omega

lemma getLsbD_rotateLeft_toNat (x c : BitVec W.bits) {i : Nat} (hi : i < W.bits) :
    (x.rotateLeft c.toNat).getLsbD i = x.getLsbD ((i - c.toInt) % W.bits).toNat := by
  have hk : c.toNat % W.bits < W.bits := Nat.mod_lt _ W.bits_pos
  rw [getLsbD_rotateLeft, ← Int.sub_emod_emod, toInt_emod_bits]
  generalize c.toNat % W.bits = k at hk
  by_cases hik : i < k
  · rw [← Int.add_emod_right, Int.emod_eq_of_lt (by omega) (by omega)]
    simp [hik, show ((i : Int) - k + W.bits).toNat = W.bits - k + i by omega]
  · rw [Int.emod_eq_of_lt (by omega) (by omega)]
    simp [hik, hi, show ((i : Int) - k).toNat = i - k by omega]

lemma getLsbD_rotateRight_toNat (x c : BitVec W.bits) {i : Nat} (hi : i < W.bits) :
    (x.rotateRight c.toNat).getLsbD i = x.getLsbD ((i + c.toInt) % W.bits).toNat := by
  have hk : c.toNat % W.bits < W.bits := Nat.mod_lt _ W.bits_pos
  rw [getLsbD_rotateRight, ← Int.add_emod_emod, toInt_emod_bits]
  generalize c.toNat % W.bits = k at hk
  by_cases hik : i < W.bits - k
  · rw [Int.emod_eq_of_lt (by omega) (by omega)]
    simp [hik, show ((i : Int) + k).toNat = k + i by omega]
  · rw [← Int.sub_emod_right, Int.emod_eq_of_lt (by omega) (by omega)]
    simp [hik, hi, show ((i : Int) + k - W.bits).toNat = i - (W.bits - k) by omega]

lemma rotateRight_rotateLeft (x c : BitVec W.bits) :
    (x.rotateLeft c.toNat).rotateRight c.toNat = x := by
  refine eq_of_getLsbD_eq fun i hi => ?_
  have hpos : (0 : Int) < W.bits := Int.natCast_pos.mpr W.bits_pos
  have hback : 0 ≤ ((i + c.toInt) % W.bits : Int) := Int.emod_nonneg _ (Int.ne_of_gt hpos)
  have hlt : ((i + c.toInt) % W.bits : Int) < W.bits := Int.emod_lt_of_pos _ hpos
  rw [getLsbD_rotateRight_toNat _ _ hi, getLsbD_rotateLeft_toNat _ _ (by omega),
    Int.toNat_of_nonneg hback, Int.emod_sub_emod, Int.add_sub_cancel,
    Int.emod_eq_of_lt (by omega) (by omega), Int.toNat_natCast]

/-- **Counting and rotating bits**, by the functions of the support library, at either width. The
loops end with the number of zeros at one end, or of bits that are set. A rotation takes each bit
from the place that lies the count away, modulo the width, whatever sign the count has. It has a
result, so that both of its shifts are by less than the width. Rotating back gives what was
there.

**Proof sketch.** Each loop is followed down to the first bit that is set, or to the last one. The
masks reduce a count, and what is left of the width behind it, below the width; then the bits of
the two shifts are compared with those of a rotation, place by place. -/
theorem counts_and_rotations (x c : BitVec W.bits) :
    ((IntUnary.clz.function W).apply (W.value x) = W.value (.ofNat _ (leadingZeroBits x)) ∧
      if x = 0 then leadingZeroBits x = W.bits
      else Support.Stops Support.leadingLoop x (leadingZeroBits x)) ∧
    ((IntUnary.ctz.function W).apply (W.value x) = W.value (.ofNat _ (trailingZeroBits x)) ∧
      if x = 0 then trailingZeroBits x = W.bits
      else Support.Stops Support.trailingLoop x (trailingZeroBits x)) ∧
    ((IntUnary.popcnt.function W).apply (W.value x) = W.value (.ofNat _ (setBits x).card) ∧
      Support.Stops Support.popLoop x (setBits x).card) ∧
    ∃ left right, (leftRotation W).apply (W.value x) (W.value c) = some (W.value left) ∧
      (rightRotation W).apply (W.value x) (W.value c) = some (W.value right) ∧
      (∀ i < W.bits, left.getLsbD i = x.getLsbD ((i - c.toInt) % W.bits).toNat ∧
        right.getLsbD i = x.getLsbD ((i + c.toInt) % W.bits).toNat) ∧
      (rightRotation W).apply (W.value left) (W.value c) = some (W.value x) := by
  refine ⟨⟨IntUnary.apply_function .clz x, ?_⟩, ⟨IntUnary.apply_function .ctz x, ?_⟩,
    ⟨IntUnary.apply_function .popcnt x, fun fuel hfuel => ?_⟩, _, _, apply_leftRotation x c,
    apply_rightRotation x c, ?_, ?_⟩
  · split
    · next h => rw [h]; exact Support.leadingZeroBits_zero
    · next h => exact (Support.stops_leadingLoop h).2
  · split
    · next h => rw [h]; exact Support.trailingZeroBits_zero
    · next h => exact (Support.stops_trailingLoop h).2
  · rw [Support.popLoop_eq (Nat.le_of_lt hfuel), Nat.zero_add]
  · exact fun i hi => ⟨getLsbD_rotateLeft_toNat x c hi, getLsbD_rotateRight_toNat x c hi⟩
  · rw [apply_rightRotation, rotateRight_rotateLeft]

/-- A rotation to the left by -33 takes the lowest bit to the top. -/
theorem counts_and_rotations_negative : ∃ left, (leftRotation .w32).apply (.i32 1) (.i32 (-33)) =
    some (Width.w32.value left) ∧ left.getLsbD 31 = true ∧ left.getLsbD 0 = false := by
  obtain ⟨-, -, -, left, right, hleft, -, hbits, -⟩ := @counts_and_rotations .w32 1 (-33)
  exact ⟨left, hleft, (hbits 31 (by decide)).1.trans (by decide),
    (hbits 0 (by decide)).1.trans (by decide)⟩

end WasmToC

import Mathlib.Algebra.Ring.Int.Defs
import Mathlib.Data.Nat.Digits.Defs
import WasmToC.Proofs.Reads

/-!
# The format of variable-length integers

Which byte strings the two readers accept, and what they do with all others. A varint of `bits`
bits has at most `⌈bits / 7⌉` bytes. All of them but the last ask for another one, their groups are
the digits of the value in base 128, and the value fits into the width. On every other input the
readers fail in one of two ways: the input ends while another byte is asked for and permitted, or
the permitted bytes are used up. A number may have several encodings; the one that is written is
the shortest.

Both readers go through the bytes in the same way and differ in how they put the groups together and
in which values fit. What follows from the way alone is proved once, for every reader of this kind.

## Main definitions

* `Varint.IsUnsigned`, `Varint.IsSigned` — a byte string is the encoding of a
  number.
* `Varint.Stepwise` — a family of readers that go from group to group.
* `Varint.Decides` — a result accepts exactly a format, and fails as it should elsewhere.

## Main results

* `Varint.Stepwise.decides` — readers that go from group to group accept exactly their
  format.
* `Varint.decides_unsigned_signed` — the two readers do, at every width.
* `Varint.Stepwise.shortest`, `Varint.length_written_le` — no encoding is shorter
  than the one that is written, and no other is as short.
-/

namespace WasmToC.Varint

open List

variable {bits : Nat} {b : UInt8} {bytes : List UInt8}

/-! ## The format -/

/-- The number of bytes that a varint of `bits` bits may have. -/
def maxLength (bits : Nat) : Nat := (bits + 6) / 7

/-- Every byte but the last asks for another one, and the last does not. -/
def Terminated (bytes : List UInt8) : Prop :=
  ∃ front last, bytes = front ++ [last] ∧ (∀ b ∈ front, continues b = true) ∧ continues last = false

/-- The input ends after fewer bytes than are permitted, all of which ask for another one. -/
def Unfinished (bits : Nat) (bytes : List UInt8) : Prop :=
  bytes.length < maxLength bits ∧ ∀ b ∈ bytes, continues b = true

/-- The sum of the groups of `bytes`, the one at position `i` times `128 ^ i`. -/
def magnitude (bytes : List UInt8) : Nat := Nat.ofDigits 128 (bytes.map group)

/-- The groups of `bytes` as one bit string, seven bits for each byte, extended by its sign. -/
def signExtended (bytes : List UInt8) : Int :=
  (BitVec.ofNat (7 * bytes.length) (magnitude bytes)).toInt

/-- The encodings of a number of `bits` bits, given what a byte string stands for and which numbers
fit. -/
structure Encodes {α : Type} (value : List UInt8 → α) (fits : Nat → α → Prop) (bits : Nat)
    (bytes : List UInt8) (v : α) : Prop where
  /-- No more bytes than the width permits. -/
  short : bytes.length ≤ maxLength bits
  /-- The last byte ends the number, and no earlier one. -/
  terminated : Terminated bytes
  /-- What the groups stand for. -/
  value_eq : v = value bytes
  /-- The number fits into the width. -/
  fits : fits bits v

/-- `bytes` are an encoding of the natural number `v` of `bits` bits. -/
def IsUnsigned : Nat → List UInt8 → Nat → Prop := Encodes magnitude fun bits v => v < 2 ^ bits

/-- `bytes` are an encoding of the integer `v` of `bits` bits. -/
def IsSigned : Nat → List UInt8 → Int → Prop :=
  Encodes signExtended fun bits v => -2 ^ (bits - 1) ≤ v ∧ v < 2 ^ (bits - 1)

/-- What a read of `bytes` comes to, if it accepts exactly the encodings `encodes`: a number with
the bytes behind its encoding, an early end, or a fault behind the last permitted byte. -/
structure Decides {α : Type} (encodes : List UInt8 → α → Prop) (bits : Nat) (bytes : List UInt8)
    (result : Except Error α × Source) : Prop where
  /-- A number is the answer after `n` bytes if and only if these are its encoding. -/
  accepts : ∀ n ≤ bytes.length, ∀ v,
    result = (.ok v, ⟨bytes.drop n, .clean⟩) ↔ encodes (bytes.take n) v
  /-- The end is unexpected if and only if another byte is asked for and permitted. -/
  ends : result.1 = .error .unexpectedEnd ↔ Unfinished bits bytes
  /-- Everything else is malformed, and all permitted bytes are gone. -/
  rejects : (∀ n ≤ bytes.length, ∀ v, ¬ encodes (bytes.take n) v) → ¬ Unfinished bits bytes →
    maxLength bits ≤ bytes.length ∧
      ∃ why, result = (.error (.malformed why), ⟨bytes.drop (maxLength bits), .clean⟩)

/-! ## Reading from group to group -/

/-- Readers, one for each width, that take one byte after the other. A byte that ends the number
decides by whether its group fits. One that asks for more is joined with what seven bits less
read, or is one too many. -/
structure Stepwise {α : Type} (read : Nat → Source → Except Error α × Source)
    (value : List UInt8 → α) (join : UInt8 → α → α) (fits : Nat → α → Prop) : Prop where
  /-- There is no byte. -/
  none : ∀ bits, read bits ⟨[], .clean⟩ = (.error .unexpectedEnd, ⟨[], .clean⟩)
  /-- A last byte whose group fits. -/
  last : ∀ {bits b} rest, continues b = false → fits bits (value [b]) →
    read bits ⟨b :: rest, .clean⟩ = (.ok (value [b]), ⟨rest, .clean⟩)
  /-- A last byte whose group does not fit. -/
  wide : ∀ {bits b} rest, continues b = false → ¬ fits bits (value [b]) →
    read bits ⟨b :: rest, .clean⟩ = (.error (.malformed .tooWide), ⟨rest, .clean⟩)
  /-- A byte behind which more are permitted. -/
  more : ∀ {bits b} rest, continues b = true → 7 < bits → read bits ⟨b :: rest, .clean⟩ =
      ((read (bits - 7) ⟨rest, .clean⟩).1.map (join b), (read (bits - 7) ⟨rest, .clean⟩).2)
  /-- A byte behind which no more are permitted. -/
  full : ∀ {bits b} rest, continues b = true → bits ≤ 7 →
    ∃ why, read bits ⟨b :: rest, .clean⟩ = (.error (.malformed why), ⟨rest, .clean⟩)
  /-- The value of a longer byte string. -/
  value_cons : ∀ b bytes, bytes ≠ [] → value (b :: bytes) = join b (value bytes)
  /-- A single group fits into more than seven bits. -/
  fits_group : ∀ {bits} b, 7 < bits → fits bits (value [b])
  /-- A joined value fits if what it is joined with fits into seven bits less. -/
  fits_join : ∀ {bits} b v, 7 < bits → (fits bits (join b v) ↔ fits (bits - 7) v)

lemma maxLength_pos (h : 1 ≤ bits) : 0 < maxLength bits := by
  unfold maxLength
  omega

lemma maxLength_of_le (h : 1 ≤ bits) (hle : bits ≤ 7) : maxLength bits = 1 := by
  unfold maxLength
  omega

lemma maxLength_sub (h : 7 < bits) : maxLength bits = maxLength (bits - 7) + 1 := by
  unfold maxLength
  omega

lemma not_terminated_nil : ¬ Terminated [] := by
  rintro ⟨front, last, h, -, -⟩
  simp at h

/-- A byte that ends a number, and is not all of it. -/
lemma not_terminated_of_last (hb : continues b = false) (h : bytes ≠ []) :
    ¬ Terminated (b :: bytes) := by
  rintro ⟨front, last, heq, hfront, -⟩
  cases front with
  | nil =>
    simp only [nil_append, List.cons.injEq] at heq
    exact h heq.2
  | cons b' front =>
    simp only [cons_append, List.cons.injEq] at heq
    rw [heq.1, hfront b' mem_cons_self] at hb
    simp at hb

/-- Behind a byte that asks for another one, the rest has to be terminated. -/
lemma terminated_cons_iff (hb : continues b = true) :
    Terminated (b :: bytes) ↔ Terminated bytes := by
  constructor
  · rintro ⟨front, last, heq, hfront, hlast⟩
    cases front with
    | nil =>
      simp only [nil_append, List.cons.injEq] at heq
      rw [heq.1, hlast] at hb
      simp at hb
    | cons b' front =>
      simp only [cons_append, List.cons.injEq] at heq
      exact ⟨front, last, heq.2, fun c hc => hfront c (mem_cons_of_mem _ hc), hlast⟩
  · rintro ⟨front, last, rfl, hfront, hlast⟩
    refine ⟨b :: front, last, rfl, ?_, hlast⟩
    intro c hc
    rcases mem_cons.1 hc with rfl | hc
    · exact hb
    · exact hfront c hc

lemma unfinished_cons_iff (hb : continues b = true) (h : 7 < bits) :
    Unfinished bits (b :: bytes) ↔ Unfinished (bits - 7) bytes := by
  simp [Unfinished, maxLength_sub h, hb]

/-- A byte string has at most one terminated beginning. -/
lemma Terminated.take_unique {n n' : Nat} (hn : n ≤ bytes.length) (hn' : n' ≤ bytes.length)
    (h : Terminated (bytes.take n)) (h' : Terminated (bytes.take n')) : n = n' := by
  induction bytes generalizing n n' with
  | nil =>
    rw [take_nil] at h
    exact absurd h not_terminated_nil
  | cons b bytes ih =>
    obtain _ | n := n
    · exact absurd h not_terminated_nil
    obtain _ | n' := n'
    · exact absurd h' not_terminated_nil
    rw [length_cons] at hn hn'
    rw [take_succ_cons] at h h'
    cases hb : continues b with
    | false =>
      -- the first byte ends both
      have hnil : ∀ k, k ≤ bytes.length → Terminated (b :: bytes.take k) → k = 0 := by
        intro k hk hterm
        by_contra hne
        refine not_terminated_of_last hb ?_ hterm
        rw [← length_pos_iff, length_take]
        omega
      rw [hnil n (by omega) h, hnil n' (by omega) h']
    | true =>
      rw [terminated_cons_iff hb] at h h'
      rw [ih (by omega) (by omega) h h']

/-- What begins with a terminated byte string does not ask for more at its end. -/
lemma Terminated.not_unfinished {n : Nat} (h : Terminated (bytes.take n)) :
    ¬ Unfinished bits bytes := by
  rintro ⟨-, hall⟩
  obtain ⟨front, last, heq, -, hlast⟩ := h
  have hmem : last ∈ bytes := mem_of_mem_take (heq ▸ mem_append_right front (by simp))
  rw [hall last hmem] at hlast
  simp at hlast

/-! ## What a read comes to -/

/-- The three ways in which a read of `bytes` can end. -/
inductive Ends {α : Type} (encodes : List UInt8 → α → Prop) (bits : Nat) (bytes : List UInt8) :
    Except Error α × Source → Prop
  | number {n : Nat} {v : α} (hn : n ≤ bytes.length) (h : encodes (bytes.take n) v) :
      Ends encodes bits bytes (.ok v, ⟨bytes.drop n, .clean⟩)
  | early (h : Unfinished bits bytes) :
      Ends encodes bits bytes (.error .unexpectedEnd, ⟨[], .clean⟩)
  | malformed (why : Malformed) (hlen : maxLength bits ≤ bytes.length)
      (h : ∀ n ≤ bytes.length, ∀ v, ¬ encodes (bytes.take n) v) (hall : ¬ Unfinished bits bytes) :
      Ends encodes bits bytes (.error (.malformed why), ⟨bytes.drop (maxLength bits), .clean⟩)

variable {α : Type} {value : List UInt8 → α} {fits : Nat → α → Prop}

/-- A read that ends in one of the three ways accepts exactly its format, because the number that
`bytes` begin with is unique. -/
lemma Ends.decides {result : Except Error α × Source}
    (h : Ends (Encodes value fits bits) bits bytes result) :
    Decides (Encodes value fits bits) bits bytes result := by
  cases h with
  | @number n v hn h =>
    have hfinished : ¬ Unfinished bits bytes := h.terminated.not_unfinished
    refine ⟨?_, by simp [hfinished], fun hnone => absurd h (hnone n hn v)⟩
    intro n' hn' v'
    simp only [Prod.mk.injEq, Except.ok.injEq, Source.mk.injEq, and_true]
    constructor
    · rintro ⟨rfl, hdrop⟩
      have hlen := congrArg List.length hdrop
      rw [length_drop, length_drop] at hlen
      rwa [show n' = n by omega]
    · intro h'
      obtain rfl := h.terminated.take_unique hn hn' h'.terminated
      exact ⟨h.value_eq.trans h'.value_eq.symm, rfl⟩
  | early h =>
    refine ⟨?_, by simp [h], fun _ hfinished => absurd h hfinished⟩
    intro n _ v
    exact ⟨by simp, fun h' => absurd h h'.terminated.not_unfinished⟩
  | malformed why hlen h hall =>
    refine ⟨?_, by simp [hall], fun _ _ => ⟨hlen, why, rfl⟩⟩
    intro n hn v
    exact ⟨by simp, fun h' => absurd h' (h n hn v)⟩

namespace Stepwise

variable {read : Nat → Source → Except Error α × Source} {join : UInt8 → α → α}
  (hs : Stepwise read value join fits)
include hs

/-- Behind a byte that asks for more, an encoding goes on with one of seven bits less. -/
lemma encodes_cons_iff (hbits : 7 < bits) (hb : continues b = true) (v : α) :
    Encodes value fits bits (b :: bytes) v ↔
      ∃ high, v = join b high ∧ Encodes value fits (bits - 7) bytes high := by
  have hne : Terminated bytes → bytes ≠ [] := by
    rintro hterm rfl
    exact not_terminated_nil hterm
  have hlen : (b :: bytes).length ≤ maxLength bits ↔ bytes.length ≤ maxLength (bits - 7) := by
    rw [length_cons, maxLength_sub hbits]
    omega
  constructor
  · rintro ⟨hshort, hterm, rfl, hfits⟩
    rw [terminated_cons_iff hb] at hterm
    rw [hs.value_cons b _ (hne hterm)] at hfits ⊢
    exact ⟨_, rfl, hlen.1 hshort, hterm, rfl, (hs.fits_join b _ hbits).1 hfits⟩
  · rintro ⟨high, rfl, hshort, hterm, rfl, hfits⟩
    exact ⟨hlen.2 hshort, (terminated_cons_iff hb).2 hterm,
      (hs.value_cons b _ (hne hterm)).symm, (hs.fits_join b _ hbits).2 hfits⟩

/-- The first byte ends the number. -/
lemma ends_last (hbits : 1 ≤ bits) (rest : List UInt8) (hb : continues b = false) :
    Ends (Encodes value fits bits) bits (b :: rest) (read bits ⟨b :: rest, .clean⟩) := by
  have hterm : Terminated ((b :: rest).take 1) := ⟨[], b, rfl, by simp, hb⟩
  by_cases hfits : fits bits (value [b])
  · rw [hs.last rest hb hfits]
    exact .number (n := 1) (by simp) ⟨maxLength_pos hbits, hterm, rfl, hfits⟩
  · rw [hs.wide rest hb hfits]
    -- a group that does not fit is in the last byte that is permitted
    have hle : bits ≤ 7 := Nat.le_of_not_lt fun h => hfits (hs.fits_group b h)
    have hmax := maxLength_of_le hbits hle
    have hnone : ∀ n ≤ (b :: rest).length, ∀ v,
        ¬ Encodes value fits bits ((b :: rest).take n) v := by
      intro n hn v h
      obtain rfl := h.terminated.take_unique hn (by simp) hterm
      rw [h.value_eq] at h
      exact hfits h.fits
    have hlen : maxLength bits ≤ (b :: rest).length := by simp [hmax]
    have hends := Ends.malformed .tooWide hlen hnone hterm.not_unfinished
    rwa [hmax, drop_succ_cons, drop_zero] at hends

/-- The first byte asks for another one, which is not permitted. -/
lemma ends_full (hbits : 1 ≤ bits) (hle : bits ≤ 7) (rest : List UInt8) (hb : continues b = true) :
    Ends (Encodes value fits bits) bits (b :: rest) (read bits ⟨b :: rest, .clean⟩) := by
  obtain ⟨why, hread⟩ := hs.full rest hb hle
  have hmax := maxLength_of_le hbits hle
  have hnone : ∀ n ≤ (b :: rest).length, ∀ v, ¬ Encodes value fits bits ((b :: rest).take n) v := by
    -- a single byte is permitted, and this one does not end a number
    rintro n - v ⟨hshort, hterm, -, -⟩
    obtain _ | n := n
    · exact not_terminated_nil hterm
    · rw [take_succ_cons, terminated_cons_iff hb] at hterm
      rw [take_succ_cons, length_cons, hmax] at hshort
      rw [eq_nil_of_length_eq_zero (by omega : (rest.take n).length = 0)] at hterm
      exact not_terminated_nil hterm
  have hlen : maxLength bits ≤ (b :: rest).length := by simp [hmax]
  have hends := Ends.malformed why hlen hnone fun h => Nat.not_lt_of_le hlen h.1
  rwa [hmax, drop_succ_cons, drop_zero, ← hread] at hends

/-- The first byte asks for another one, which is permitted: the read ends as that of the rest. -/
lemma ends_more (hbits : 7 < bits) {rest : List UInt8} (hb : continues b = true)
    (h : Ends (Encodes value fits (bits - 7)) (bits - 7) rest (read (bits - 7) ⟨rest, .clean⟩)) :
    Ends (Encodes value fits bits) bits (b :: rest) (read bits ⟨b :: rest, .clean⟩) := by
  rw [hs.more rest hb hbits]
  generalize read (bits - 7) ⟨rest, .clean⟩ = res at h
  cases h with
  | @number n v hn h =>
    refine .number (n := n + 1) (v := join b v) (by simpa using hn) ?_
    rw [take_succ_cons, hs.encodes_cons_iff hbits hb]
    exact ⟨v, rfl, h⟩
  | early h => exact .early ((unfinished_cons_iff hb hbits).2 h)
  | malformed why hlen h =>
    have hmax := maxLength_sub hbits
    have hnone : ∀ n ≤ (b :: rest).length, ∀ v,
        ¬ Encodes value fits bits ((b :: rest).take n) v := by
      intro n hn v henc
      obtain _ | n := n
      · exact not_terminated_nil henc.terminated
      · rw [take_succ_cons, hs.encodes_cons_iff hbits hb] at henc
        obtain ⟨high, -, henc⟩ := henc
        exact h n (by simpa using hn) high henc
    have hlen' : maxLength bits ≤ (b :: rest).length := by simpa [hmax] using hlen
    have hends := Ends.malformed why hlen' hnone (by rwa [unfinished_cons_iff hb hbits])
    rwa [hmax, drop_succ_cons] at hends

/-- **Readers that go from group to group accept exactly their format.**

**Proof sketch.** Induction along the bytes. A byte that asks for more is one too many when at
most seven bits are left, and otherwise leaves the same question for seven bits less. -/
theorem decides (hbits : 1 ≤ bits) (bytes : List UInt8) :
    Decides (Encodes value fits bits) bits bytes (read bits ⟨bytes, .clean⟩) := by
  refine Ends.decides ?_
  induction bytes generalizing bits with
  | nil =>
    rw [hs.none]
    exact .early ⟨maxLength_pos hbits, by simp⟩
  | cons b rest ih =>
    cases hb : continues b with
    | false => exact hs.ends_last hbits rest hb
    | true =>
      obtain hmore | hfull := Nat.lt_or_ge 7 bits
      · exact hs.ends_more hmore hb (ih (by omega))
      · exact hs.ends_full hbits hfull rest hb

end Stepwise

/-! ## The two readers -/

lemma magnitude_singleton (b : UInt8) : magnitude [b] = group b := by
  simp [magnitude]

lemma magnitude_cons (b : UInt8) (bytes : List UInt8) :
    magnitude (b :: bytes) = group b + 128 * magnitude bytes := by
  simp [magnitude, Nat.ofDigits_cons]

/-- Readers that go from group to group, and what a byte string stands for. -/
lemma Grouped.stepwise {α : Type} {read : Nat → Source → Except Error α × Source}
    {single : UInt8 → α} {join : UInt8 → α → α} {fits' : Nat → α → Bool} {value : List UInt8 → α}
    {fits : Nat → α → Prop} (h : Grouped read single join fits') (hone : ∀ b, value [b] = single b)
    (hcons : ∀ b bytes, bytes ≠ [] → value (b :: bytes) = join b (value bytes))
    (hfits : ∀ {bits v}, fits' bits v = true ↔ fits bits v) : Stepwise read value join fits where
  none bits := h.nil bits .clean
  last rest hb hv := by
    rw [hone, ← hfits] at hv
    simp [h.cons, hone, hv, hb]
  wide rest hb hv := by
    rw [hone, ← hfits] at hv
    simp [h.cons, hv]
  more {bits b} rest hb hbits := by
    rw [h.cons]
    simp [h.fits_value b hbits, hb, Nat.not_le_of_lt hbits]
  full rest hb hbits := by
    rw [h.cons]
    split
    · exact ⟨_, rfl⟩
    · exact ⟨.tooLong, by simp [hb]⟩
  value_cons := hcons
  fits_group b hbits := by
    rw [hone, ← hfits]
    exact h.fits_value b hbits
  fits_join b v hbits := by rw [← hfits, ← hfits, h.fits_join b v hbits]

lemma stepwise_unsigned :
    Stepwise unsigned magnitude (fun b high => group b + 128 * high) fun bits v => v < 2 ^ bits :=
  grouped_unsigned.stepwise magnitude_singleton (fun b bytes _ => magnitude_cons b bytes)
    decide_eq_true_iff

lemma magnitude_lt (bytes : List UInt8) : magnitude bytes < 2 ^ (7 * bytes.length) := by
  have h := Nat.ofDigits_lt_base_pow_length (b := 128) (l := bytes.map group) (by decide)
    (by simp [group_lt])
  rwa [length_map, show (128 : Nat) = 2 ^ 7 from rfl, ← Nat.pow_mul] at h

/-- A bit string stands for a negative number if its highest bit is set. -/
lemma signExtended_eq (bytes : List UInt8) : signExtended bytes =
      if 2 * magnitude bytes < 2 ^ (7 * bytes.length) then (magnitude bytes : Int)
      else (magnitude bytes : Int) - (2 ^ (7 * bytes.length) : Nat) := by
  rw [signExtended, BitVec.toInt, BitVec.toNat_ofNat, Nat.mod_eq_of_lt (magnitude_lt bytes)]

lemma signExtended_singleton (b : UInt8) : signExtended [b] = signedGroup b := by
  have hgroup := group_lt b
  rw [signExtended_eq, magnitude_singleton, signedGroup, length_singleton]
  split <;> split <;> omega

/-- The sign is in the highest group, so that lower groups are added to what the higher ones stand
for. -/
lemma signExtended_cons (b : UInt8) (h : bytes ≠ []) :
    signExtended (b :: bytes) = group b + 128 * signExtended bytes := by
  have hgroup := group_lt b
  have hlen : 0 < bytes.length := length_pos_iff.2 h
  have hpow : 2 ^ (7 * (b :: bytes).length) = 128 * 2 ^ (7 * bytes.length) := by
    rw [two_pow_of_seven_le (by rw [length_cons]; omega)]
    congr 2
  obtain ⟨half, heven⟩ : ∃ half, 2 ^ (7 * bytes.length) = 2 * half :=
    ⟨2 ^ (7 * bytes.length - 1), by rw [← Nat.pow_succ']; congr 1; omega⟩
  rw [signExtended_eq, signExtended_eq, magnitude_cons, hpow, heven]
  split <;> split <;> push_cast <;> omega

/-- The signed reader goes from group to group. -/
lemma stepwise_signed :
    Stepwise signed signExtended (fun b high => (group b : Int) + 128 * high) fun bits v =>
      -2 ^ (bits - 1) ≤ v ∧ v < 2 ^ (bits - 1) :=
  grouped_signed.stepwise signExtended_singleton (fun b _ => signExtended_cons b) fitsSigned_iff

/-- **The readers accept exactly their format.** At every width and for every byte string, a number
is read from the first `n` bytes if and only if these are its encoding; the end of the input is
unexpected if and only if it comes after fewer bytes than are permitted, all of which ask for
another one; and whatever is left is malformed, with exactly the permitted bytes read. -/
theorem decides_unsigned_signed (bits : Nat) (hbits : 1 ≤ bits) (bytes : List UInt8) :
    Decides (IsUnsigned bits) bits bytes (unsigned bits ⟨bytes, .clean⟩) ∧
      Decides (IsSigned bits) bits bytes (signed bits ⟨bytes, .clean⟩) :=
  ⟨stepwise_unsigned.decides hbits bytes, stepwise_signed.decides hbits bytes⟩

/-- Five bytes at a width of 32: all ones in the last of them are a negative number, and too much
for a natural number. -/
theorem decides_unsigned_signed_fiveBytes :
    Decides (IsUnsigned 32) 32 [0x80, 0x80, 0x80, 0x80, 0x7F]
        (unsigned 32 ⟨[0x80, 0x80, 0x80, 0x80, 0x7F], .clean⟩) ∧
      Decides (IsSigned 32) 32 [0x80, 0x80, 0x80, 0x80, 0x7F]
        (signed 32 ⟨[0x80, 0x80, 0x80, 0x80, 0x7F], .clean⟩) :=
  decides_unsigned_signed 32 (by decide) [0x80, 0x80, 0x80, 0x80, 0x7F]

/-! ## Shortest encodings -/

namespace Stepwise

variable {read : Nat → Source → Except Error α × Source} {join : UInt8 → α → α}
  {write : α → List UInt8}

/-- **What is written is the shortest encoding**, and the only one of its length. Written numbers
are given from group to group as well: a group in front of a number is the byte in front of what is
written for the number, or there is a single byte for both.

**Proof sketch.** Induction along the bytes. Where one byte is written for several groups, less is
written than was read. -/
theorem shortest (hs : Stepwise read value join fits)
    (hlast : ∀ b, continues b = false → write (value [b]) = [b])
    (hmore : ∀ b v, continues b = true →
      write (join b v) = b :: write v ∨ (write (join b v)).length = 1) (h : Terminated bytes) :
    (write (value bytes)).length ≤ bytes.length ∧
      ((write (value bytes)).length = bytes.length ↔ bytes = write (value bytes)) := by
  induction bytes with
  | nil => exact absurd h not_terminated_nil
  | cons b bytes ih =>
    cases hb : continues b with
    | false =>
      have hnil : bytes = [] := by
        by_contra hne
        exact not_terminated_of_last hb hne h
      rw [hnil, hlast b hb]
      simp
    | true =>
      rw [terminated_cons_iff hb] at h
      have hne : bytes ≠ [] := by
        rintro rfl
        exact not_terminated_nil h
      have hpos := length_pos_iff.2 hne
      obtain ⟨hle, hiff⟩ := ih h
      rw [hs.value_cons b bytes hne]
      obtain hwrite | hwrite := hmore b (value bytes) hb
      · rw [hwrite, length_cons, length_cons, Nat.add_right_cancel_iff, List.cons.injEq]
        exact ⟨Nat.succ_le_succ hle, hiff.trans (iff_and_self.2 fun _ => rfl)⟩
      · rw [hwrite, length_cons]
        refine ⟨by omega, by omega, fun heq => ?_⟩
        rw [← heq, length_cons] at hwrite
        omega

end Stepwise

lemma ofNat_group (hb : continues b = false) : UInt8.ofNat (group b) = b := by
  have hlt : b.toNat < 128 := by simpa [continues] using hb
  rw [group, Nat.mod_eq_of_lt hlt, UInt8.ofNat_toNat]

/-- A byte that asks for another one is its group and the high bit. -/
lemma ofNat_group_add (hb : continues b = true) : UInt8.ofNat (group b + 128) = b := by
  have hle : 128 ≤ b.toNat := by simpa [continues] using hb
  have hlt := b.toNat_lt
  rw [group, show b.toNat % 128 + 128 = b.toNat by omega, UInt8.ofNat_toNat]

/-- **Natural numbers are written from group to group.** -/
theorem writeUnsigned_join (v : Nat) (hb : continues b = true) :
    writeUnsigned (group b + 128 * v) = b :: writeUnsigned v ∨
      (writeUnsigned (group b + 128 * v)).length = 1 := by
  have hgroup := group_lt b
  rw [writeUnsigned]
  split
  · exact .inr rfl
  · left
    rw [show (group b + 128 * v) % 128 = group b by omega,
      show (group b + 128 * v) / 128 = v by omega, ofNat_group_add hb]

/-- **Integers are written from group to group.** -/
theorem writeSigned_join (v : Int) (hb : continues b = true) :
    writeSigned (group b + 128 * v) = b :: writeSigned v ∨
      (writeSigned (group b + 128 * v)).length = 1 := by
  have hgroup := group_lt b
  rw [writeSigned]
  split
  · exact .inr rfl
  · left
    rw [show ((group b : Int) + 128 * v) % 128 = group b by omega,
      show ((group b : Int) + 128 * v) / 128 = v by omega, Int.toNat_natCast, ofNat_group_add hb]

lemma writeUnsigned_last (hb : continues b = false) : writeUnsigned (magnitude [b]) = [b] := by
  rw [magnitude_singleton, writeUnsigned, if_pos (group_lt b), ofNat_group hb]

lemma writeSigned_last (hb : continues b = false) : writeSigned (signExtended [b]) = [b] := by
  have hgroup := group_lt b
  have hmod : signedGroup b % 128 = group b := by
    unfold signedGroup
    split <;> omega
  rw [signExtended_singleton, writeSigned, if_pos (signedGroup_bounds b), hmod, Int.toNat_natCast,
    ofNat_group hb]

/-- **What is written is the shortest encoding.** Wherever a number is read from the first `n`
bytes, at any width, no more than `n` bytes are written for it; and `n` bytes are written if and
only if they are those that were read. -/
theorem length_written_le (bits : Nat) (hbits : 1 ≤ bits) (bytes : List UInt8) (n : Nat)
    (hn : n ≤ bytes.length) :
    (∀ v, unsigned bits ⟨bytes, .clean⟩ = (.ok v, ⟨bytes.drop n, .clean⟩) →
      (writeUnsigned v).length ≤ n ∧
        ((writeUnsigned v).length = n ↔ bytes.take n = writeUnsigned v)) ∧
    (∀ v, signed bits ⟨bytes, .clean⟩ = (.ok v, ⟨bytes.drop n, .clean⟩) →
      (writeSigned v).length ≤ n ∧
        ((writeSigned v).length = n ↔ bytes.take n = writeSigned v)) := by
  have hlen : (bytes.take n).length = n := length_take_of_le hn
  refine ⟨fun v hread => ?_, fun v hread => ?_⟩
  · obtain ⟨-, hterm, rfl, -⟩ := ((stepwise_unsigned.decides hbits bytes).accepts n hn v).1 hread
    have hshort := stepwise_unsigned.shortest (fun _ => writeUnsigned_last)
      (fun _ => writeUnsigned_join) hterm
    rwa [hlen] at hshort
  · obtain ⟨-, hterm, rfl, -⟩ := ((stepwise_signed.decides hbits bytes).accepts n hn v).1 hread
    have hshort := stepwise_signed.shortest (fun _ => writeSigned_last)
      (fun _ => writeSigned_join) hterm
    rwa [hlen] at hshort

/-- Three bytes that are read as `-1` with a width of 32, where one is written; and one byte that is
read as `2`, which is what is written. -/
theorem length_written_le_padded :
    (signed 32 ⟨[0xFF, 0xFF, 0x7F, 0x00], .clean⟩ = (.ok (-1), ⟨[0x00], .clean⟩) ∧
      (writeSigned (-1)).length ≤ 3 ∧
      ((writeSigned (-1)).length = 3 ↔ [0xFF, 0xFF, 0x7F] = writeSigned (-1))) ∧
    (unsigned 32 ⟨[0x02], .clean⟩ = (.ok 2, ⟨[], .clean⟩) ∧ (writeUnsigned 2).length ≤ 1 ∧
      ((writeUnsigned 2).length = 1 ↔ [0x02] = writeUnsigned 2)) := by
  have hsigned : signed 32 ⟨[0xFF, 0xFF, 0x7F, 0x00], .clean⟩ = (.ok (-1), ⟨[0x00], .clean⟩) := by
    decide +kernel
  have hunsigned : unsigned 32 ⟨[0x02], .clean⟩ = (.ok 2, ⟨[], .clean⟩) := by decide +kernel
  exact ⟨⟨hsigned,
    (length_written_le 32 (by decide) [0xFF, 0xFF, 0x7F, 0x00] 3 (by decide)).2 _ hsigned⟩,
    hunsigned, (length_written_le 32 (by decide) [0x02] 1 (by decide)).1 _ hunsigned⟩

end WasmToC.Varint

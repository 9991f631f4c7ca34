import Mathlib.Algebra.Ring.Int.Defs
import Mathlib.Algebra.Ring.Nat
import WasmToC.Binary.Decode

/-!
# Reading what was written

A reader *reads* a byte string as a value when it takes exactly these bytes off the front of every
source that starts with them, whatever comes behind. Said this way, two readers in sequence read
two byte strings in sequence, and nothing has to be known about the bytes that follow. The
primitives of the binary format come with their byte strings: variable-length integers, fixed-width
numbers, and text.

## Main definitions

* `Reader.Reads` — a reader takes exactly these bytes, and answers this value.
* `Decoder.Decodes` — the same of a decoder, whatever it logs.

## Main results

* `Varint.read_written` — an integer that is written is read as the same integer, at every width
  that holds it and whatever follows.
* `Utf8.decode_encode` — the bytes of a text are decoded as this text.
* `Decoder.decodes_within` — a decoder inside a declared length leaves nothing unread when
  the length is that of its bytes.
* `Decoder.decodes_iterate` — a repeated step reads the encodings of a list, one after the
  other.
-/

namespace WasmToC

open List UInt8

variable {α β σ : Type} {bs : List UInt8} {bits n : Nat} {r : Reader α} {a : α}

/-! ## Reading and decoding, whatever comes behind -/

/-- A reader takes exactly `bs` off the front of every source that starts with them, and answers
`a`. -/
def Reader.Reads {α : Type} (r : Reader α) (bs : List UInt8) (a : α) : Prop :=
  ∀ rest e, r ⟨bs ++ rest, e⟩ = .ok (a, ⟨rest, e⟩)

/-- A decoder takes exactly `bs` off the front of every source that starts with them, and answers
`a`. -/
def Decoder.Decodes {α : Type} (d : Decoder α) (bs : List UInt8) (a : α) : Prop :=
  ∀ rest e, (d ⟨bs ++ rest, e⟩).outcome = .ok (a, ⟨rest, e⟩)

namespace Reader

lemma reads_pure (a : α) : Reads (pure a) [] a := fun _ _ => rfl

/-- Readers in sequence read byte strings in sequence. -/
lemma Reads.bind {k : α → Reader β} {bs' : List UInt8} {b : β} (hr : Reads r bs a)
    (hk : Reads (k a) bs' b) : Reads (r >>= k) (bs ++ bs') b := by
  intro rest e
  have hfirst := hr (bs' ++ rest) e
  rw [append_assoc]
  change (r ⟨bs ++ (bs' ++ rest), e⟩).bind (fun p => k p.1 p.2) = _
  rw [hfirst]
  exact hk rest e

lemma Reads.andThen {k : α → Reader β} {b : β} (hr : Reads r bs a) (hk : Reads (k a) [] b) :
    Reads (r >>= k) bs b := by
  have h := hr.bind hk
  rwa [append_nil] at h

lemma Reads.andNothing (hr : Reads r bs a) : Reads r (bs ++ []) a := by
  rwa [append_nil]

lemma Reads.map (f : α → β) (hr : Reads r bs a) :
    Reads (do return f (← r)) bs (f a) := hr.andThen (reads_pure (f a))

lemma reads_byte (b : UInt8) : Reads byte [b] b := fun _ _ => rfl

/-- A list of values is read from their byte strings, one after the other. -/
lemma reads_many {r : Reader α} {enc : α → List UInt8} :
    ∀ {xs : List α}, (∀ x ∈ xs, Reads r (enc x) x) → Reads (many r xs.length) (xs.flatMap enc) xs
  | [], _ => reads_pure []
  | x :: xs, h => by
    have hothers := reads_many fun y hy => h y (mem_cons_of_mem x hy)
    exact (h x mem_cons_self).bind (hothers.map (x :: ·))

lemma reads_bytes (bs : List UInt8) : Reads (bytes bs.length) bs bs := by
  intro rest e
  simp [bytes, Source.take]

end Reader

namespace Decoder

open Reader (Reads)

variable {d : Decoder α}

lemma decodes_pure (a : α) : Decodes (pure a) [] a := fun _ _ => rfl

/-- What comes behind a decoder goes on with its value, where its bytes end. -/
lemma Decodes.outcome_bind (hd : Decodes d bs a) (k : α → Decoder β) (rest : List UInt8)
    (e : Ending) :
    ((d >>= k) ⟨bs ++ rest, e⟩).outcome = (k a ⟨rest, e⟩).outcome := by
  change (d ⟨bs ++ rest, e⟩ >>= fun p => k p.1 p.2).outcome = _
  rw [Traced.outcome_bind, hd rest e]
  rfl

lemma Decodes.bind {k : α → Decoder β} {bs' : List UInt8} {b : β} (hd : Decodes d bs a)
    (hk : Decodes (k a) bs' b) : Decodes (d >>= k) (bs ++ bs') b := by
  intro rest e
  rw [append_assoc, hd.outcome_bind]
  exact hk rest e

lemma Decodes.andThen {k : α → Decoder β} {b : β} (hd : Decodes d bs a) (hk : Decodes (k a) [] b) :
    Decodes (d >>= k) bs b := by
  have h := hd.bind hk
  rwa [append_nil] at h

lemma Decodes.map (f : α → β) (hd : Decodes d bs a) :
    Decodes (do return f (← d)) bs (f a) := hd.andThen (decodes_pure (f a))

lemma Decodes.of_if_neg {c : Prop} [Decidable c] {e : Decoder α} (hc : ¬ c) (he : Decodes e bs a) :
    Decodes (if c then d else e) bs a := by
  rwa [if_neg hc]

lemma Decodes.of_if_pos {c : Prop} [Decidable c] {e : Decoder α} (hc : c) (hd : Decodes d bs a) :
    Decodes (if c then d else e) bs a := by
  rwa [if_pos hc]

lemma decodes_of_reads (hr : Reads r bs a) : Decodes (liftM r) bs a := fun rest e => hr rest e

lemma decodes_note (level : Level) (text : String) : Decodes (note level text) [] () :=
  fun _ _ => rfl

/-- What happens to errors does not matter where there is none. -/
lemma Decodes.mapError (f : Error → Error) (hd : Decodes d bs a) : Decodes (d.mapError f) bs a := by
  intro rest e
  change ((d ⟨bs ++ rest, e⟩).outcome).mapError _ = _
  rw [hd rest e]
  rfl

/-- **Inside a declared length.** When the length is that of the bytes a decoder takes, nothing is
left unread, and what comes behind the region is untouched. -/
theorem decodes_within (hd : Decodes d bs a) : Decodes (within bs.length d) bs (a, 0) := by
  intro rest e
  have hregion : (⟨bs ++ rest, e⟩ : Source).region bs.length = ⟨bs ++ [], .clean⟩ := by
    simp [Source.region]
  change ((d ((⟨bs ++ rest, e⟩ : Source).region bs.length)) >>= _ : Traced _).outcome = _
  rw [Traced.outcome_bind, hregion, hd [] .clean]
  simp [Except.bind, Source.unread, Source.leave]

/-- **Repeated steps.** A step that turns the state of a list's beginning into that of a beginning
longer by one, reading the encoding of the next element, reads the encodings of the whole list when
it is repeated.

**Proof sketch.** Induction on what is still to come, with the beginning as a parameter. -/
theorem decodes_iterate {step : σ → Decoder σ} {enc : α → List UInt8} (state : List α → σ)
    (xs : List α)
    (h : ∀ pre x post, xs = pre ++ x :: post →
      Decodes (step (state pre)) (enc x) (state (pre ++ [x]))) :
    Decodes (iterate step xs.length (state [])) (xs.flatMap enc) (state xs) := by
  suffices hgo : ∀ post pre, xs = pre ++ post →
      Decodes (iterate step post.length (state pre)) (post.flatMap enc) (state xs) from
    hgo xs [] rfl
  intro post
  induction post with
  | nil =>
    intro pre hxs
    rw [hxs, append_nil]
    exact decodes_pure _
  | cons x post ih =>
    intro pre hxs
    have hrest := ih (pre ++ [x]) (by rw [hxs, append_assoc]; rfl)
    exact (h pre x post hxs).bind hrest

end Decoder

/-! ## Variable-length integers -/

namespace Varint

lemma group_ofNat (h : n < 256) : group (ofNat n) = n % 128 := by
  unfold group
  rw [toNat_ofNat_of_lt' (show n < size from h)]

lemma continues_ofNat (h : n < 256) : continues (ofNat n) = decide (128 ≤ n) := by
  unfold continues
  rw [toNat_ofNat_of_lt' (show n < size from h)]

lemma group_lt (b : UInt8) : group b < 128 := Nat.mod_lt _ (by decide)

/-- A group with its sign. -/
lemma signedGroup_bounds (b : UInt8) : -64 ≤ signedGroup b ∧ signedGroup b < 64 := by
  have hgroup := group_lt b
  unfold signedGroup
  split <;> omega

lemma two_pow_of_seven_le (h : 7 ≤ bits) : 2 ^ bits = 128 * 2 ^ (bits - 7) := by
  rw [show (128 : Nat) = 2 ^ 7 from rfl, ← Nat.pow_add]
  congr 1
  omega

/-- Half the range of a width, with seven bits less split off. -/
lemma two_pow_pred_of_seven_lt (h : 7 < bits) :
    (2 : Int) ^ (bits - 1) = 128 * 2 ^ (bits - 7 - 1) := by
  rw [show (128 : Int) = 2 ^ 7 from rfl, ← pow_add]
  congr 1
  omega

/-- Fitting into `bits` bits, by the two bounds. -/
lemma fitsSigned_iff {v : Int} :
    fitsSigned bits v = true ↔ -2 ^ (bits - 1) ≤ v ∧ v < 2 ^ (bits - 1) := by
  have hhalf : ((Nat.pow 2 (bits - 1) : Nat) : Int) = 2 ^ (bits - 1) := by
    rw [Nat.pow_eq, Int.natCast_pow]
    rfl
  simp only [fitsSigned, Bool.and_eq_true, decide_eq_true_eq, hhalf]
  exact And.comm

/-- Readers, one for each width, that go from group to group. The group of the first byte has to
fit. A byte that asks for another one is joined with what seven bits less read. -/
structure Grouped {α : Type} (read : Nat → Source → Except Error α × Source) (value : UInt8 → α)
    (join : UInt8 → α → α) (fits : Nat → α → Bool) : Prop where
  /-- There is no byte. -/
  nil : ∀ bits ending, read bits ⟨[], ending⟩ = (.error (.ofEnding ending), ⟨[], ending⟩)
  /-- There is a byte. -/
  cons : ∀ bits b rest ending, read bits ⟨b :: rest, ending⟩ =
    if !fits bits (value b) then (.error (.malformed .tooWide), ⟨rest, ending⟩)
    else if !continues b then (.ok (value b), ⟨rest, ending⟩)
    else if bits ≤ 7 then (.error (.malformed .tooLong), ⟨rest, ending⟩)
    else ((read (bits - 7) ⟨rest, ending⟩).1.map (join b), (read (bits - 7) ⟨rest, ending⟩).2)
  /-- A single group fits into more than seven bits. -/
  fits_value : ∀ {bits} b, 7 < bits → fits bits (value b) = true
  /-- A joined value fits if what it is joined with fits into seven bits less. -/
  fits_join : ∀ {bits} b v, 7 < bits → fits bits (join b v) = fits (bits - 7) v

lemma grouped_unsigned :
    Grouped unsigned group (fun b high => group b + 128 * high) fun bits v => v < 2 ^ bits where
  nil bits ending := by rw [unsigned]; rfl
  cons bits b rest ending := by
    rw [unsigned]
    simp only [Source.next, ← decide_not, Nat.not_lt, decide_eq_true_eq]
    rcases unsigned (bits - 7) ⟨rest, ending⟩ with ⟨_ | _, _⟩ <;> rfl
  fits_value {bits} b hbits := by
    have hgroup := group_lt b
    have hpos : 0 < 2 ^ (bits - 7) := Nat.pow_pos (by decide)
    rw [decide_eq_true_eq, two_pow_of_seven_le (Nat.le_of_lt hbits)]
    omega
  fits_join {bits} b v hbits := by
    have hgroup := group_lt b
    rw [decide_eq_decide, two_pow_of_seven_le (Nat.le_of_lt hbits)]
    omega

lemma grouped_signed :
    Grouped signed signedGroup (fun b high => (group b : Int) + 128 * high) fitsSigned where
  nil bits ending := by rw [signed]; rfl
  cons bits b rest ending := by
    rw [signed]
    simp only [Source.next]
    rcases signed (bits - 7) ⟨rest, ending⟩ with ⟨_ | _, _⟩ <;> rfl
  fits_value {bits} b hbits := by
    obtain ⟨hlow, hhigh⟩ := signedGroup_bounds b
    have hpos : (0 : Int) < 2 ^ (bits - 7 - 1) := Int.pow_pos (by decide)
    rw [fitsSigned_iff, two_pow_pred_of_seven_lt hbits]
    omega
  fits_join {bits} b v hbits := by
    have hgroup := group_lt b
    rw [Bool.eq_iff_iff, fitsSigned_iff, fitsSigned_iff, two_pow_pred_of_seven_lt hbits]
    omega

/-- **Round trip.** What is written for a number that fits is read as this number, if it is written
from group to group.

**Proof sketch.** Induction on the width. The upper part of a number that fits fits into seven
bits less. -/
theorem Grouped.read_write {α : Type} {read : Nat → Source → Except Error α × Source}
    {value : UInt8 → α} {join : UInt8 → α → α} {fits : Nat → α → Bool} {write : α → List UInt8}
    (h : Grouped read value join fits)
    (hwrite : ∀ v, (∃ b, write v = [b] ∧ continues b = false ∧ value b = v) ∨
      ∃ b high, write v = b :: write high ∧ continues b = true ∧ join b high = v ∧
        ∀ bits, fits bits v = true → 7 < bits) {v : α} (hfits : fits bits v = true)
    (rest : List UInt8) (e : Ending) :
    read bits ⟨write v ++ rest, e⟩ = (.ok v, ⟨rest, e⟩) := by
  induction bits using Nat.strongRecOn generalizing v with
  | ind bits ih =>
    obtain ⟨b, hb, hlast, rfl⟩ | ⟨b, high, hb, hmore, rfl, hwide⟩ := hwrite v
    · rw [hb, singleton_append, h.cons]
      simp [hfits, hlast]
    · have hbits := hwide bits hfits
      have hhigh := ih (bits - 7) (by omega) ((h.fits_join b high hbits).symm.trans hfits)
      rw [hb, cons_append, h.cons, hhigh]
      simp [h.fits_value b hbits, hmore, Nat.not_le_of_lt hbits, Except.map]

lemma unsigned_writeUnsigned (v bits : Nat) (h : v < 2 ^ bits) (rest : List UInt8) (e : Ending) :
    unsigned bits ⟨writeUnsigned v ++ rest, e⟩ = (.ok v, ⟨rest, e⟩) := by
  refine grouped_unsigned.read_write (fun v => ?_) (decide_eq_true h) rest e
  rw [writeUnsigned]
  split
  · rename_i hv
    refine .inl ⟨_, rfl, ?_, ?_⟩
    · rw [continues_ofNat (by omega)]
      simpa using hv
    · rw [group_ofNat (by omega), Nat.mod_eq_of_lt hv]
  · rename_i hv
    refine .inr ⟨_, _, rfl, ?_, ?_, fun bits hfits => Nat.lt_of_not_le fun hle => ?_⟩
    · rw [continues_ofNat (by omega)]
      simp
    · rw [group_ofNat (by omega)]
      omega
    · have := Nat.pow_le_pow_right (show 0 < 2 by decide) hle
      rw [decide_eq_true_eq] at hfits
      omega

lemma signed_writeSigned (v : Int) (bits : Nat) (h : fitsSigned bits v = true)
    (rest : List UInt8) (e : Ending) :
    signed bits ⟨writeSigned v ++ rest, e⟩ = (.ok v, ⟨rest, e⟩) := by
  refine grouped_signed.read_write (fun v => ?_) h rest e
  rw [writeSigned]
  split
  · rename_i hv
    refine .inl ⟨_, rfl, ?_, ?_⟩
    · rw [continues_ofNat (by omega)]
      simp
      omega
    · rw [signedGroup, group_ofNat (by omega)]
      split <;> omega
  · rename_i hv
    refine .inr ⟨_, _, rfl, ?_, ?_, fun bits hfits => Nat.lt_of_not_le fun hle => ?_⟩
    · rw [continues_ofNat (by omega)]
      simp
    · rw [group_ofNat (by omega)]
      omega
    · have hpow : (2 : Int) ^ (bits - 1) ≤ 2 ^ 6 := by
        exact_mod_cast Nat.pow_le_pow_right (show 0 < 2 by decide) (by omega : bits - 1 ≤ 6)
      rw [fitsSigned_iff] at hfits
      omega

/-- **Round trip at every width.** What is written for a number that `bits` bits hold is read with
this width as the number, whatever follows, and exactly what follows is left. A signed number may
go down to `-2 ^ (bits - 1)`. -/
theorem read_written (bits : Nat) (rest : List UInt8) (ending : Ending) : (∀ v : Nat, v < 2 ^ bits →
      unsigned bits ⟨writeUnsigned v ++ rest, ending⟩ = (.ok v, ⟨rest, ending⟩)) ∧
    (∀ v : Int, -2 ^ (bits - 1) ≤ v → v < 2 ^ (bits - 1) →
      signed bits ⟨writeSigned v ++ rest, ending⟩ = (.ok v, ⟨rest, ending⟩)) := by
  refine ⟨?_, ?_⟩
  · intro v hv
    exact unsigned_writeUnsigned v bits hv rest ending
  · intro v hlow hhigh
    exact signed_writeSigned v bits (fitsSigned_iff.2 ⟨hlow, hhigh⟩) rest ending

/-- The largest and the smallest number of 64 bits, in front of a byte that would go on. -/
theorem read_written_extremes : unsigned 64 ⟨writeUnsigned (2 ^ 64 - 1) ++ [0x80], .clean⟩ =
        (.ok (2 ^ 64 - 1), ⟨[0x80], .clean⟩) ∧
      signed 64 ⟨writeSigned (-2 ^ 63) ++ [0x80], .clean⟩ = (.ok (-2 ^ 63), ⟨[0x80], .clean⟩) :=
  ⟨(read_written 64 [0x80] .clean).1 (2 ^ 64 - 1) (by decide),
    (read_written 64 [0x80] .clean).2 (-2 ^ 63) (by decide) (by decide)⟩

/-- A number in `n` bytes, least significant byte first. -/
def littleEndian : (n : Nat) → Nat → List UInt8
  | 0, _ => []
  | n + 1, v => ofNat (v % 256) :: littleEndian n (v / 256)

lemma length_writeUnsigned_pos (v : Nat) : 0 < (writeUnsigned v).length := by
  rw [writeUnsigned]
  split <;> simp

end Varint

namespace Reader

/-- The shortest encoding of a number that fits is read as this number. -/
lemma reads_varuint {v : Nat} (h : v < 2 ^ bits) :
    Reads (varuint bits) (Varint.writeUnsigned v) v := by
  intro rest e
  simp only [varuint, Varint.unsigned_writeUnsigned v bits h]

/-- The shortest encoding of an integer that fits is read as this integer. -/
lemma reads_varint {v : Int} (h : Varint.fitsSigned bits v = true) :
    Reads (varint bits) (Varint.writeSigned v) v := by
  intro rest e
  simp only [varint, Varint.signed_writeSigned v bits h]

/-- A byte below 128 is a number of seven bits. -/
lemma reads_tag {v : Nat} (h : v < 128) : Reads (varuint 7) [ofNat v] v := by
  have hread : Reads (varuint 7) (Varint.writeUnsigned v) v := reads_varuint h
  rwa [Varint.writeUnsigned, if_pos h] at hread

/-- A flag is the byte zero or one. -/
lemma reads_flag (b : Bool) : Reads flag [ofNat b.toNat] b := by
  have hread : Reads (varuint 1) (Varint.writeUnsigned b.toNat) b.toNat :=
    reads_varuint (by cases b <;> decide)
  rw [Varint.writeUnsigned, if_pos (by cases b <;> decide)] at hread
  have h := hread.map (· == 1)
  rwa [show (b.toNat == 1) = b by cases b <;> rfl] at h

/-- A number of a fixed width is read from its bytes. -/
lemma reads_littleEndian :
    ∀ {n v : Nat}, v < 256 ^ n → Reads (littleEndian n) (Varint.littleEndian n v) v
  | 0, v, h => by
    obtain rfl : v = 0 := by simpa using h
    exact reads_pure 0
  | n + 1, v, h => by
    have hhigh : Reads (littleEndian n) (Varint.littleEndian n (v / 256)) (v / 256) :=
      reads_littleEndian (by rw [Nat.pow_succ] at h; omega)
    have hv : (ofNat (v % 256)).toNat + 256 * (v / 256) = v := by
      rw [toNat_ofNat_of_lt' (show v % 256 < size from Nat.mod_lt v (by decide))]
      omega
    have hsum := hhigh.map fun high => (ofNat (v % 256)).toNat + 256 * high
    rw [hv] at hsum
    exact (reads_byte _).bind hsum

end Reader

/-! ## Text -/

namespace Utf8

variable {b c : UInt8}

/-- A character is a scalar value: not a surrogate, and at most `10FFFF`. -/
lemma toNat_scalar (c : Char) :
    c.val.toNat < 0xd800 ∨ 0xdfff < c.val.toNat ∧ c.val.toNat < 0x110000 := c.valid

lemma toNat_byte (h : n < 256) : (ofNat n).toNat = n :=
  toNat_ofNat_of_lt' h

lemma between_iff {low high : UInt8} : (decide (low ≤ b) && decide (b ≤ high)) = true ↔
      low.toNat ≤ b.toNat ∧ b.toNat ≤ high.toNat := by
  simp only [le_iff_toNat_le, Bool.and_eq_true, decide_eq_true_eq]

/-- A lead byte does not stand alone. -/
lemma not_lt_of_toNat (h : 0xC2 ≤ b.toNat) : ¬ b < 0x80 := by
  rw [lt_iff_toNat_lt]
  exact fun hlt => absurd (Nat.lt_of_le_of_lt h hlt) (by decide)

/-- A continuation byte, and the bits it carries. -/
lemma tail_byte (n : Nat) (h : n < 64) :
    isTail (ofNat (n + 0x80)) = true ∧ tailBits (ofNat (n + 0x80)) = n := by
  have hb : (ofNat (n + 0x80)).toNat = n + 0x80 := toNat_byte (by omega)
  refine ⟨?_, ?_⟩
  · refine between_iff.2 ?_
    rw [hb]
    exact ⟨Nat.le_add_left _ _, (by omega : n + 0x80 ≤ 0xBF)⟩
  · rw [tailBits, hb]
    omega

lemma return_eq_map (c : Char) (x : Except Fault (List Char)) :
    (do return c :: (← x)) = x.map (c :: ·) := by
  cases x <;> rfl

/-- A byte below `80` is a character. -/
lemma decodeFrom_one (i : Nat) (rest : List UInt8) (hb : b.toNat < 0x80) :
    decodeFrom i (b :: rest) = (decodeFrom (i + 1) rest).map (Char.ofNat b.toNat :: ·) := by
  have h : b < 0x80 := lt_iff_toNat_lt.2 hb
  rw [decodeFrom.eq_def]
  dsimp only
  rw [if_pos h]
  exact return_eq_map _ _

/-- A sequence of two bytes. -/
lemma decodeFrom_two (i : Nat) (rest : List UInt8) (hb : 0xC2 ≤ b.toNat ∧ b.toNat ≤ 0xDF)
    (hc : isTail c = true) :
    decodeFrom i (b :: c :: rest) =
      (decodeFrom (i + 2) rest).map (Char.ofNat (b.toNat % 32 * 64 + tailBits c) :: ·) := by
  have hone : ¬ b < 0x80 := not_lt_of_toNat hb.1
  have htwo : isLead2 b = true := between_iff.2 hb
  rw [decodeFrom.eq_def]
  dsimp only
  rw [if_neg hone, if_pos htwo, if_pos hc]
  exact return_eq_map _ _

/-- A sequence of three bytes. -/
lemma decodeFrom_three {d : UInt8} (i : Nat) (rest : List UInt8)
    (hb : 0xE0 ≤ b.toNat ∧ b.toNat ≤ 0xEF) (hc : isSecond3 b c = true) (hd : isTail d = true) :
    decodeFrom i (b :: c :: d :: rest) = (decodeFrom (i + 3) rest).map
      (Char.ofNat (b.toNat % 16 * 4096 + tailBits c * 64 + tailBits d) :: ·) := by
  have hone : ¬ b < 0x80 := not_lt_of_toNat (by omega)
  have htwo : ¬ isLead2 b = true := fun h =>
    absurd (Nat.le_trans hb.1 (between_iff.1 h).2) (by decide)
  have hthree : isLead3 b = true := between_iff.2 hb
  rw [decodeFrom.eq_def]
  dsimp only
  rw [if_neg hone, if_neg htwo, if_pos hthree, if_pos hc, if_pos hd]
  exact return_eq_map _ _

/-- A sequence of four bytes. -/
lemma decodeFrom_four {d e : UInt8} (i : Nat) (rest : List UInt8)
    (hb : 0xF0 ≤ b.toNat ∧ b.toNat ≤ 0xF4) (hc : isSecond4 b c = true) (hd : isTail d = true)
    (he : isTail e = true) :
    decodeFrom i (b :: c :: d :: e :: rest) = (decodeFrom (i + 4) rest).map
      (Char.ofNat (b.toNat % 8 * 262144 + tailBits c * 4096 + tailBits d * 64 + tailBits e)
        :: ·) := by
  have hone : ¬ b < 0x80 := not_lt_of_toNat (by omega)
  have htwo : ¬ isLead2 b = true := fun h =>
    absurd (Nat.le_trans hb.1 (between_iff.1 h).2) (by decide)
  have hthree : ¬ isLead3 b = true := fun h =>
    absurd (Nat.le_trans hb.1 (between_iff.1 h).2) (by decide)
  have hfour : isLead4 b = true := between_iff.2 hb
  rw [decodeFrom.eq_def]
  dsimp only
  rw [if_neg hone, if_neg htwo, if_neg hthree, if_pos hfour, if_pos hc, if_pos hd, if_pos he]
  exact return_eq_map _ _

/-- A second byte. With one lead byte it starts later than other continuation bytes, which excludes
overlong forms; with another it ends earlier, which excludes surrogates and what is above
`10FFFF`. -/
lemma second_byte (first last low high : UInt8) {lead : Nat} (hlead : lead < 256) (hn : n < 64)
    (hlow : lead = first.toNat → low.toNat ≤ n + 0x80)
    (hhigh : lead = last.toNat → n + 0x80 ≤ high.toNat) :
    (if ofNat lead = first then
        decide (low ≤ ofNat (n + 0x80)) && decide (ofNat (n + 0x80) ≤ 0xBF)
      else if ofNat lead = last then
        decide (0x80 ≤ ofNat (n + 0x80)) && decide (ofNat (n + 0x80) ≤ high)
      else isTail (ofNat (n + 0x80))) = true := by
  have hl : (ofNat lead).toNat = lead := toNat_byte hlead
  have hb : (ofNat (n + 0x80)).toNat = n + 0x80 := toNat_byte (by omega)
  split
  · rename_i h
    rw [between_iff, hb]
    exact ⟨hlow (by rw [← hl, h]), (by omega : n + 0x80 ≤ 0xBF)⟩
  · split
    · rename_i h
      rw [between_iff, hb]
      exact ⟨Nat.le_add_left _ _, hhigh (by rw [← hl, h])⟩
    · exact (tail_byte n hn).1

/-- **One character.** Decoding the bytes of a character and what follows gives this character and
the decoding of what follows.

**Proof sketch.** By the four lengths. In each the lead byte is in the range of its length, the
second byte is in the range that excludes overlong forms and surrogates, and the payload bits add up
to the code point. -/
theorem decodeFrom_char (c : Char) (i : Nat) (rest : List UInt8) :
    ∃ n, decodeFrom i (String.utf8EncodeChar c ++ rest) =
      (decodeFrom (i + n) rest).map (c :: ·) := by
  have hscalar := toNat_scalar c
  have hback : ∀ n, n = c.val.toNat → Char.ofNat n = c := by
    rintro _ rfl
    exact Char.ofNat_toNat c
  unfold String.utf8EncodeChar
  generalize c.val.toNat = v at hscalar hback
  dsimp only
  split
  · refine ⟨1, ?_⟩
    have hb : (ofNat v).toNat = v := toNat_byte (by omega)
    rw [cons_append, decodeFrom_one i _ (by omega), hb, hback v rfl]
    rfl
  · split
    · refine ⟨2, ?_⟩
      have hb : (ofNat (v / 64 % 0x20 + 0xc0)).toNat = v / 64 % 0x20 + 0xc0 :=
        toNat_byte (by omega)
      obtain ⟨hc, hbits⟩ := tail_byte (v % 0x40) (by omega)
      rw [cons_append, cons_append, decodeFrom_two i _ (by omega) hc, hb, hbits, hback _ (by omega)]
      rfl
    · split
      · refine ⟨3, ?_⟩
        have hb : (ofNat (v / 4096 % 0x10 + 0xe0)).toNat = v / 4096 % 0x10 + 0xe0 :=
          toNat_byte (by omega)
        have hc : isSecond3 (ofNat (v / 4096 % 0x10 + 0xe0))
            (ofNat (v / 64 % 0x40 + 0x80)) = true :=
          second_byte 0xE0 0xED 0xA0 0x9F (by omega) (by omega) (by simp; omega) (by simp; omega)
        have hcbits := (tail_byte (v / 64 % 0x40) (by omega)).2
        obtain ⟨hd, hdbits⟩ := tail_byte (v % 0x40) (by omega)
        rw [cons_append, cons_append, cons_append,
          decodeFrom_three i _ (by omega) hc hd, hb, hcbits, hdbits, hback _ (by omega)]
        rfl
      · refine ⟨4, ?_⟩
        have hb : (ofNat (v / 262144 % 0x08 + 0xf0)).toNat = v / 262144 % 0x08 + 0xf0 :=
          toNat_byte (by omega)
        have hc : isSecond4 (ofNat (v / 262144 % 0x08 + 0xf0))
            (ofNat (v / 4096 % 0x40 + 0x80)) = true :=
          second_byte 0xF0 0xF4 0x90 0x8F (by omega) (by omega) (by simp; omega) (by simp; omega)
        have hcbits := (tail_byte (v / 4096 % 0x40) (by omega)).2
        obtain ⟨hd, hdbits⟩ := tail_byte (v / 64 % 0x40) (by omega)
        obtain ⟨he, hebits⟩ := tail_byte (v % 0x40) (by omega)
        rw [cons_append, cons_append, cons_append, cons_append,
          decodeFrom_four i _ (by omega) hc hd he, hb, hcbits, hdbits, hebits, hback _ (by omega)]
        rfl

/-- The bytes of a list of characters decode as these characters. -/
lemma decodeFrom_flatMap (cs : List Char) (i : Nat) :
    decodeFrom i (cs.flatMap String.utf8EncodeChar) = .ok cs := by
  induction cs generalizing i with
  | nil => rfl
  | cons c cs ih =>
    obtain ⟨n, h⟩ := decodeFrom_char c i (cs.flatMap String.utf8EncodeChar)
    rw [flatMap_cons, h, ih]
    rfl

/-- **Text round trip.** The bytes of a text decode as this text. -/
theorem decode_encode (s : String) : decode (encode s) = .ok s := by
  unfold decode encode
  rw [decodeFrom_flatMap]
  exact congrArg Except.ok String.ofList_toList

end Utf8

/-- A length-prefixed text is read as this text. -/
lemma Reader.reads_name {s : String} (h : (Utf8.encode s).length < 2 ^ 32) :
    Reads name (Varint.writeUnsigned (Utf8.encode s).length ++ Utf8.encode s) s := by
  refine (reads_varuint h).bind ((reads_bytes (Utf8.encode s)).andThen ?_)
  rw [Utf8.decode_encode]
  exact reads_pure s

end WasmToC

import Mathlib.Algebra.Ring.Nat
import WasmToC.Support.Machine

/-!
# The laws of linear memory

An access traps exactly if it is not wholly inside the memory. A load gives what the last store
left in its bytes, extended as its name says, and a store changes its own bytes and nothing else.
A memory that has been set up is never larger than it may grow, and what was not stored to since
then is zero.

## Main definitions

* `Support.Memory.Misses` — an access that is not wholly inside the memory.
* `Support.Memory.Fits` — a memory that has been set up.
* `Support.Machine.Stored`, `Support.Machine.Grown` — what a store and what growing
  leave behind.

## Main results

* `Support.Machine.accesses` — loads and stores.
* `Support.Machine.memory_of_run` — the memory after any number of calls.
-/

namespace WasmToC

open BitVec

/-! ## Bytes -/

/-- The number of bits of a value of a type. -/
def ValueType.width : ValueType → Nat
  | i32 | f32 => 32
  | i64 | f64 => 64

/-- The bits of the value that a load gives for given bytes. A load whose name ends in `s` extends
the sign, and any other puts zeros in front. -/
def Load.reading (l : Load) (bits : Nat) : Nat :=
  if l.name.toList.getLast? = some 's' then
    ((BitVec.ofNat (8 * l.width) bits).signExtend l.type.width).toNat
  else bits % 2 ^ (8 * l.width)

/-- The extension of a load is that of two's complement numbers. -/
lemma Load.extend_eq {l : Load} (hl : l.isSigned = true) {n : Nat} (hn : n < 2 ^ (8 * l.width)) :
    l.extend n = (BitVec.ofNat (8 * l.width) n).toInt := by
  have hwidth : 8 * l.width = 8 * l.width - 1 + 1 := by cases l <;> rfl
  have hpow : 2 ^ (8 * l.width) = 2 * 2 ^ (8 * l.width - 1) := by
    rw [← Nat.pow_succ', Nat.succ_eq_add_one, ← hwidth]
  rw [toInt_eq_toNat_cond, toNat_ofNat, Nat.mod_eq_of_lt hn, Load.extend, hl]
  simp only [Nat.pow_eq, Bool.true_and, decide_eq_true_eq, hpow]
  split <;> split <;> omega

/-- **The value of a load** has the type of the load, and the bits that its name says. -/
theorem Load.bits_value (l : Load) {n : Nat} (hn : n < 2 ^ (8 * l.width)) :
    (l.value n).type = l.type ∧ (l.value n).bits = l.reading n := by
  have hname : (l.name.toList.getLast? = some 's') ↔ l.isSigned = true := by
    cases l <;> decide +kernel
  unfold Load.reading
  rw [Nat.mod_eq_of_lt hn]
  split
  · rename_i hs
    rw [BitVec.signExtend, ← Load.extend_eq (hname.mp hs) hn]
    rw [hname] at hs
    cases l <;> simp only [Load.isSigned, Bool.false_eq_true] at hs <;> exact ⟨rfl, rfl⟩
  · rename_i hs
    rw [hname, Bool.not_eq_true] at hs
    have hle : n < 2 ^ l.type.width :=
      Nat.lt_of_lt_of_le hn (Nat.pow_le_pow_right (by decide) (by cases l <;> decide))
    rw [Load.value, Load.extend, hs, Bool.false_and, if_neg Bool.false_ne_true]
    cases ht : l.type <;> rw [ht] at hle <;> exact ⟨rfl, Nat.mod_eq_of_lt hle⟩

/-- A load reads no more bits than it has bytes. -/
lemma Load.reading_mod (l : Load) (n : Nat) : l.reading (n % 2 ^ (8 * l.width)) = l.reading n := by
  have hword : BitVec.ofNat (8 * l.width) (n % 2 ^ (8 * l.width)) = BitVec.ofNat (8 * l.width) n :=
    eq_of_toNat_eq (by simp)
  rw [Load.reading, Load.reading, hword, Nat.mod_mod]

/-- A load of all bytes of a value has nothing to extend. -/
lemma Load.reading_of_width {l : Load} (hl : 8 * l.width = l.type.width) {n : Nat}
    (hn : n < 2 ^ l.type.width) : l.reading n = n := by
  rw [Load.reading, hl]
  split
  · rw [signExtend_eq, toNat_ofNat, Nat.mod_eq_of_lt hn]
  · exact Nat.mod_eq_of_lt hn

lemma Value.bits_lt (v : Value) : v.bits < 2 ^ v.type.width := by
  cases v with
  | i32 v => exact v.toUInt32.toNat_lt
  | i64 v => exact v.toUInt64.toNat_lt
  | f32 b => exact b.toNat_lt
  | f64 b => exact b.toNat_lt

namespace Support.Memory

variable {byte byte' : Nat → UInt8} {pos width bits : Nat}

/-- Bytes make a number of as many bytes. -/
lemma fetch_lt (byte : Nat → UInt8) (pos width : Nat) : fetch byte pos width < 2 ^ (8 * width) := by
  induction width generalizing pos with
  | zero => simp [fetch]
  | succ width ih =>
    have hbyte : (byte pos).toNat < 256 := (byte pos).toNat_lt
    have := ih (pos + 1)
    rw [Nat.mul_succ, Nat.pow_add, fetch]
    omega

/-- What is read depends on the bytes read only. -/
lemma fetch_congr (h : ∀ i, pos ≤ i → i < pos + width → byte i = byte' i) :
    fetch byte pos width = fetch byte' pos width := by
  induction width generalizing pos with
  | zero => rfl
  | succ width ih =>
    rw [fetch, fetch, h pos (Nat.le_refl _) (by omega),
      ih fun i hle hlt => h i (by omega) (by omega)]

/-- Bytes that are those of a number, least significant byte first, make its lowest bits. -/
lemma fetch_eq_mod (h : ∀ k < width, byte (pos + k) = UInt8.ofNat (bits / 256 ^ k)) :
    fetch byte pos width = bits % 2 ^ (8 * width) := by
  induction width generalizing pos bits with
  | zero => simp [fetch, Nat.mod_one]
  | succ width ih =>
    have hfirst : (byte pos).toNat = bits % 256 := by
      simpa using congrArg UInt8.toNat (h 0 (by omega))
    have hrest : fetch byte (pos + 1) width = bits / 256 % 2 ^ (8 * width) := by
      refine ih fun k hk => ?_
      rw [Nat.add_assoc, Nat.add_comm 1, h (k + 1) (by omega), Nat.pow_succ',
        Nat.div_div_eq_div_mul]
    rw [fetch, hfirst, hrest, Nat.mul_succ, Nat.pow_add, Nat.mul_comm (2 ^ _), Nat.mod_mul]

/-- An access of some bytes that is not wholly inside the memory; its address does not wrap. -/
def Misses (m : Memory) (addr off width : Nat) : Prop :=
  addr + off < m.base ∨ m.pages * pageSize < addr + off - m.base + width

variable {m : Memory} {addr off : Nat}

lemma locate_of_misses (h : m.Misses addr off width) :
    m.locate addr off width = .error .outOfBounds := by
  rw [locate]
  split
  · rfl
  · rename_i hbase
    rw [if_pos (h.resolve_left hbase)]

lemma locate_of_not_misses (h : ¬m.Misses addr off width) :
    m.locate addr off width = .ok (addr + off - m.base) := by
  obtain ⟨hbase, hend⟩ := not_or.mp h
  rw [locate, if_neg hbase, if_neg hend]

/-- What setting up the memory and growing it keep. -/
structure Fits (m : Memory) : Prop where
  /-- The memory is not larger than it may grow. -/
  pages_le : m.pages ≤ m.maximum
  /-- It may not grow without end. -/
  maximum_le : m.maximum ≤ 65536
  /-- There are as many bytes as the pages have. -/
  size_eq : m.buffer.size = m.pages * 65536

/-- Pages by which the memory does not grow. -/
def Refuses (m : Memory) (delta : Int) : Prop :=
  delta < 0 ∨ (m.maximum : Int) < m.pages + delta

/-- What growing does. -/
lemma grow_cases (m : Memory) (delta : Int) : (m.Refuses delta ∧ m.grow delta = (-1, m)) ∨
      (delta = 0 ∧ m.pages ≤ m.maximum ∧ m.grow delta = ((m.pages : Int), m)) ∨
      (0 < delta ∧ m.pages + delta ≤ m.maximum ∧ m.grow delta = ((m.pages : Int), { m with
          buffer := ⟨(m.pages + delta.toNat) * pageSize,
            fun i => if i < m.pages * pageSize then m.buffer.byte i else 0⟩
          pages := m.pages + delta.toNat })) := by
  rw [grow]
  split
  · exact .inl ⟨by rw [Refuses]; omega, rfl⟩
  · split
    · exact .inr (.inl ⟨by omega, by omega, rfl⟩)
    · exact .inr (.inr ⟨by omega, by omega, rfl⟩)

end Support.Memory

namespace Support

/-- The address, the offset and the number of bytes of an access to memory. -/
def Call.access? : Call → Option (Nat × Nat × Nat)
  | .load l addr off => some (addr, off, l.width)
  | .store s addr off _ => some (addr, off, s.width)
  | _ => none

/-- Whether a call is one of those that set up, measure, grow, read and write the memory. -/
def Call.isMemoryCall : Call → Bool
  | .memoryInit .. | .memorySize | .memoryGrow _ | .load .. | .store .. => true
  | _ => false

/-- A store to a byte of the memory whose first byte is at a given address. -/
def Call.Touches (base i : Nat) : Call → Prop
  | .store s addr off _ =>
    addr + off - base ≤ i ∧ i < addr + off - base + s.width
  | _ => False

namespace Machine

open Memory

/-- The state that calls leave behind. A trap is the end, and the call that traps leaves the state
as it was. -/
def final : List Call → Machine → Machine
  | [], m => m
  | c :: rest, m =>
    match m.perform c with
    | .ok (_, m1) => final rest m1
    | .error _ => m

variable {m m1 : Machine} {c : Call} {addr off width : Nat}

/-! ## Loads and stores -/

/-- What a store leaves behind: its bytes are those of the value, and nothing else changes. -/
structure Stored (m m1 : Machine) (s : Store) (pos : Nat) (v : Value) : Prop where
  /-- The bytes of the value, least significant byte first. -/
  inside : ∀ k < s.width,
    m1.memory.buffer.byte (pos + k) = UInt8.ofNat (v.bits % 2 ^ (8 * s.width) / 256 ^ k)
  /-- Other bytes. -/
  outside : ∀ i, i < pos ∨ pos + s.width ≤ i → m1.memory.buffer.byte i = m.memory.buffer.byte i
  /-- Everything but bytes. -/
  rest : ∃ byte, m1 = { m with memory := { m.memory with buffer := ⟨m.memory.buffer.size, byte⟩ } }

lemma perform_load (l : Load) (h : ¬m.memory.Misses addr off l.width) :
    m.perform (.load l addr off) =
      .ok (.value (l.value (fetch m.memory.buffer.byte (addr + off - m.memory.base) l.width)),
        m) := by
  rw [perform, Memory.load, locate_of_not_misses h]
  rfl

/-- An access outside the memory is the end, and any other is not. -/
lemma misses_iff (hc : c.access? = some (addr, off, width)) (rest : List Call) :
    m.memory.Misses addr off width ↔
      performAll (c :: rest) m = [.error .outOfBounds] ∧ final (c :: rest) m = m := by
  by_cases h : m.memory.Misses addr off width
  · have hperform : m.perform c = .error .outOfBounds := by
      cases c <;> cases hc
      · rw [perform, Memory.load, locate_of_misses h]
        rfl
      · rw [perform, Memory.store, locate_of_misses h]
        rfl
    simp [performAll, final, hperform, h]
  · have hperform : ∃ answer m1, m.perform c = .ok (answer, m1) := by
      cases c <;> cases hc
      · exact ⟨_, _, perform_load _ h⟩
      · rw [perform, Memory.store, locate_of_not_misses h]
        exact ⟨_, _, rfl⟩
    obtain ⟨answer, m1, hperform⟩ := hperform
    simp [performAll, hperform, h]

/-- A store inside the memory. -/
lemma stored_of_perform (s : Store) (v : Value) (h : ¬m.memory.Misses addr off s.width) :
    ∃ m1, m.perform (.store s addr off v) = .ok (.unit, m1) ∧
      Stored m m1 s (addr + off - m.memory.base) v := by
  rw [perform, Memory.store, locate_of_not_misses h]
  refine ⟨_, rfl, fun k hk => ?_, fun i hi => ?_, _, rfl⟩
  · simp [deposit, hk, Store.bits]
  · simp only [deposit]
    rw [if_neg (by omega)]

/-- What was stored is read back, as far as it was stored. -/
lemma Stored.load {s : Store} {v : Value} (hv : v.type = s.type)
    (hstored : Stored m m1 s (addr + off - m.memory.base) v)
    (h : ¬m.memory.Misses addr off s.width) {l : Load} (hl : l.width = s.width) :
    ∃ read, m1.perform (.load l addr off) = .ok (.value read, m1) ∧ read.type = l.type ∧
      read.bits = l.reading v.bits ∧
      (l.type = s.type → 8 * s.width = s.type.width → read.bits = v.bits) := by
  have hfetch := fetch_eq_mod hstored.inside
  obtain ⟨byte, rfl⟩ := hstored.rest
  obtain ⟨htype, hbits⟩ := Load.bits_value l (fetch_lt byte (addr + off - m.memory.base) _)
  rw [Nat.mod_mod, ← hl] at hfetch
  rw [hfetch, Load.reading_mod] at hbits
  refine ⟨_, perform_load l (hl ▸ h), htype, hfetch ▸ hbits, fun hsame hwidth => ?_⟩
  rw [← hl, ← hsame] at hwidth
  rw [hfetch, hbits, Load.reading_of_width hwidth (hsame ▸ hv ▸ v.bits_lt)]

/-- Loads from other bytes are as before. -/
lemma Stored.load_other {s : Store} {v : Value}
    (hstored : Stored m m1 s (addr + off - m.memory.base) v)
    (h : ¬m.memory.Misses addr off s.width) {l : Load} {address' offset' : Nat}
    (hdisjoint : addr + off + s.width ≤ address' + offset' ∨
      address' + offset' + l.width ≤ addr + off) :
    (m1.perform (.load l address' offset')).map Prod.fst =
      (m.perform (.load l address' offset')).map Prod.fst := by
  have houtside := hstored.outside
  obtain ⟨byte, rfl⟩ := hstored.rest
  by_cases hmiss : m.memory.Misses address' offset' l.width
  · rw [perform, perform, Memory.load, Memory.load, locate_of_misses hmiss, locate_of_misses]
    · rfl
    · exact hmiss
  · have hbase := (not_or.mp h).1
    have hbase' := (not_or.mp hmiss).1
    have hfetch : fetch byte (address' + offset' - m.memory.base) l.width =
        fetch m.memory.buffer.byte (address' + offset' - m.memory.base) l.width :=
      fetch_congr fun i hle hlt => houtside i (by omega)
    rw [perform_load l hmiss, ← hfetch, perform_load l (by exact hmiss)]
    rfl

/-- **Loads and stores obey the laws of memory.** An access traps if and only if it is not wholly
inside the memory, and then changes nothing. Otherwise a store changes its own bytes only; a load
of as many bytes from the same place gives what was stored, truncated and extended, and a load from
other bytes gives what it did before. -/
theorem accesses (m : Machine) : (∀ c addr off width, c.access? = some (addr, off, width) → ∀ rest,
      (m.memory.Misses addr off width ↔
        performAll (c :: rest) m = [.error .outOfBounds] ∧ final (c :: rest) m = m)) ∧
    ∀ s addr off v, v.type = s.type → ¬m.memory.Misses addr off s.width →
      ∃ m1, m.perform (.store s addr off v) = .ok (.unit, m1) ∧
        Stored m m1 s (addr + off - m.memory.base) v ∧
        (∀ l : Load, l.width = s.width → ∃ read,
          m1.perform (.load l addr off) = .ok (.value read, m1) ∧ read.type = l.type ∧
            read.bits = l.reading v.bits ∧
            (l.type = s.type → 8 * s.width = s.type.width → read.bits = v.bits)) ∧
        ∀ (l : Load) (address' offset' : Nat), (addr + off + s.width ≤ address' + offset' ∨
            address' + offset' + l.width ≤ addr + off) →
          (m1.perform (.load l address' offset')).map Prod.fst =
            (m.perform (.load l address' offset')).map Prod.fst := by
  refine ⟨fun c addr off width hc rest => misses_iff hc rest, ?_⟩
  intro s addr off v hv h
  obtain ⟨m1, hperform, hstored⟩ := stored_of_perform s v h
  exact ⟨m1, hperform, hstored, fun l hl => hstored.load hv h hl,
    fun l address' offset' hdisjoint => hstored.load_other h hdisjoint⟩

/-- A memory of one page behind the address 16. -/
def onePage : Machine where
  memory := { buffer := ⟨65536, fun _ => 0⟩, pages := 1, maximum := 2, base := 16 }

/-- A byte with its sign bit set, in the last place of the page, is read with its sign. -/
theorem accesses_lastByte : ∃ m1 read,
    onePage.perform (.store .i32Store8 65536 15 (.i32 0x1ff)) = .ok (.unit, m1) ∧
      m1.perform (.load .i64Load8S 65536 15) = .ok (.value read, m1) ∧ read.bits = 2 ^ 64 - 1 := by
  obtain ⟨m1, hperform, -, hload, -⟩ := (accesses onePage).2 .i32Store8 65536 15 (.i32 0x1ff) rfl
    (by unfold Misses; decide)
  obtain ⟨read, hread, -, hbits, -⟩ := hload .i64Load8S rfl
  exact ⟨m1, read, hperform, hread, hbits.trans (by decide +kernel)⟩

/-! ## The memory over a whole run -/

/-- What growing leaves behind. -/
structure Grown (m m1 : Machine) (delta : Int) : Prop where
  /-- The memory is larger by that many pages. -/
  pages_eq : (m1.memory.pages : Int) = m.memory.pages + delta
  /-- There are as many bytes as the pages have. -/
  size_eq : m1.memory.buffer.size = m1.memory.pages * 65536
  /-- The bytes that were there. -/
  old : ∀ i < m.memory.pages * 65536, m1.memory.buffer.byte i = m.memory.buffer.byte i
  /-- New bytes are zero. -/
  new : ∀ i, m.memory.pages * 65536 ≤ i → i < m1.memory.pages * 65536 → m1.memory.buffer.byte i = 0
  /-- Nothing else changes. -/
  rest : m1.memory.maximum = m.memory.maximum ∧ m1.memory.base = m.memory.base ∧
    m1.tables = m.tables

/-- What every call keeps, the calls before a trap keep. -/
lemma final_keeps {P : Machine → Prop} {calls : List Call}
    (hstep : ∀ c ∈ calls, ∀ m answer m1, P m → m.perform c = .ok (answer, m1) → P m1) (h : P m) :
    P (final calls m) := by
  induction calls generalizing m with
  | nil => exact h
  | cons c rest ih =>
    obtain ⟨hc, hr⟩ := List.forall_mem_cons.mp hstep
    rw [final]
    split
    · exact ih hr (hc _ _ _ h ‹_›)
    · exact h

/-- Calls none of which traps are done one part after the other. -/
lemma final_append {pre rest : List Call}
    (hok : ∀ answer ∈ performAll (pre ++ rest) m, answer.isOk = true) :
    final (pre ++ rest) m = final rest (final pre m) ∧
      ∀ answer ∈ performAll rest (final pre m), answer.isOk = true := by
  induction pre generalizing m with
  | nil => exact ⟨rfl, hok⟩
  | cons c pre ih =>
    rw [List.cons_append, performAll] at hok
    rw [List.cons_append, final, final]
    cases hc : m.perform c with
    | error t => simp [hc, Except.isOk, Except.toBool] at hok
    | ok p => exact ih fun answer ha => hok answer (by simp [hc, ha])

/-- What setting up does. -/
lemma perform_memoryInit {initial maximum : Nat} {answer : Answer}
    (h : m.perform (.memoryInit initial maximum) = .ok (answer, m1)) :
    m1.memory.Fits ∧ (∀ i, m1.memory.buffer.byte i = 0) ∧ m1.memory.base = m.memory.base := by
  rw [perform, Memory.create] at h
  split at h
  · cases h
  · cases h
    exact ⟨⟨by simp_all, Nat.min_le_right _ _, rfl⟩, fun _ => rfl, rfl⟩

/-- **What one call keeps**: the memory fits once it has been set up, and a byte that is zero stays
zero until it is stored to. -/
theorem perform_keeps {answer : Answer} (hc : c.isMemoryCall = true)
    (h : m.perform c = .ok (answer, m1)) :
    m1.memory.base = m.memory.base ∧ (m.memory.Fits → m1.memory.Fits) ∧
      ∀ i, ¬c.Touches m.memory.base i → m.memory.buffer.byte i = 0 →
        m1.memory.buffer.byte i = 0 := by
  cases c <;> try cases hc
  case memoryInit =>
    obtain ⟨hfits, hzero, hbase⟩ := perform_memoryInit h
    exact ⟨hbase, fun _ => hfits, fun i _ _ => hzero i⟩
  case memorySize =>
    cases h
    exact ⟨rfl, id, fun _ _ hi => hi⟩
  case memoryGrow delta =>
    rw [perform] at h
    rcases grow_cases m.memory delta with ⟨-, hgrow⟩ | ⟨-, -, hgrow⟩ | ⟨hpos, hle, hgrow⟩
    all_goals
      rw [hgrow] at h
      cases h
    · exact ⟨rfl, id, fun _ _ hi => hi⟩
    · exact ⟨rfl, id, fun _ _ hi => hi⟩
    · refine ⟨rfl, fun hfits => ⟨?_, hfits.maximum_le, rfl⟩, fun i _ hi => ?_⟩
      · exact (by omega : m.memory.pages + delta.toNat ≤ m.memory.maximum)
      · exact (ite_eq_right_iff.mpr fun _ => hi)
  case load l addr off =>
    by_cases hmiss : m.memory.Misses addr off l.width
    · rw [perform, Memory.load, locate_of_misses hmiss] at h
      cases h
    · rw [perform_load l hmiss] at h
      cases h
      exact ⟨rfl, id, fun _ _ hi => hi⟩
  case store s addr off v =>
    by_cases hmiss : m.memory.Misses addr off s.width
    · rw [perform, Memory.store, locate_of_misses hmiss] at h
      cases h
    · obtain ⟨m2, hperform, hstored⟩ := stored_of_perform s v hmiss
      rw [hperform] at h
      cases h
      have houtside := hstored.outside
      obtain ⟨byte, rfl⟩ := hstored.rest
      refine ⟨rfl, fun hfits => ⟨hfits.pages_le, hfits.maximum_le, hfits.size_eq⟩,
        fun i hi hz => ?_⟩
      rw [houtside i (by simp only [Call.Touches] at hi; omega), hz]

/-- **What a run keeps** of a memory of zeros. -/
theorem final_of_zero {since : List Call} (hsince : ∀ c ∈ since, c.isMemoryCall = true)
    (hfits : m.memory.Fits) (hzero : ∀ i, m.memory.buffer.byte i = 0) :
    (final since m).memory.Fits ∧ (final since m).memory.base = m.memory.base ∧
      ∀ i, (∀ c ∈ since, ¬c.Touches m.memory.base i) →
        (final since m).memory.buffer.byte i = 0 := by
  refine final_keeps (P := fun m1 => m1.memory.Fits ∧ m1.memory.base = m.memory.base ∧
    ∀ i, (∀ c ∈ since, ¬c.Touches m.memory.base i) → m1.memory.buffer.byte i = 0) ?_
    ⟨hfits, rfl, fun i _ => hzero i⟩
  rintro c hc m1 answer m2 ⟨hfits, hbase, hzero⟩ h
  obtain ⟨hbase', hfits', hzero'⟩ := perform_keeps (hsince c hc) h
  exact ⟨hfits' hfits, hbase'.trans hbase, fun i hi => hzero' i (hbase ▸ hi c hc) (hzero i hi)⟩

lemma toInt_pages (hfits : m.memory.Fits) :
    (Int32.ofInt m.memory.pages).toInt = m.memory.pages := by
  obtain ⟨hpages, hmaximum, -⟩ := hfits
  exact Int32.toInt_ofInt_of_le (by omega) (by omega)

/-- Where all bytes are zero, so is what a load gives. -/
lemma perform_load_zero (l : Load) (h : ¬m.memory.Misses addr off l.width)
    (hzero : ∀ k < l.width, m.memory.buffer.byte (addr + off - m.memory.base + k) = 0) :
    ∃ v, m.perform (.load l addr off) = .ok (.value v, m) ∧ v.bits = 0 := by
  have hfetch : fetch m.memory.buffer.byte (addr + off - m.memory.base) l.width =
      0 % 2 ^ (8 * l.width) := fetch_eq_mod fun k hk => by simpa using hzero k hk
  refine ⟨_, perform_load l h, ?_⟩
  rw [hfetch, Nat.zero_mod]
  cases l <;> rfl

/-- Growing a memory that fits. -/
lemma perform_memoryGrow (hfits : m.memory.Fits) (delta : Int) :
    ∃ r m1, m.perform (.memoryGrow delta) = .ok (.value (.i32 r), m1) ∧
      (r = -1 ∧ m1 = m ↔ m.memory.Refuses delta) ∧
      (¬m.memory.Refuses delta → r.toInt = m.memory.pages ∧ Grown m m1 delta) := by
  have hpages := toInt_pages hfits
  have hne : Int32.ofInt m.memory.pages ≠ -1 := fun heq => by
    rw [heq] at hpages
    exact absurd hpages (by simp)
  rw [perform]
  rcases grow_cases m.memory delta with ⟨hcond, hgrow⟩ | ⟨rfl, hle, hgrow⟩ | ⟨hpos, hle, hgrow⟩
  all_goals rw [hgrow]
  · exact ⟨_, _, rfl, ⟨fun _ => hcond, fun _ => ⟨rfl, rfl⟩⟩, fun hnot => absurd hcond hnot⟩
  · refine ⟨_, _, rfl, ⟨fun h => absurd h.1 hne, fun h => ?_⟩, fun _ => ⟨hpages, ?_⟩⟩
    · rw [Refuses] at h
      omega
    · exact ⟨by simp, hfits.size_eq, fun _ _ => rfl,
        fun i hle hlt => absurd hlt (Nat.not_lt.mpr hle), rfl, rfl, rfl⟩
  · refine ⟨_, _, rfl, ⟨fun h => absurd h.1 hne, fun h => ?_⟩, fun _ => ⟨hpages, ?_⟩⟩
    · rw [Refuses] at h
      omega
    · exact ⟨by simp; omega, rfl, fun i hi => if_pos hi, fun i hi _ => if_neg (Nat.not_lt.mpr hi),
        rfl, rfl, rfl⟩

/-- **The memory over a whole run.** Once it has been set up, the memory fits, what was not stored
to since then is read as zero, its size is the number of its pages, and it grows by the pages asked
for if and only if it may be that large. -/
theorem memory_of_run {pre since : List Call} {initial maximum : Nat}
    (hcalls : ∀ c ∈ pre ++ .memoryInit initial maximum :: since, c.isMemoryCall = true)
    (hok : ∀ answer ∈ performAll (pre ++ .memoryInit initial maximum :: since) m,
      answer.isOk = true)
    (hm1 : final (pre ++ .memoryInit initial maximum :: since) m = m1) :
    m1.memory.Fits ∧ m1.memory.base = m.memory.base ∧
      (∀ (l : Load) (addr off : Nat), ¬m1.memory.Misses addr off l.width →
        (∀ k < l.width, ∀ c ∈ since, ¬c.Touches m.memory.base (addr + off - m.memory.base + k)) →
        ∃ v, m1.perform (.load l addr off) = .ok (.value v, m1) ∧ v.bits = 0) ∧
      (∃ size, m1.perform .memorySize = .ok (.value (.i32 size), m1) ∧
        size.toInt = m1.memory.pages) ∧
      ∀ delta, ∃ r m2, m1.perform (.memoryGrow delta) = .ok (.value (.i32 r), m2) ∧
        (r = -1 ∧ m2 = m1 ↔ m1.memory.Refuses delta) ∧
        (¬m1.memory.Refuses delta → r.toInt = m1.memory.pages ∧ Grown m1 m2 delta) := by
  obtain ⟨hpre, hsince⟩ := List.forall_mem_append.mp hcalls
  obtain ⟨hfinal, hok⟩ := final_append hok
  have hbase : (final pre m).memory.base = m.memory.base :=
    final_keeps (P := fun m1 => m1.memory.base = m.memory.base)
      (fun c hc _ _ _ hb h => (perform_keeps (hpre c hc) h).1.trans hb) rfl
  rw [hfinal, final] at hm1
  rw [performAll] at hok
  cases hinit : (final pre m).perform (.memoryInit initial maximum) with
  | error t => simp [hinit, Except.isOk, Except.toBool] at hok
  | ok p =>
    obtain ⟨answer, m0⟩ := p
    obtain ⟨hfits, hzero, hbase0⟩ := perform_memoryInit hinit
    obtain rfl : final since m0 = m1 := by rwa [hinit] at hm1
    obtain ⟨hfits, hbase', hzero⟩ := final_of_zero (List.forall_mem_cons.mp hsince).2 hfits hzero
    rw [hbase0, hbase] at hbase' hzero
    refine ⟨hfits, hbase', fun l addr off h hi => perform_load_zero l h fun k hk => ?_,
      ⟨_, rfl, toInt_pages hfits⟩, perform_memoryGrow hfits⟩
    rw [hbase']
    exact hzero _ (hi k hk)

/-- A memory of one page is stored to and grown by a page; the bytes behind those stored are zero.
-/
theorem memory_of_run_grown : ∃ (m1 : Machine) (v : Value),
    final [.memorySize, .memoryInit 1 2, .store .i32Store 8 0 (.i32 7), .memoryGrow 1] {} = m1 ∧
      m1.memory.Fits ∧ m1.perform (.load .i64Load 65532 0) = .ok (.value v, m1) ∧ v.bits = 0 := by
  obtain ⟨hfits, -, hzero, -⟩ := @memory_of_run {} _ [.memorySize]
    [.store .i32Store 8 0 (.i32 7), .memoryGrow 1] 1 2 (by decide) (by decide +kernel) rfl
  obtain ⟨v, hload, hv⟩ := hzero .i64Load 65532 0 (by unfold Misses; decide +kernel)
    (by simp [Call.Touches, Store.width]; omega)
  exact ⟨_, v, rfl, hfits, hload, hv⟩

end Machine

end Support

end WasmToC

import WasmToC.Proofs.LinearMemory

/-!
# What tables hold

A table is filled by segments that may overlap, leave gaps and come in any order. It reaches to the
end of the farthest one, each slot holds what the last segment over it has there, and a slot under
none is empty.

## Main definitions

* `Support.Covers` — a slot under a segment.
* `Support.Table.Holds` — a table that has been filled by segments, one after the other.

## Main results

* `Support.Table.get?_fill` — the slots after one segment.
* `Support.Machine.tables_of_run` — a table after any number of calls.
-/

namespace WasmToC.Support

open List

/-- The segment that a call copies into a table: its first slot and its references. -/
def Call.segment? (table : Nat) : Call → Option (Nat × List Nat)
  | .tableInit t off elements => if t = table then some (off, elements) else none
  | _ => none

/-- Whether a segment covers a slot. -/
def Covers (s : Nat × List Nat) (j : Nat) : Prop := s.1 ≤ j ∧ j < s.1 + s.2.length

instance (s : Nat × List Nat) (j : Nat) : Decidable (Covers s j) :=
  inferInstanceAs (Decidable (_ ∧ _))

namespace Table

variable {t t1 : Table} {off : Nat} {elements : List Nat} {segments : List (Nat × List Nat)}

/-- A table that has been filled by segments, one after the other. -/
structure Holds (t : Table) (segments : List (Nat × List Nat)) : Prop where
  /-- No segment reaches farther than the table. -/
  le_size : ∀ s ∈ segments, s.1 + s.2.length ≤ t.size
  /-- Some segment reaches as far as the table. -/
  size_eq : t.size = 0 ∨ ∃ s ∈ segments, t.size = s.1 + s.2.length
  /-- A slot holds what the last segment over it has there. -/
  last : ∀ pre s post, segments = pre ++ s :: post → ∀ j, Covers s j →
    (∀ s' ∈ post, ¬Covers s' j) → t.get? j = s.2[j - s.1]?
  /-- A slot under no segment is empty. -/
  empty : ∀ j, (∀ s ∈ segments, ¬Covers s j) → t.get? j = none

lemma holds_nil (h : t.size = 0) : t.Holds [] :=
  ⟨by simp, .inl h, by simp, fun j _ => by simp [get?, h]⟩

/-! ## One segment -/

lemma size_copy (t : Table) (slot : Nat) (elements : List Nat) :
    (t.copy slot elements).size = t.size := by
  induction elements generalizing t slot with
  | nil => rfl
  | cons e rest ih => rw [copy, ih]

/-- As long as slots are numbers of 32 bits, each reference comes to its own slot. -/
lemma entry_copy {slot : Nat} (h : slot + elements.length ≤ maxTableSize) (j : Nat) :
    (t.copy slot elements).entry j =
      if slot ≤ j ∧ j < slot + elements.length then elements[j - slot]? else t.entry j := by
  induction elements generalizing t slot with
  | nil => rw [copy, if_neg (by simp)]
  | cons e rest ih =>
    rw [length_cons, maxTableSize] at h
    have hnext : (slot + 1) % Nat.pow 2 32 = slot + 1 := Nat.mod_eq_of_lt (by simp; omega)
    rw [copy, hnext, ih (by rw [maxTableSize]; omega), length_cons]
    rcases Nat.lt_trichotomy j slot with hj | rfl | hj
    · simp [Nat.ne_of_lt hj, show ¬slot + 1 ≤ j by omega, show ¬slot ≤ j by omega]
    · simp [show ¬j + 1 ≤ j by omega]
    · have hsub : j - slot = j - (slot + 1) + 1 := by omega
      simp [Nat.ne_of_gt hj, show slot + 1 ≤ j by omega, show slot ≤ j by omega, hsub,
        Nat.add_assoc, Nat.add_comm 1]

/-- **The slots after one segment.** -/
theorem get?_fill (h : t.fill off elements = .ok t1) :
    t1.size = max t.size (off + elements.length) ∧
      ∀ j, t1.get? j = if off ≤ j ∧ j < off + elements.length then elements[j - off]?
        else t.get? j := by
  simp only [fill] at h
  split at h
  · cases h
  · rename_i hle
    cases h
    have hsize : (t.grow (off + elements.length)).size = max t.size (off + elements.length) := by
      unfold grow
      split <;> grind
    have hgrow (j : Nat) : (t.grow (off + elements.length)).get? j = t.get? j := by
      unfold grow get?
      split <;> grind
    refine ⟨(size_copy ..).trans hsize, fun j => ?_⟩
    rw [← hgrow, get?, get?, size_copy, entry_copy (Nat.not_lt.mp hle)]
    split
    · rfl
    · rw [if_neg (by omega)]

/-- One more segment. -/
lemma Holds.fill (h : t.Holds segments) (hfill : t.fill off elements = .ok t1) :
    t1.Holds (segments ++ [(off, elements)]) := by
  obtain ⟨hsize, hget⟩ := get?_fill hfill
  have hmiss {j : Nat} (hj : ¬Covers (off, elements) j) : t1.get? j = t.get? j :=
    (hget j).trans (if_neg hj)
  constructor
  case le_size =>
    rw [forall_mem_append, forall_mem_singleton, hsize]
    exact ⟨fun s hs => Nat.le_trans (h.le_size s hs) (Nat.le_max_left ..), Nat.le_max_right ..⟩
  case size_eq =>
    rcases Nat.le_total t.size (off + elements.length) with hle | hle
    · exact .inr ⟨(off, elements), by simp, hsize.trans (Nat.max_eq_right hle)⟩
    · rw [hsize, Nat.max_eq_left hle]
      exact h.size_eq.imp_right fun ⟨s, hs, heq⟩ => ⟨s, mem_append_left _ hs, heq⟩
  case last =>
    intro pre s post hsegments j hj hafter
    rcases eq_nil_or_concat post with rfl | ⟨post, s', rfl⟩
    · -- the new segment is the last one
      obtain ⟨-, heq⟩ := append_inj' hsegments rfl
      obtain rfl : (off, elements) = s := by simpa using heq
      exact (hget j).trans (if_pos hj)
    · rw [concat_eq_append, ← cons_append, ← append_assoc] at hsegments
      obtain ⟨rfl, heq⟩ := append_inj' hsegments rfl
      obtain rfl : (off, elements) = s' := by simpa using heq
      rw [hmiss (hafter _ (by simp))]
      exact h.last pre s post rfl j hj fun s' hs' => hafter s' (by simp [hs'])
  case empty =>
    intro j hj
    rw [forall_mem_append, forall_mem_singleton] at hj
    rw [hmiss hj.2, h.empty j hj.1]

end Table

namespace Machine

variable {m m1 : Machine} {table : Nat}

/-! ## Whole runs -/

/-- One call. -/
lemma holds_of_perform {c : Call} {answer : Answer} {segments : List (Nat × List Nat)}
    (h : (m.tables table).Holds segments) (hc : m.perform c = .ok (answer, m1)) :
    (m1.tables table).Holds (segments ++ (c.segment? table).toList) := by
  cases c with
  | trap => cases hc
  | tableInit t off elements =>
    rw [perform] at hc
    cases hfill : (m.tables t).fill off elements with
    | error => simp [hfill] at hc
    | ok filled =>
      rw [hfill] at hc
      cases hc
      by_cases ht : t = table
      · subst ht
        simpa [Call.segment?] using h.fill hfill
      · simpa [Call.segment?, ht, Ne.symm ht] using h
  | memoryInit initial maximum =>
    cases hnew : m.memory.create initial maximum <;> rw [perform, hnew] at hc <;> cases hc
    simpa [Call.segment?] using h
  | load op addr off =>
    cases hload : m.memory.load op addr off <;> rw [perform, hload] at hc <;> cases hc
    simpa [Call.segment?] using h
  | store op addr off v =>
    cases hstore : m.memory.store op addr off v <;> rw [perform, hstore] at hc <;> cases hc
    simpa [Call.segment?] using h
  | nan | infinity | memorySize | memoryGrow | setMemoryBase | unary | binary | tableSize
  | tableGet =>
    cases hc
    simpa [Call.segment?] using h

/-- Several calls. -/
lemma holds_of_run {calls : List Call} {segments : List (Nat × List Nat)}
    (h : (m.tables table).Holds segments)
    (hok : ∀ answer ∈ performAll calls m, answer.isOk = true) :
    ((final calls m).tables table).Holds (segments ++ calls.filterMap (Call.segment? table)) := by
  induction calls generalizing m segments with
  | nil => simpa [final] using h
  | cons c rest ih =>
    rw [performAll] at hok
    rw [final]
    cases hc : m.perform c with
    | error t => simp [hc, Except.isOk, Except.toBool] at hok
    | ok p =>
      have hrest := ih (holds_of_perform h hc) fun answer ha => hok answer (by simp [hc, ha])
      rw [append_assoc] at hrest
      cases hs : c.segment? table <;> simpa [filterMap_cons, hs] using hrest

/-- A segment that ends behind the largest slot is refused, and no other. -/
lemma traps_iff (m : Machine) (table off : Nat) (elements : List Nat) (rest : List Call) :
    2 ^ 32 - 1 < off + elements.length ↔
      performAll (.tableInit table off elements :: rest) m = [.error .outOfBounds] ∧
        final (.tableInit table off elements :: rest) m = m := by
  by_cases h : maxTableSize < off + elements.length
  · have hcall : m.perform (.tableInit table off elements) = .error .outOfBounds := by
      rw [perform, Table.fill, if_pos h]
      rfl
    exact ⟨fun _ => ⟨by rw [performAll, hcall], by rw [final, hcall]⟩, fun _ => h⟩
  · obtain ⟨p, hcall⟩ : ∃ p, m.perform (.tableInit table off elements) = .ok p :=
      ⟨_, by rw [perform, Table.fill, if_neg h]; rfl⟩
    refine ⟨fun h' => absurd h' h, fun h' => ?_⟩
    rw [performAll, hcall] at h'
    cases h'.1

/-- **A table after any number of calls**, if it was empty before. It holds the segments that were
copied into it. A call traps if and only if its segment ends behind the largest slot, and then
changes nothing. -/
theorem tables_of_run {calls : List Call} (hempty : (m.tables table).size = 0)
    (hok : ∀ answer ∈ performAll calls m, answer.isOk = true) :
    ((final calls m).tables table).Holds (calls.filterMap (Call.segment? table)) ∧
      ∀ off elements rest, 2 ^ 32 - 1 < off + elements.length ↔
        performAll (.tableInit table off elements :: rest) (final calls m) = [.error .outOfBounds] ∧
          final (.tableInit table off elements :: rest) (final calls m) = final calls m :=
  ⟨by simpa using holds_of_run (Table.holds_nil hempty) hok, traps_iff (final calls m) table⟩

/-- Segments with a gap between them, and one over both. -/
theorem tables_of_run_overlap : ∃ m : Machine,
    final [.tableInit 0 3 [7, 8], .tableInit 1 0 [9], .tableInit 0 0 [5, 6],
      .tableInit 0 1 [1, 2, 3]]
        {} = m ∧ (m.tables 0).Holds [(3, [7, 8]), (0, [5, 6]), (1, [1, 2, 3])] ∧
      (m.tables 0).get? 3 = some 3 ∧ (m.tables 0).get? 4 = some 8 := by
  obtain ⟨h, -⟩ := @tables_of_run {} 0 [.tableInit 0 3 [7, 8], .tableInit 1 0 [9],
    .tableInit 0 0 [5, 6], .tableInit 0 1 [1, 2, 3]] rfl (by decide +kernel)
  exact ⟨_, rfl, h, h.last [(3, [7, 8]), (0, [5, 6])] (1, [1, 2, 3]) [] rfl 3 (by decide) (by simp),
    h.last [] (3, [7, 8]) _ rfl 4 (by decide) (by decide)⟩

end Machine

end WasmToC.Support

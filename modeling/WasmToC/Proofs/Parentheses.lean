import Mathlib.Data.List.TakeWhile
import WasmToC.Proofs.LineWriter

/-!
# Matching parentheses

An operand stands without parentheses of its own if it is a word or a number, or if its first
parenthesis, perhaps after a word, is closed by its last character. To put any other operand in
parentheses is enough: they match each other as long as those of the operand do.

The test can be made by counting what is open, and by the places of characters in bytes. Characters
in front of the first parenthesis have one byte each once the test has come so far, so that counting
characters and counting bytes come to the same place.

## Main definitions

* `C.Balanced` — parentheses that match.
* `Checked.isTightBytes` — the test, by places in bytes.

## Main results

* `C.afterClose?_eq_some_iff` — what closes an open parenthesis.
* `C.isTight_iff` — texts that need no parentheses.
* `Checked.isTight_eq`, `Checked.isTightBytes_eq` — counting never goes below none.
* `C.operand_exact` — operands.
-/

namespace WasmToC

open List

namespace C

variable {outer : Nat} {c : Char} {cs text pre inside rest : List Char}

/-! ## Parentheses that match -/

/-- Parentheses that match: no beginning closes more than it opens, and all that is opened is
closed. -/
def Balanced (cs : List Char) : Prop :=
  (∀ n, (cs.take n).count ')' ≤ (cs.take n).count '(') ∧ cs.count ')' = cs.count '('

/-- Parentheses that match, together with those that were open before. -/
def Closes (outer : Nat) (cs : List Char) : Prop :=
  (∀ n, (cs.take n).count ')' ≤ (cs.take n).count '(' + outer) ∧ cs.count ')' = cs.count '(' + outer

lemma closes_nil : Closes outer [] ↔ outer = 0 := by
  simp [Closes, eq_comm]

lemma closes_open : Closes outer ('(' :: cs) ↔ Closes (outer + 1) cs := by
  rw [Closes, ← Nat.and_forall_add_one]
  simp [Closes, Nat.add_assoc, Nat.add_comm 1]

lemma closes_close : Closes (outer + 1) (')' :: cs) ↔ Closes outer cs := by
  rw [Closes, ← Nat.and_forall_add_one]
  simp [Closes, ← Nat.add_assoc]

lemma not_closes_close : ¬Closes 0 (')' :: cs) := by
  intro h
  simpa using h.1 1

lemma closes_other (hopen : c ≠ '(') (hclose : c ≠ ')') :
    Closes outer (c :: cs) ↔ Closes outer cs := by
  rw [Closes, ← Nat.and_forall_add_one]
  simp [Closes, hopen, hclose]

/-- A parenthesis behind closes one more. -/
lemma Closes.concat (h : Closes outer cs) : Closes (outer + 1) (cs ++ [')']) := by
  refine ⟨fun n => ?_, by simp [h.2, Nat.add_assoc]⟩
  rw [take_append, count_append, count_append]
  have hlast := (take_sublist (n - cs.length) [')']).count_le ')'
  have hn := h.1 n
  simp only [count_singleton_self] at hlast
  omega

/-- **What closes an open parenthesis**: the first one that leaves nothing open. -/
theorem afterClose?_eq_some_iff : afterClose? outer text = some rest ↔
    ∃ inside, text = inside ++ ')' :: rest ∧ Closes outer inside := by
  induction text generalizing outer with
  | nil => simp [afterClose?]
  | cons c text ih =>
    -- the part up to the closing parenthesis has the first character, or nothing
    have hsplit : (∃ inside, c :: text = inside ++ ')' :: rest ∧ Closes outer inside) ↔
        c = ')' ∧ text = rest ∧ outer = 0 ∨
          ∃ inside, text = inside ++ ')' :: rest ∧ Closes outer (c :: inside) := by
      constructor
      · rintro ⟨_ | ⟨c', inside⟩, heq, h⟩
        · exact .inl ⟨(List.cons.inj heq).1, (List.cons.inj heq).2, closes_nil.mp h⟩
        · obtain ⟨rfl, htext⟩ := List.cons.inj heq
          exact .inr ⟨inside, htext, h⟩
      · rintro (⟨rfl, rfl, rfl⟩ | ⟨inside, rfl, h⟩)
        · exact ⟨[], rfl, closes_nil.mpr rfl⟩
        · exact ⟨c :: inside, rfl, h⟩
    rw [hsplit, afterClose?.eq_def]
    by_cases hopen : c = '('
    · simp [hopen, ih, closes_open]
    by_cases hclose : c = ')'
    · cases outer with
      | zero => simp [hclose, not_closes_close]
      | succ outer => simp [hclose, ih, closes_close]
    · simp [hopen, hclose, ih, closes_other hopen hclose]

/-! ## Texts that need no parentheses -/

lemma isTight_of_not_mem (h : '(' ∉ text) :
    isTight text = (text.all isNumeralChar && !text.isEmpty) := by
  unfold isTight
  split
  · next hall => rw [hall, Bool.true_and]
  · next hall =>
    rw [Bool.eq_false_iff.mpr hall, Bool.false_and]
    split
    · next inside hdrop =>
      exact absurd ((dropWhile_sublist _).mem (hdrop ▸ mem_cons_self)) h
    · rfl

/-- A text is told by what stands in front of its first parenthesis, and by what is behind the one
that closes it. -/
lemma isTight_append (h : '(' ∉ pre) : isTight (pre ++ '(' :: inside) =
    (pre.all isWordChar && afterClose? 0 inside == some []) := by
  have hall : ¬(pre ++ '(' :: inside).all isNumeralChar = true := fun hall =>
    absurd (all_eq_true.mp hall '(' (by simp)) (by decide)
  rw [isTight, if_neg hall]
  by_cases hword : pre.all isWordChar = true
  · rw [dropWhile_append_of_pos (all_eq_true.mp hword), hword]
    rfl
  · have hne : pre.dropWhile isWordChar ≠ [] := fun hnil =>
      hword (all_eq_true.mpr (dropWhile_eq_nil_iff.mp hnil))
    rw [dropWhile_append, if_neg (by simpa using hne), Bool.eq_false_iff.mpr hword]
    obtain ⟨c, tail, hc⟩ := exists_cons_of_ne_nil hne
    have hmem : c ∈ pre := (dropWhile_sublist _).mem (hc ▸ mem_cons_self)
    have hc' : c ≠ '(' := fun heq => h (heq ▸ hmem)
    rw [hc, cons_append, Bool.false_and]
    split
    · next heq => exact absurd (List.cons.inj heq).1 hc'
    · rfl

/-- **Texts that need no parentheses**: words and numbers, and a parenthesis that closes at the end,
perhaps after a word. -/
theorem isTight_iff : isTight text = true ↔ (text ≠ [] ∧ ∀ c ∈ text, isNumeralChar c = true) ∨
    ∃ word inside, text = word ++ '(' :: (inside ++ [')']) ∧ (∀ c ∈ word, isWordChar c = true) ∧
      Balanced inside := by
  constructor
  · intro h
    by_cases hmem : '(' ∈ text
    · obtain ⟨pre, inside, rfl, hpre⟩ := eq_append_cons_of_mem hmem
      rw [isTight_append hpre, Bool.and_eq_true, beq_iff_eq, afterClose?_eq_some_iff] at h
      obtain ⟨hword, inner, rfl, hinner⟩ := h
      exact .inr ⟨pre, inner, rfl, all_eq_true.mp hword, hinner⟩
    · rw [isTight_of_not_mem hmem] at h
      exact .inl (by simpa [and_comm] using h)
  · rintro (⟨hne, hall⟩ | ⟨word, inside, rfl, hword, hinside⟩)
    · rw [isTight, if_pos (all_eq_true.mpr hall)]
      simpa using hne
    · have hopen : '(' ∉ word := fun h => absurd (hword '(' h) (by decide)
      have hclose : afterClose? 0 (inside ++ [')']) = some [] :=
        afterClose?_eq_some_iff.mpr ⟨inside, rfl, hinside⟩
      rw [isTight_append hopen, all_eq_true.mpr hword, hclose]
      rfl

end C

/-! ## Counting what is open -/

namespace Checked

variable {text pre inside : List Char}

/-- Counting open parentheses finds what follows the one that closes the first. -/
lemma closesLast_succ (outer : Nat) (text : List Char) :
    closesLast (outer + 1) text = .ok (C.afterClose? outer text == some []) := by
  induction text generalizing outer with
  | nil => rfl
  | cons c rest ih =>
    rw [closesLast, C.afterClose?.eq_def]
    by_cases hopen : c = '('
    · simp only [hopen, if_true]
      exact ih _
    by_cases hclose : c = ')'
    · simp only [hclose, if_true, sub, Nat.le_add_left]
      cases outer with
      | zero => cases rest <;> rfl
      | succ outer => exact ih outer
    · simp only [hopen, hclose, if_false]
      exact ih _

/-- The test by counting, for a text with a parenthesis: the last character need not be looked at
beforehand. -/
lemma closesLast_append (pre inside : List Char) :
    (if pre.all C.isWordChar && (pre ++ '(' :: inside).getLast? = some ')' then
        closesLast 0 ('(' :: inside)
      else .ok false) = .ok (pre.all C.isWordChar && C.afterClose? 0 inside == some []) := by
  rw [closesLast, if_pos rfl, closesLast_succ]
  by_cases hlast : (pre ++ '(' :: inside).getLast? = some ')'
  · cases pre.all C.isWordChar <;> simp [hlast]
  · have hne : C.afterClose? 0 inside ≠ some [] := by
      intro hclose
      obtain ⟨inner, rfl, -⟩ := C.afterClose?_eq_some_iff.mp hclose
      exact hlast (by rw [← cons_append, ← append_assoc, getLast?_concat])
    rw [if_neg (by simp only [hlast]; simp), beq_eq_false_iff_ne.mpr hne, Bool.and_false]

lemma findIdx?_open (h : '(' ∉ text) : text.findIdx? (· = '(') = none := by
  rw [findIdx?_eq_none_iff]
  intro c hc
  simpa using fun heq : c = '(' => h (heq ▸ hc)

/-- **Counting parentheses never goes below none**, and finds whether an operand needs them. -/
theorem isTight_eq (text : List Char) : isTight text = .ok (C.isTight text) := by
  by_cases hall : text.all C.isNumeralChar = true
  · rw [isTight, C.isTight, if_pos hall, if_pos hall]
  rw [isTight, if_neg hall]
  by_cases hmem : '(' ∈ text
  · obtain ⟨pre, inside, rfl, hpre⟩ := eq_append_cons_of_mem hmem
    have hfind : (pre ++ '(' :: inside).findIdx? (· = '(') = some pre.length := by
      have hnone : pre.findIdx? (· = '(') = none := findIdx?_open hpre
      simp [findIdx?_append, findIdx?_cons, hnone]
    rw [hfind, C.isTight_append hpre, ← closesLast_append]
    have hslice : slice (pre ++ '(' :: inside) pre.length = .ok ('(' :: inside) := by
      simp [slice]
    simp only [hslice, take_left]
    rfl
  · rw [findIdx?_open hmem, C.isTight_of_not_mem hmem, Bool.eq_false_iff.mpr hall, Bool.false_and]

/-! ## Places in bytes -/

/-- The number of bytes of a text. -/
def bytes (text : List Char) : Nat := (text.map Char.utf8Size).sum

/-- Characters with the places at which they begin, in bytes. -/
def offsets : (start : Nat) → List Char → List (Nat × Char)
  | _, [] => []
  | start, c :: rest => (start, c) :: offsets (start + c.utf8Size) rest

/-- As `closesLast`, in a text of `total` bytes: the last character has the last place. -/
def closesLastBytes (total : Nat) : (d : Nat) → List (Nat × Char) → Except Failure Bool
  | _, [] => .ok false
  | d, (i, c) :: rest =>
    if c = '(' then closesLastBytes total (d + 1) rest
    else if c = ')' then do
      let d ← sub d 1
      if d = 0 then return i == (← sub total 1) else closesLastBytes total d rest
    else closesLastBytes total d rest

/-- As `isTight`, where the first parenthesis is known by its place in bytes, and as many characters
as this are passed over. -/
def isTightBytes (text : List Char) : Except Failure Bool :=
  if text.all C.isNumeralChar then .ok !text.isEmpty
  else
    match (offsets 0 text).find? (·.2 = '(') with
    | none => .ok false
    | some (start, _) =>
      if ((offsets 0 text).takeWhile (·.1 < start)).all (C.isWordChar ·.2) && text.getLast? =
        some ')'
      then closesLastBytes (bytes text) 0 ((offsets 0 text).drop start)
      else .ok false

lemma bytes_cons (c : Char) (text : List Char) : bytes (c :: text) = c.utf8Size + bytes text :=
  rfl

lemma offsets_append (start : Nat) (pre text : List Char) :
    offsets start (pre ++ text) = offsets start pre ++ offsets (start + bytes pre) text := by
  induction pre generalizing start with
  | nil => rfl
  | cons c pre ih => rw [cons_append, offsets, ih, offsets, bytes_cons, Nat.add_assoc]; rfl

lemma map_snd_offsets (start : Nat) (text : List Char) : (offsets start text).map (·.2) = text := by
  induction text generalizing start with
  | nil => rfl
  | cons c text ih => rw [offsets, map_cons, ih]

lemma lt_of_mem_offsets {start : Nat} {p : Nat × Char} (h : p ∈ offsets start text) :
    p.1 < start + bytes text := by
  induction text generalizing start with
  | nil => cases h
  | cons c text ih =>
    have hpos := c.utf8Size_pos
    rw [bytes_cons]
    rcases mem_cons.mp h with rfl | h
    · exact Nat.lt_add_of_pos_right (by omega)
    · have hlt := ih h
      omega

lemma utf8Size_of_isWordChar {c : Char} (h : C.isWordChar c = true) : c.utf8Size = 1 := by
  rw [Char.utf8Size_eq_one_iff]
  delta C.isWordChar Char.isAlphanum Char.isAlpha Char.isUpper Char.isLower Char.isDigit at h
  simp only [Bool.or_eq_true, Bool.and_eq_true, decide_eq_true_eq] at h
  rcases h with ((h | h) | h) | rfl
  · exact UInt32.le_trans h.2 (by decide)
  · exact UInt32.le_trans h.2 (by decide)
  · exact UInt32.le_trans h.2 (by decide)
  · decide

/-- Words have one byte for each character. -/
lemma bytes_word (h : ∀ c ∈ pre, C.isWordChar c = true) : bytes pre = pre.length := by
  rw [bytes, map_congr_left fun c hc => utf8Size_of_isWordChar (h c hc), map_const',
    sum_replicate_nat, Nat.mul_one]

/-- The last place is that of the last character. -/
lemma closesLastBytes_offsets {total start : Nat} (d : Nat) (h : start + bytes text = total) :
    closesLastBytes total d (offsets start text) = closesLast d text := by
  induction text generalizing start d with
  | nil => rfl
  | cons c text ih =>
    rw [bytes_cons, ← Nat.add_assoc] at h
    simp only [offsets, closesLastBytes, closesLast, ih _ h]
    by_cases hclose : c = ')'
    · have hsize : c.utf8Size = 1 := by rw [hclose]; decide
      have hlast : (start == total - 1) = text.isEmpty := by
        cases text with
        | nil => simp [← h, hsize, bytes]
        | cons c' text =>
          have hpos := c'.utf8Size_pos
          rw [bytes_cons] at h
          simp only [isEmpty_cons, beq_eq_false_iff_ne]
          omega
      simp only [sub, show 1 ≤ total by omega, if_true, ← hlast]
      rfl
    · simp only [hclose, if_false]

/-- **Places in bytes are as good as numbers of characters.** -/
theorem isTightBytes_eq (text : List Char) : isTightBytes text = .ok (C.isTight text) := by
  by_cases hall : text.all C.isNumeralChar = true
  · rw [isTightBytes, C.isTight, if_pos hall, if_pos hall]
  rw [isTightBytes, if_neg hall]
  have hnone {cs : List Char} (h : '(' ∉ cs) : (offsets 0 cs).find? (·.2 = '(') = none := by
    rw [find?_eq_none]
    intro p hp heq
    have hmem := mem_map_of_mem (f := (·.2)) hp
    rw [map_snd_offsets, of_decide_eq_true heq] at hmem
    exact h hmem
  by_cases hmem : '(' ∈ text
  · obtain ⟨pre, inside, rfl, hpre⟩ := eq_append_cons_of_mem hmem
    have hoffsets : offsets 0 (pre ++ '(' :: inside) =
        offsets 0 pre ++ offsets (bytes pre) ('(' :: inside) := by
      rw [offsets_append, Nat.zero_add]
    have hfind : (offsets 0 (pre ++ '(' :: inside)).find? (·.2 = '(') = some (bytes pre, '(') := by
      rw [hoffsets, find?_append, hnone hpre]
      rfl
    have htake : (offsets 0 (pre ++ '(' :: inside)).takeWhile (·.1 < bytes pre) =
        offsets 0 pre := by
      rw [hoffsets, takeWhile_append_of_pos fun p hp => by simpa using lt_of_mem_offsets hp]
      simp [offsets]
    have hword : (offsets 0 pre).all (C.isWordChar ·.2) = pre.all C.isWordChar := by
      rw [← Function.comp_def, ← all_map, map_snd_offsets]
    simp only [hfind, htake, hword, C.isTight_append hpre, ← closesLast_append]
    by_cases hall : pre.all C.isWordChar = true
    · -- as many characters as there are bytes are passed over
      have hdrop : (offsets 0 (pre ++ '(' :: inside)).drop (bytes pre) =
          offsets (bytes pre) ('(' :: inside) := by
        refine hoffsets ▸ drop_left' ?_
        rw [bytes_word (all_eq_true.mp hall), ← length_map (·.2), map_snd_offsets]
      rw [hdrop, closesLastBytes_offsets 0 (by simp [bytes])]
    · rw [Bool.eq_false_iff.mpr hall, Bool.false_and, if_neg (by simp), if_neg (by simp)]
  · rw [hnone hmem, C.isTight_of_not_mem hmem, Bool.eq_false_iff.mpr hall, Bool.false_and]

end Checked

/-! ## Operands -/

namespace C

/-- What is put around an operand matches, if its own parentheses do. -/
lemma Balanced.wrap {cs : List Char} (h : Balanced cs) : Balanced ('(' :: (cs ++ [')'])) :=
  closes_open.mpr (Closes.concat (show Closes 0 cs from h))

/-- **The test of operands is exact**, for every text. By places in bytes it never counts below
none open, and it finds words, numbers, and texts whose first parenthesis is closed at the end. An
operand whose parentheses match is not changed a second time, and its parentheses still match. -/
theorem operand_exact (s : String) : Checked.isTightBytes s.toList = .ok (isTight s.toList) ∧
    (isTight s.toList = true ↔ (s.toList ≠ [] ∧ ∀ c ∈ s.toList, isNumeralChar c = true) ∨
      ∃ word inside, s.toList = word ++ '(' :: (inside ++ [')']) ∧
        (∀ c ∈ word, isWordChar c = true) ∧ Balanced inside) ∧
    (Balanced s.toList → operand (operand s) = operand s ∧ Balanced (operand s).toList) := by
  refine ⟨Checked.isTightBytes_eq _, isTight_iff, fun h => ?_⟩
  by_cases htight : isTight s.toList = true
  · have hsame : operand s = s := if_pos htight
    rw [hsame]
    exact ⟨hsame, h⟩
  · have htext : (operand s).toList = '(' :: (s.toList ++ [')']) := by
      rw [operand, if_neg htight]
      simp
    refine ⟨if_pos (isTight_iff.mpr (.inr ⟨[], s.toList, htext, by simp, h⟩)), ?_⟩
    rw [htext]
    exact h.wrap

/-- A letter of two bytes does not belong to a word. -/
theorem operand_exact_accented : isTight "é(à)".toList = false ∧
    operand (operand "é(à)") = operand "é(à)" ∧ Balanced (operand "é(à)").toList := by
  have hinside : Balanced ['à'] := (closes_other (by decide) (by decide)).mpr (closes_nil.mpr rfl)
  have h : Balanced "é(à)".toList :=
    (@closes_other 0 'é' _ (by decide) (by decide)).mpr hinside.wrap
  exact ⟨by decide, (operand_exact "é(à)").2.2 h⟩

end C

end WasmToC

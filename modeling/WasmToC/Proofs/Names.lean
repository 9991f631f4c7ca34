import Mathlib.Algebra.Ring.Nat
import Mathlib.Data.List.Nodup
import WasmToC.Proofs.Inversion

/-!
# Names that tell things apart

Parameters, locals, temporaries and labels are a letter and a number, so that their names differ
where they do. Every symbol at file scope has an underscore, and so is never the name of a
variable. Symbols of one kind differ from each other if those of the imports do, since whatever the
module names itself takes a name that is free.

## Main results

* `C.localName_inj`, `C.tempName_inj`, `C.localName_ne_tempName`.
* `C.Allotment.take_not_mem` — a name that is taken was free.
* `C.Allotment.take_gives_least` — it has the least suffix that was, if it has one.
* `C.Symbols.idxOf?_function`, `C.Symbols.idxOf?_global` — a symbol stands for one
  function and one global at most.
-/

namespace WasmToC.C

open List Allotment

variable {i j : Nat} {name x : String}

/-! ## Numbered names -/

/-- A number can be told from its digits. -/
lemma toDigits_inj (h : Nat.toDigits 10 i = Nat.toDigits 10 j) : i = j := by
  have hi := Nat.ofDigitChars_toDigits (b := 10) (n := i) (by decide) (by decide)
  rw [h, Nat.ofDigitChars_toDigits (by decide) (by decide)] at hi
  exact hi.symm

/-- The letter and the number of a name can be told from it. -/
lemma letter_number_inj {a b : Char} {y : String} (hx : x.toList = a :: Nat.toDigits 10 i)
    (hy : y.toList = b :: Nat.toDigits 10 j) (h : x = y) : a = b ∧ i = j := by
  rw [h, hy, List.cons.injEq] at hx
  exact ⟨hx.1.symm, (toDigits_inj hx.2).symm⟩

/-- A letter and a number make a name without an underscore. -/
lemma underscore_notMem_numbered {a : Char} (hx : x.toList = a :: Nat.toDigits 10 i)
    (ha : '_' ≠ a) : '_' ∉ x.toList := by
  rw [hx, mem_cons, not_or]
  exact ⟨ha, Nat.underscore_not_in_toDigits⟩

/-- Parameters have the letter `p`, and other locals the letter `l`. -/
lemma toList_localName (params i : Nat) :
    (localName params i).toList = (if i < params then 'p' else 'l') :: Nat.toDigits 10 i := by
  unfold localName
  split <;> simp [toString, Nat.toList_repr]

/-- Temporaries have the letter `t`. -/
lemma toList_tempName (i : Nat) : (tempName i).toList = 't' :: Nat.toDigits 10 i := by
  simp [tempName, toString, Nat.toList_repr]

/-- Different locals have different names. -/
lemma localName_inj {params : Nat} (h : localName params i = localName params j) : i = j :=
  (letter_number_inj (toList_localName _ _) (toList_localName _ _) h).2

/-- Different temporaries have different names. -/
lemma tempName_inj (h : tempName i = tempName j) : i = j :=
  (letter_number_inj (toList_tempName _) (toList_tempName _) h).2

/-- A local and a temporary have different names. -/
lemma localName_ne_tempName (params i j : Nat) : localName params i ≠ tempName j := by
  intro h
  have hl := (letter_number_inj (toList_localName _ _) (toList_tempName _) h).1
  split at hl <;> exact absurd hl (by decide)

/-- A local has no underscore. -/
lemma underscore_notMem_localName (params i : Nat) : '_' ∉ (localName params i).toList :=
  underscore_notMem_numbered (toList_localName _ _) (by split <;> decide)

/-- A temporary has no underscore. -/
lemma underscore_notMem_tempName (i : Nat) : '_' ∉ (tempName i).toList :=
  underscore_notMem_numbered (toList_tempName _) (by decide)

/-! ## Underscores -/

/-- An underscore is still there in an identifier. -/
lemma underscore_mem_identifier (h : '_' ∈ name.toList) : '_' ∈ (identifier name).toList := by
  have hw : '_' ∈ name.toList.map fun c => if isWordChar c then c else '_' :=
    mem_map.mpr ⟨'_', h, by decide⟩
  unfold identifier
  generalize name.toList.map (fun c => if isWordChar c then c else '_') = word at hw ⊢
  cases word with
  | nil => simp
  | cons c rest =>
    simp only [String.toList_ofList]
    split
    · exact mem_cons_of_mem _ hw
    · exact hw

/-- A suffix brings an underscore. -/
lemma underscore_mem_suffixed (name : String) (k : Nat) : '_' ∈ (suffixed name k).toList := by
  simp [suffixed, toString]

/-- The symbol of an import has an underscore. -/
lemma underscore_mem_importSymbol (i : Import) : '_' ∈ (importSymbol i).toList :=
  underscore_mem_identifier (by simp)

/-- So has the symbol that anything else wants. -/
lemma underscore_mem_wantedSymbol (m : Module) (stem : String) (kind : ExternKind)
    (letter : String) (i : Nat) : '_' ∈ (wantedSymbol m stem kind letter i).toList := by
  unfold wantedSymbol
  split
  · exact underscore_mem_identifier (by simp)
  · simp

namespace Allotment

variable {a b : Allotment} {fixed? : Nat → Option String} {wanted : Nat → String} {is : List Nat}
  {taken post names : List String} {last n m : Nat}

/-! ## Free names -/

/-- Different suffixes make different names. -/
lemma suffixed_inj (h : suffixed name i = suffixed name j) : i = j := by
  have hl := congrArg String.toList h
  simp only [suffixed, toString, String.toList_append, Nat.toList_repr, append_assoc,
    append_cancel_left_eq] at hl
  exact toDigits_inj (by simpa using hl)

/-- There are no more suffixes in a row that are taken than names that are. -/
lemma le_length_of_suffixed_mem (h : ∀ k < m, suffixed name (n + k) ∈ taken) :
    m ≤ taken.length := by
  have hnodup : ((List.range m).map fun k => suffixed name (n + k)).Nodup := by
    rw [nodup_iff_pairwise_ne, pairwise_map]
    refine nodup_range.imp fun hne heq => hne ?_
    have := suffixed_inj heq
    omega
  have hsub : ((List.range m).map fun k => suffixed name (n + k)) ⊆ taken := by
    intro x hx
    obtain ⟨k, hk, rfl⟩ := mem_map.mp hx
    exact h k (mem_range.mp hk)
  simpa using hnodup.length_le_of_subset hsub

/-- The search for a free suffix from one on, which tries the next suffix as long as it takes. -/
inductive Finds (taken : List String) (name : String) : (first found : Nat) → Prop
  | free {n : Nat} (h : suffixed name n ∉ taken) : Finds taken name n n
  | next {n m : Nat} (h : suffixed name n ∈ taken) (hrest : Finds taken name (n + 1) m) :
      Finds taken name n m

/-- What is found is free, and all that was tried before is taken. -/
lemma Finds.least (h : Finds taken name n m) :
    n ≤ m ∧ suffixed name m ∉ taken ∧ ∀ k < m, n ≤ k → suffixed name k ∈ taken := by
  induction h with
  | free h => exact ⟨Nat.le_refl _, h, fun k hk hle => absurd hk (Nat.not_lt.mpr hle)⟩
  | @next n m hn _ ih =>
    refine ⟨Nat.le_of_succ_le ih.1, ih.2.1, fun k hk hle => ?_⟩
    rcases Nat.eq_or_lt_of_le hle with rfl | hlt
    · exact hn
    · exact ih.2.2 k hk hlt

/-- Only one suffix is found. -/
lemma Finds.unique {k : Nat} (h : Finds taken name n m) (h' : Finds taken name n k) : m = k := by
  induction h with
  | free h =>
    cases h' with
    | free => rfl
    | next hn => exact absurd hn h
  | next hn _ ih =>
    cases h' with
    | free h => exact absurd hn h
    | next _ hr => exact ih hr

/-- A search that ends with a suffix has not been cut short. -/
lemma finds_of_freeSuffix {left : Nat} (h : freeSuffix taken name left n = .ok m) :
    Finds taken name n m ∧ m < n + left := by
  induction left generalizing n with
  | zero => cases h
  | succ left ih =>
    rw [freeSuffix] at h
    split at h
    · next hn =>
      obtain ⟨hfinds, hlt⟩ := ih h
      exact ⟨.next (contains_iff_mem.mp hn) hfinds, by omega⟩
    · next hn =>
      cases h
      exact ⟨.free fun hm => hn (contains_iff_mem.mpr hm), by omega⟩

/-- A search fails if all suffixes that are left are taken, and only then. -/
lemma freeSuffix_eq_error {left : Nat} {e : Failure} : freeSuffix taken name left n = .error e ↔
      e = .abort ∧ ∀ k < left, suffixed name (n + k) ∈ taken := by
  induction left generalizing n with
  | zero => simp [freeSuffix, eq_comm]
  | succ left ih =>
    rw [freeSuffix, Nat.forall_lt_succ_left]
    split
    · next hn => simp [ih, contains_iff_mem.mp hn, Nat.add_assoc, Nat.add_comm 1]
    · next hn =>
      have hfree : suffixed name n ∉ taken := fun hm => hn (contains_iff_mem.mpr hm)
      simp [hfree]

/-- A name as it is, or with a suffix. -/
def Variant (name x : String) : Prop := x = name ∨ ∃ k, x = suffixed name k

/-- **A name that is taken was free.** -/
theorem of_take (h : a.take last name = .ok (x, b)) :
    Variant name x ∧ x ∉ a.taken ∧ b.taken = x :: a.taken := by
  unfold take at h
  split at h
  · obtain ⟨k, hk, hr⟩ := bind_eq_ok.mp h
    cases hr
    exact ⟨.inr ⟨k, rfl⟩, (finds_of_freeSuffix hk).1.least.2.1, rfl⟩
  · next hn =>
    cases h
    exact ⟨.inl rfl, fun hm => hn (contains_iff_mem.mpr hm), rfl⟩

/-- No name is taken if the name and all its suffixes are, and only then. -/
lemma take_eq_error {e : Failure} : a.take last name = .error e ↔
    e = .abort ∧ name ∈ a.taken ∧ ∀ k < last, suffixed name (1 + k) ∈ a.taken := by
  unfold take
  by_cases h : a.taken.contains name = true
  · have hmem := contains_iff_mem.mp h
    rw [if_pos h]
    have hsearch := @freeSuffix_eq_error name a.taken 1 last e
    rw [and_iff_right hmem, ← hsearch]
    cases freeSuffix a.taken name last 1 with
    | ok k => constructor <;> rintro ⟨⟩
    | error e' => constructor <;> exact fun h => by cases h; rfl
  · have hfree : name ∉ a.taken := fun hm => h (contains_iff_mem.mpr hm)
    rw [if_neg h]
    refine ⟨?_, fun hall => absurd hall.2.1 hfree⟩
    rintro ⟨⟩

/-- There is always a name to take if there are more suffixes than names that are taken. -/
lemma exists_take (h : a.taken.length < last) (name : String) :
    ∃ x b, a.take last name = .ok (x, b) := by
  cases htake : a.take last name with
  | ok r => exact ⟨r.1, r.2, rfl⟩
  | error e =>
    have := le_length_of_suffixed_mem (take_eq_error.mp htake).2.2
    omega

/-- However many suffixes there are, the same name is taken. -/
lemma take_unique {last' : Nat} {r r' : String × Allotment} (h : a.take last name = .ok r)
    (h' : a.take last' name = .ok r') : r = r' := by
  unfold take at h h'
  split at h
  · next htaken =>
    rw [if_pos htaken] at h'
    obtain ⟨k, hk, hr⟩ := bind_eq_ok.mp h
    obtain ⟨k', hk', hr'⟩ := bind_eq_ok.mp h'
    obtain rfl := (finds_of_freeSuffix hk).1.unique (finds_of_freeSuffix hk').1
    exact Except.ok.inj (hr.symm.trans hr')
  · next htaken =>
    rw [if_neg htaken] at h'
    exact Except.ok.inj (h.symm.trans h')

/-- **A name that is free is given out as it is, and any other with the least suffix that is free.**
Suffixes are positive numbers of 32 bits with a sign; the search for one ends, after no more tries
than there are taken names and one more. The name that is given out was free, and is the only one
that is taken now and was not before. Where the name and all its suffixes are taken, and only
there, the run stops; so it never does while fewer names are taken than there are suffixes.

**Proof sketch.** Different suffixes make different names, so that no more of them in a row can be
taken than there are names. The search, as an induction on the suffixes that are left, passes taken
names only. -/
theorem take_gives_least (a : Allotment) (name : String) :
    (a.taken.length < 2 ^ 31 - 1 → ∃ r, a.take maxSuffix name = .ok r) ∧
    (∀ e, a.take maxSuffix name = .error e ↔ e = .abort ∧ name ∈ a.taken ∧
      ∀ k, 1 ≤ k → k < 2 ^ 31 → suffixed name k ∈ a.taken) ∧
    ∀ x b, a.take maxSuffix name = .ok (x, b) → (name ∉ a.taken ∧ x = name ∨
        name ∈ a.taken ∧ ∃ n, x = suffixed name n ∧ Finds a.taken name 1 n ∧
          1 ≤ n ∧ n < 2 ^ 31 ∧ n ≤ a.taken.length + 1 ∧
          ∀ k < n, 1 ≤ k → suffixed name k ∈ a.taken) ∧
        x ∉ a.taken ∧ ∀ y, y ∈ b.taken ↔ y = x ∨ y ∈ a.taken := by
  refine ⟨fun h => ?_, fun e => ?_, fun x b h => ?_⟩
  · obtain ⟨x, b, htake⟩ := exists_take h name
    exact ⟨_, htake⟩
  · rw [take_eq_error]
    refine and_congr_right fun _ => and_congr_right fun _ =>
      ⟨fun h k hone hk => ?_, fun h k hk => ?_⟩
    · have := h (k - 1) (by unfold maxSuffix; omega)
      rwa [Nat.add_sub_cancel' hone] at this
    · exact h (1 + k) (by omega) (by unfold maxSuffix at hk; omega)
  · obtain ⟨-, hfree, htaken⟩ := of_take h
    refine ⟨?_, hfree, fun y => by rw [htaken, mem_cons]⟩
    unfold take at h
    split at h
    · next hmem =>
      obtain ⟨n, hn, hr⟩ := bind_eq_ok.mp h
      cases hr
      obtain ⟨hfinds, hlt⟩ := finds_of_freeSuffix hn
      obtain ⟨hone, -, hpre⟩ := hfinds.least
      have hshort := le_length_of_suffixed_mem fun k hk =>
        hpre (1 + k) (Nat.add_lt_of_lt_sub' hk) (Nat.le_add_right 1 k)
      exact .inr ⟨contains_iff_mem.mp hmem, n, rfl, hfinds, hone, by unfold maxSuffix at hlt; omega,
        Nat.sub_le_iff_le_add.mp hshort, hpre⟩
    · next hmem =>
      cases h
      exact .inl ⟨fun hm => hmem (contains_iff_mem.mpr hm), rfl⟩

/-! ## Names given out in a row -/

/-- How names are given out one after the other, where some names are taken before and after: what
has a name of its own keeps it, and everything else gets one that is free. -/
inductive Gives (fixed? : Nat → Option String) (wanted : Nat → String) :
    List Nat → (taken names post : List String) → Prop
  | nil {taken : List String} : Gives fixed? wanted [] taken [] taken
  | kept {i : Nat} {x : String} {is : List Nat} {taken names post : List String}
      (hi : fixed? i = some x) (hrest : Gives fixed? wanted is taken names post) :
      Gives fixed? wanted (i :: is) taken (x :: names) post
  | chosen {i : Nat} {x : String} {is : List Nat} {taken names post : List String}
      (hi : fixed? i = none) (hx : Variant (wanted i) x) (hfree : x ∉ taken)
      (hrest : Gives fixed? wanted is (x :: taken) names post) :
      Gives fixed? wanted (i :: is) taken (x :: names) post

/-- The first name is that of the first index, and the others are given out behind it. -/
lemma takeAll_cons_eq_ok {r : List String × Allotment} :
    takeAll last fixed? wanted (i :: is) a = .ok r ↔
      ∃ x c, a.give last (fixed? i) (wanted i) = .ok (x, c) ∧
        ∃ xs b, takeAll last fixed? wanted is c = .ok (xs, b) ∧ (x :: xs, b) = r := by
  simp only [takeAll, bind_eq_ok, pure_eq_ok, Prod.exists]

/-- What is given out is what the relation says. -/
lemma gives_of_takeAll (h : takeAll last fixed? wanted is a = .ok (names, b)) :
    Gives fixed? wanted is a.taken names b.taken := by
  induction is generalizing a names with
  | nil =>
    cases h
    exact .nil
  | cons i is ih =>
    obtain ⟨x, c, hx, xs, b', hrest, hr⟩ := takeAll_cons_eq_ok.mp h
    cases hr
    have hgives := ih hrest
    cases hi : fixed? i with
    | some y =>
      rw [hi] at hx
      cases hx
      exact .kept hi hgives
    | none =>
      rw [hi] at hx
      obtain ⟨hvariant, hfree, htaken⟩ := of_take hx
      exact .chosen hi hvariant hfree (htaken ▸ hgives)

/-- There are always names to give out if there are enough suffixes for all of them. -/
lemma exists_takeAll (fixed? : Nat → Option String) (wanted : Nat → String) (is : List Nat)
    (h : a.taken.length + is.length ≤ last) : ∃ names b,
      takeAll last fixed? wanted is a = .ok (names, b) ∧
        b.taken.length ≤ a.taken.length + is.length := by
  induction is generalizing a with
  | nil => exact ⟨[], a, rfl, Nat.le_refl _⟩
  | cons i is ih =>
    rw [length_cons] at h
    have hf : ∃ x c, a.give last (fixed? i) (wanted i) = .ok (x, c) ∧
        c.taken.length ≤ a.taken.length + 1 := by
      cases fixed? i with
      | some x => exact ⟨x, a, rfl, Nat.le_succ _⟩
      | none =>
        obtain ⟨x, c, htake⟩ := exists_take (by omega : a.taken.length < last) (wanted i)
        exact ⟨x, c, htake, by simp [(of_take htake).2.2]⟩
    obtain ⟨x, c, hx, hc⟩ := hf
    obtain ⟨names, b, hrest, hb⟩ := ih (a := c) (by omega)
    refine ⟨x :: names, b, takeAll_cons_eq_ok.mpr ⟨x, c, hx, names, b, hrest, rfl⟩, ?_⟩
    rw [length_cons]
    omega

/-- However many suffixes there are, the same names are given out. -/
lemma takeAll_unique {last' : Nat} {r r' : List String × Allotment}
    (h : takeAll last fixed? wanted is a = .ok r) (h' : takeAll last' fixed? wanted is a = .ok r') :
    r = r' := by
  induction is generalizing a r r' with
  | nil => exact Except.ok.inj (h.symm.trans h')
  | cons i is ih =>
    obtain ⟨x, c, hx, xs, b, hrest, rfl⟩ := takeAll_cons_eq_ok.mp h
    obtain ⟨x', c', hx', xs', b', hrest', rfl⟩ := takeAll_cons_eq_ok.mp h'
    have hsame : (x, c) = (x', c') := by
      cases hi : fixed? i with
      | some y =>
        rw [hi] at hx hx'
        exact Except.ok.inj (hx.symm.trans hx')
      | none =>
        rw [hi] at hx hx'
        exact take_unique hx hx'
    cases hsame
    cases ih hrest hrest'
    rfl

namespace Gives

variable (h : Gives fixed? wanted is taken names post)
include h

/-- What holds of the names that are kept and of all that are chosen holds of those given out. -/
lemma of_mem {P : String → Prop} (hfixed : ∀ i x, fixed? i = some x → P x)
    (hwanted : ∀ i x, Variant (wanted i) x → P x) : ∀ x ∈ names, P x := by
  induction h with
  | nil => simp
  | kept hi _ ih => exact forall_mem_cons.mpr ⟨hfixed _ _ hi, ih⟩
  | chosen _ hx _ _ ih => exact forall_mem_cons.mpr ⟨hwanted _ _ hx, ih⟩

/-- Every index is given a name. -/
lemma length_eq : names.length = is.length := by
  induction h with
  | nil => rfl
  | kept _ _ ih | chosen _ _ _ _ ih => rw [length_cons, length_cons, ih]

/-- What is taken stays taken. -/
lemma subset : taken ⊆ post := by
  induction h with
  | nil => exact List.Subset.refl _
  | kept _ _ ih => exact ih
  | chosen _ _ _ _ ih => exact List.subset_of_cons_subset ih

/-- A name that is given out is one that an index keeps, or was free. -/
lemma kept_or_free (hx : x ∈ names) : (∃ i ∈ is, fixed? i = some x) ∨ x ∉ taken := by
  induction h with
  | nil => cases hx
  | @kept i y is _ _ _ hi _ ih =>
    rcases mem_cons.mp hx with rfl | hx
    · exact .inl ⟨i, mem_cons_self, hi⟩
    · exact (ih hx).imp_left fun ⟨k, hk, hkept⟩ => ⟨k, mem_cons_of_mem i hk, hkept⟩
  | @chosen i y is _ _ _ _ _ hfree _ ih =>
    rcases mem_cons.mp hx with rfl | hx
    · exact .inr hfree
    · exact (ih hx).imp (fun ⟨k, hk, hkept⟩ => ⟨k, mem_cons_of_mem i hk, hkept⟩)
        fun hx => not_mem_of_not_mem_cons hx

/-- **Names given out are different** if those that are kept are, and were taken before. -/
theorem nodup (hfixed : is.Pairwise fun i j => ∀ x, fixed? i = some x → fixed? j ≠ some x)
    (htaken : ∀ i ∈ is, ∀ x, fixed? i = some x → x ∈ taken) : names.Nodup := by
  induction h with
  | nil => exact nodup_nil
  | kept hi hr ih =>
    rw [pairwise_cons] at hfixed
    obtain ⟨hhere, htail⟩ := forall_mem_cons.mp htaken
    refine nodup_cons.mpr ⟨fun hy => ?_, ih hfixed.2 htail⟩
    rcases hr.kept_or_free hy with ⟨j, hj, hx⟩ | hx
    · exact hfixed.1 j hj _ hi hx
    · exact hx (hhere _ hi)
  | chosen _ _ hfree hr ih =>
    rw [pairwise_cons] at hfixed
    obtain ⟨-, htail⟩ := forall_mem_cons.mp htaken
    refine nodup_cons.mpr ⟨fun hy => ?_, ih hfixed.2 fun j hj x hx => ?_⟩
    · rcases hr.kept_or_free hy with ⟨j, hj, hx⟩ | hx
      · exact hfree (htail j hj _ hx)
      · exact hx mem_cons_self
    · exact mem_cons_of_mem _ (htail j hj x hx)

end Gives

end Allotment

/-! ## Tables that have a name -/

/-- What is inserted is added. -/
lemma mem_insertAscending {k n : Nat} {found : List Nat} :
    k ∈ insertAscending n found ↔ k = n ∨ k ∈ found := by
  induction found with
  | nil => simp [insertAscending]
  | cons j rest ih =>
    unfold insertAscending
    split
    · simp
    · split
      · simp_all
      · simp only [mem_cons, ih]
        exact or_left_comm

/-- The tables that have a symbol. -/
lemma mem_tableIndices {m : Module} {t : Nat} :
    t ∈ tableIndices m ↔ (t ∈ m.segments.map Segment.table ∨
      t ∈ (m.exports.filter fun e => e.kind == .table).map Export.index) ∨
      t < m.importedTables := by
  have hfold (new found : List Nat) :
      t ∈ new.foldl (fun found i => insertAscending i found) found ↔ t ∈ new ∨ t ∈ found := by
    induction new generalizing found with
    | nil => simp
    | cons i new ih => rw [foldl_cons, ih, mem_insertAscending, mem_cons, or_left_comm, or_assoc]
  rw [tableIndices, tablesFrom, hfold, mem_append, mem_range]

/-- An ascending list stays ascending. -/
lemma pairwise_insertAscending {n : Nat} {found : List Nat} (h : found.Pairwise (· < ·)) :
    (insertAscending n found).Pairwise (· < ·) := by
  induction found with
  | nil => simp [insertAscending]
  | cons j rest ih =>
    rw [pairwise_cons] at h
    unfold insertAscending
    split
    · rename_i hlt
      refine pairwise_cons.mpr ⟨fun k hk => ?_, pairwise_cons.mpr h⟩
      rcases mem_cons.mp hk with rfl | hk
      · exact hlt
      · exact Nat.lt_trans hlt (h.1 k hk)
    · split
      · exact pairwise_cons.mpr h
      · refine pairwise_cons.mpr ⟨fun k hk => ?_, ih h.2⟩
        rcases mem_insertAscending.mp hk with rfl | hk
        · omega
        · exact h.1 k hk

/-- No table is listed twice. -/
lemma nodup_tableIndices (m : Module) : (tableIndices m).Nodup := by
  have hfold : ∀ (new found : List Nat), found.Pairwise (· < ·) →
      (new.foldl (fun found i => insertAscending i found) found).Pairwise (· < ·) := by
    intro new
    induction new with
    | nil => exact fun _ h => h
    | cons i new ih => exact fun _ h => ih _ (pairwise_insertAscending h)
  exact (hfold _ _ pairwise_lt_range).imp Nat.ne_of_lt

/-- Looking up each of several different keys gives all values in order. -/
lemma map_lookup_zip {is : List Nat} {names : List String} (hnodup : is.Nodup)
    (hlen : names.length = is.length)
    (fallback : Nat → String) :
    is.map (fun i => ((is.zip names).lookup i).getD (fallback i)) = names := by
  induction is generalizing names with
  | nil => simpa using (length_eq_zero_iff.mp hlen).symm
  | cons i is ih =>
    cases names with
    | nil => simp at hlen
    | cons x names =>
      rw [nodup_cons] at hnodup
      simp only [zip_cons_cons, map_cons, lookup_cons_self, Option.getD_some,
        List.cons.injEq, true_and]
      refine Eq.trans (map_congr_left fun j hj => ?_) (ih hnodup.2 (by simpa using hlen))
      have hne : (j == i) = false := beq_false_of_ne fun h => hnodup.1 (h ▸ hj)
      rw [lookup_cons, hne]

/-! ## The symbols of a module -/

/-- What keeps its name is imported. -/
lemma resolvedSymbol?_eq_some {m : Module} {kind : ExternKind} {count : Nat}
    {own : Option Resolved} (hown : ∀ imp, own ≠ some (.imported imp)) (h : resolvedSymbol?
      (if i < count then (m.importsOf kind)[i]?.map .imported else own) = some x) :
    ∃ imp, (m.importsOf kind)[i]? = some imp ∧ importSymbol imp = x := by
  split at h
  · cases himp : (m.importsOf kind)[i]? with
    | none => simp [himp, resolvedSymbol?] at h
    | some imp => exact ⟨imp, rfl, by simpa [himp, resolvedSymbol?] using h⟩
  · unfold resolvedSymbol? at h
    split at h
    · exact absurd rfl (hown _)
    · cases h

/-- A function that keeps its name is imported. -/
lemma function_imported {m : Module} (h : resolvedSymbol? (m.function? i) = some x) :
    ∃ imp, (m.importsOf .function)[i]? = some imp ∧ importSymbol imp = x :=
  resolvedSymbol?_eq_some (fun imp => by split <;> simp) h

/-- A global that keeps its name is imported. -/
lemma global_imported {m : Module} (h : resolvedSymbol? (m.global? i) = some x) :
    ∃ imp, (m.importsOf .global)[i]? = some imp ∧ importSymbol imp = x :=
  resolvedSymbol?_eq_some (fun imp => by split <;> simp) h

section Kept

variable {m : Module} {kind : ExternKind} {fixed? : Nat → Option String}
  (hfixed : ∀ {i x}, fixed? i = some x →
    ∃ imp, (m.importsOf kind)[i]? = some imp ∧ importSymbol imp = x)
include hfixed

/-- A name that is kept has an underscore. -/
lemma underscore_mem_kept (h : fixed? i = some x) : '_' ∈ x.toList := by
  obtain ⟨imp, -, rfl⟩ := hfixed h
  exact underscore_mem_importSymbol imp

/-- A name that is kept is that of an import. -/
lemma mem_imports_of_kept (h : fixed? i = some x) : x ∈ m.imports.map importSymbol := by
  obtain ⟨imp, himp, rfl⟩ := hfixed h
  exact mem_map_of_mem (mem_filter.mp (mem_of_getElem? himp)).1

/-- Names that imports keep differ if the names of all imports do. -/
lemma kept_ne (hImports : (m.imports.map importSymbol).Nodup) (hij : i ≠ j)
    (hi : fixed? i = some x) : fixed? j ≠ some x := by
  intro hj
  obtain ⟨imp, himp, rfl⟩ := hfixed hi
  obtain ⟨imp', himp', heq⟩ := hfixed hj
  have hnodup : ((m.importsOf kind).map importSymbol).Nodup :=
    hImports.sublist (filter_sublist.map importSymbol)
  have hii : ((m.importsOf kind).map importSymbol)[i]? = some (importSymbol imp) := by
    simp [himp]
  have hjj : ((m.importsOf kind).map importSymbol)[j]? = some (importSymbol imp) := by
    simp [himp', heq]
  obtain ⟨hlt, -⟩ := List.getElem?_eq_some_iff.mp hii
  exact hij ((getElem?_inj hlt hnodup).mp (hii.trans hjj.symm))

end Kept

/-- What holds of all names and of the fallback holds of a name that is looked up. -/
lemma of_getD {P : String → Prop} {names : List String} {fallback : String}
    (h : ∀ x ∈ names, P x) (hf : P fallback) (i : Nat) : P (names[i]?.getD fallback) := by
  cases hi : names[i]? with
  | none => exact hf
  | some x => exact h x (mem_of_getElem? hi)

/-- Where names differ, a name stands at one place only. -/
lemma idxOf?_getD {names : List String} (h : names.Nodup) (hi : i < names.length)
    (fallback : String) : names.idxOf? (names[i]?.getD fallback) = some i := by
  rw [getElem?_eq_getElem hi, Option.getD_some, idxOf?_eq_some_iff]
  refine ⟨hi, rfl, fun j hj heq => ?_⟩
  have := (getElem_inj h).mp heq
  omega

/-- A suffix leaves an underscore where it is. -/
lemma underscore_mem_variant (h : Variant name x) (hname : '_' ∈ name.toList) : '_' ∈ x.toList := by
  rcases h with rfl | ⟨k, rfl⟩
  · exact hname
  · exact underscore_mem_suffixed name k

namespace Symbols

/-- How the symbols of a module are allotted: imports have theirs, the initializer takes a name that
is free, and functions, globals and tables are given names in this order. -/
inductive Allotted (m : Module) (o : Options) (s : Symbols) : Prop
  | intro {taken taken' taken'' : List String} (hstem : s.stem = C.stem o)
      (hinit : Variant (C.stem o ++ "_init") s.initializer)
      (hfree : s.initializer ∉ m.imports.map importSymbol)
      (hfunctions : Gives (fun i => resolvedSymbol? (m.function? i))
        (wantedSymbol m (C.stem o) .function "F")
        (List.range (m.importedFunctions + m.signatures.length))
        (s.initializer :: m.imports.map importSymbol) s.functions taken)
      (hglobals : Gives (fun i => resolvedSymbol? (m.global? i))
        (wantedSymbol m (C.stem o) .global "G")
        (List.range (m.importedGlobals + m.globals.length)) taken s.globals taken')
      (htables : Gives (fun i => (m.tableImport? i).map importSymbol)
        (wantedSymbol m (C.stem o) .table "T") (tableIndices m) taken'
        ((tableIndices m).map s.table) taken'')

/-- Index spaces whose indices have 32 bits. -/
def Fits (m : Module) : Prop :=
  m.importedFunctions + m.signatures.length < 2 ^ 32 ∧
    m.importedGlobals + m.globals.length < 2 ^ 32 ∧ m.importedTables < 2 ^ 32

section Allot

variable {m : Module} {o : Options} {s : Symbols} {last functions globals tables : Nat}
  {w : List Record}

/-- **Symbols can be allotted** if there are as many suffixes as names. -/
theorem exists_allotUpTo (h : nameCount m ≤ last) (o : Options) :
    ∃ s w, allotUpTo last (m.importedFunctions + m.signatures.length)
      (m.importedGlobals + m.globals.length) m.importedTables m o = .ok (s, w) := by
  rw [nameCount, tableIndices] at h
  let a : Allotment := { taken := m.imports.map importSymbol }
  have ha : a.taken.length = m.imports.length := length_map _
  obtain ⟨initializer, b, hinit⟩ := exists_take (by omega : a.taken.length < last)
    (C.stem o ++ "_init")
  have hb : b.taken.length = a.taken.length + 1 := by rw [(of_take hinit).2.2, length_cons]
  obtain ⟨functions, c, hfunctions, hc⟩ := exists_takeAll
    (fun i => resolvedSymbol? (m.function? i)) (wantedSymbol m (C.stem o) .function "F")
    (List.range (m.importedFunctions + m.signatures.length))
    (show b.taken.length + _ ≤ last by rw [length_range]; omega)
  obtain ⟨globals, d, hglobals, hd⟩ := exists_takeAll
    (fun i => resolvedSymbol? (m.global? i)) (wantedSymbol m (C.stem o) .global "G")
    (List.range (m.importedGlobals + m.globals.length))
    (show c.taken.length + _ ≤ last by rw [length_range] at hc ⊢; omega)
  obtain ⟨tables, e, htables, -⟩ := exists_takeAll
    (fun i => (m.tableImport? i).map importSymbol) (wantedSymbol m (C.stem o) .table "T")
    (tablesFrom m.importedTables m)
    (show d.taken.length + _ ≤ last by rw [length_range] at hc hd; omega)
  exact ⟨_, _, bind_eq_ok.mpr ⟨_, hinit, bind_eq_ok.mpr ⟨_, hfunctions,
    bind_eq_ok.mpr ⟨_, hglobals, bind_eq_ok.mpr ⟨_, htables, rfl⟩⟩⟩⟩⟩

/-- However many suffixes there are, the same symbols are allotted. -/
lemma allotUpTo_unique {last' : Nat} {r r' : Symbols × List Record}
    (h : allotUpTo last functions globals tables m o = .ok r)
    (h' : allotUpTo last' functions globals tables m o = .ok r') : r = r' := by
  obtain ⟨p, hp, h⟩ := bind_eq_ok.mp h
  obtain ⟨q, hq, h'⟩ := bind_eq_ok.mp h'
  obtain rfl := take_unique hp hq
  obtain ⟨p1, hp, h⟩ := bind_eq_ok.mp h
  obtain ⟨q1, hq, h'⟩ := bind_eq_ok.mp h'
  obtain rfl := takeAll_unique hp hq
  obtain ⟨p2, hp, h⟩ := bind_eq_ok.mp h
  obtain ⟨q2, hq, h'⟩ := bind_eq_ok.mp h'
  obtain rfl := takeAll_unique hp hq
  obtain ⟨p3, hp, h⟩ := bind_eq_ok.mp h
  obtain ⟨q3, hq, h'⟩ := bind_eq_ok.mp h'
  obtain rfl := takeAll_unique hp hq
  exact Except.ok.inj (h.symm.trans h')

/-- The symbols of a module are allotted. -/
lemma allotUpTo_ofModule (m : Module) (o : Options) :
    ∃ w, allotUpTo (nameCount m) (m.importedFunctions + m.signatures.length)
      (m.importedGlobals + m.globals.length) m.importedTables m o = .ok (ofModule m o, w) := by
  obtain ⟨s, w, h⟩ := exists_allotUpTo (Nat.le_refl (nameCount m)) o
  refine ⟨w, ?_⟩
  rw [ofModule, h]

/-- The symbols of a module are allotted in this way. -/
lemma allotted_ofModule (m : Module) (o : Options) : Allotted m o (ofModule m o) := by
  obtain ⟨w, h⟩ := allotUpTo_ofModule m o
  generalize ofModule m o = s at h
  obtain ⟨⟨initializer, a⟩, hinit, h⟩ := bind_eq_ok.mp h
  obtain ⟨⟨functions, b⟩, hfunctions, h⟩ := bind_eq_ok.mp h
  obtain ⟨⟨globals, c⟩, hglobals, h⟩ := bind_eq_ok.mp h
  obtain ⟨⟨tables, d⟩, htables, h⟩ := bind_eq_ok.mp h
  obtain ⟨hvariant, hfree, htaken⟩ := of_take hinit
  have hgives := gives_of_takeAll htables
  rw [← map_lookup_zip (nodup_tableIndices m) hgives.length_eq fun i => s!"{C.stem o}_T{i}"]
    at hgives
  cases h
  exact .intro rfl hvariant hfree (htaken ▸ gives_of_takeAll hfunctions)
    (gives_of_takeAll hglobals) hgives

/-- Numbers are not cut where index spaces fit. -/
lemma allot_of_fits (h : Fits m) : allot m o =
    allotUpTo maxSuffix (m.importedFunctions + m.signatures.length)
      (m.importedGlobals + m.globals.length) m.importedTables m o := by
  obtain ⟨hfs, hglobals, htables⟩ := h
  rw [allot]
  congr 1 <;> omega

/-- **What is allotted are the symbols of the module**, if its index spaces fit. -/
theorem eq_ofModule (hfits : Fits m) (h : allot m o = .ok (s, w)) : s = ofModule m o := by
  obtain ⟨w', h'⟩ := allotUpTo_ofModule m o
  exact congrArg Prod.fst (allotUpTo_unique (allot_of_fits hfits ▸ h) h')

/-- **Symbols are allotted** if there are no more names than suffixes. -/
theorem exists_allot (h : nameCount m ≤ maxSuffix) (o : Options) :
    ∃ w, allot m o = .ok (ofModule m o, w) := by
  have hfits : Fits m := by
    have hbound : nameCount m < 2 ^ 31 := Nat.lt_of_le_of_lt h (by decide)
    rw [nameCount] at hbound
    have htables : (List.range m.importedTables).length ≤ (tableIndices m).length :=
      nodup_range.length_le_of_subset fun t ht => mem_tableIndices.mpr (.inr (mem_range.mp ht))
    rw [length_range] at htables
    exact ⟨by omega, by omega, by omega⟩
  obtain ⟨s, w, hs⟩ := exists_allotUpTo h o
  rw [← allot_of_fits hfits] at hs
  exact ⟨w, by rw [hs, eq_ofModule hfits hs]⟩

end Allot

namespace Allotted

variable {m : Module} {o : Options} {s : Symbols} (h : Allotted m o s)
include h

/-- The symbol of a function has an underscore. -/
lemma underscore_mem_function (i : Nat) : '_' ∈ (s.function i).toList := by
  obtain ⟨-, -, -, hfunctions, -⟩ := h
  exact of_getD (hfunctions.of_mem (fun _ _ => underscore_mem_kept function_imported)
    fun i _ hx => underscore_mem_variant hx (underscore_mem_wantedSymbol m _ _ _ i))
    (by simp [toString]) i

/-- So have the symbols of all globals. -/
lemma underscore_mem_globals : ∀ x ∈ s.globals, '_' ∈ x.toList := by
  obtain ⟨-, -, -, -, hglobals, -⟩ := h
  exact hglobals.of_mem (fun _ _ => underscore_mem_kept global_imported)
    fun i _ hx => underscore_mem_variant hx (underscore_mem_wantedSymbol m _ _ _ i)

/-- So has the symbol of a global, also of one that is not there. -/
lemma underscore_mem_global (i : Nat) : '_' ∈ (s.global i).toList :=
  of_getD h.underscore_mem_globals (by simp [toString]) i

/-- Every function has a symbol. -/
lemma length_functions : s.functions.length = m.importedFunctions + m.signatures.length := by
  obtain ⟨-, -, -, hfunctions, -⟩ := h
  rw [hfunctions.length_eq, length_range]

/-- Every global has a symbol. -/
lemma length_globals : s.globals.length = m.importedGlobals + m.globals.length := by
  obtain ⟨-, -, -, -, hglobals, -⟩ := h
  rw [hglobals.length_eq, length_range]

variable (hImports : (m.imports.map importSymbol).Nodup)
include hImports

/-- **Different functions have different symbols.** -/
theorem nodup_functions : s.functions.Nodup := by
  obtain ⟨-, -, -, hfunctions, -⟩ := h
  exact hfunctions.nodup (nodup_range.imp fun hij x hi => kept_ne function_imported hImports hij hi)
    fun i _ x hi => mem_cons_of_mem _ (mem_imports_of_kept function_imported hi)

/-- **Different globals have different symbols.** -/
theorem nodup_globals : s.globals.Nodup := by
  obtain ⟨-, -, -, hfunctions, hglobals, -⟩ := h
  exact hglobals.nodup (nodup_range.imp fun hij x hi => kept_ne global_imported hImports hij hi)
    fun i _ x hi => hfunctions.subset (mem_cons_of_mem _ (mem_imports_of_kept global_imported hi))

/-- A symbol stands for one function. -/
lemma idxOf?_function (hi : i < m.importedFunctions + m.signatures.length) :
    s.functions.idxOf? (s.function i) = some i :=
  idxOf?_getD (h.nodup_functions hImports) (by rwa [h.length_functions]) _

/-- A symbol stands for one global. -/
lemma idxOf?_global (hi : i < m.importedGlobals + m.globals.length) :
    s.globals.idxOf? (s.global i) = some i :=
  idxOf?_getD (h.nodup_globals hImports) (by rwa [h.length_globals]) _

end Allotted

end Symbols

end WasmToC.C

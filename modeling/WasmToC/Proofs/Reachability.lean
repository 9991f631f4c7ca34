import WasmToC.Proofs.Bodies
import WasmToC.Proofs.Constructs
import WasmToC.Proofs.DeadCode
import WasmToC.Proofs.Printing

/-!
# Skipped instructions are those that cannot be reached

While a body is read it is known at every point whether that point can be reached, and what cannot
be reached is skipped. This is recomputed at every `else` and `end`, from what was noted about the
construct: whether a branch leads to it, whether its first arm can be left at its end. Along every
body this agrees with reachability in the control-flow graph.

## Main definitions

* `Rebuild.IsLive` — a position at which the state can be reached.
* `Rebuild.Stands`, `Rebuild.Tracks` — what a construct and a state know about the
  positions before.

## Main results

* `Rebuild.Tracks.steps` — one instruction keeps what is known.
* `Rebuild.isLive_of_flows` — control only goes to positions at which the state can be
  reached.
* `Rebuild.canReach_of_isLive` — where the state can be reached, control can go.
* `skipped_iff_unreachable` — an instruction is skipped if and only if it cannot be reached.
-/

namespace WasmToC

open List Option

namespace Rebuild

variable {env : Surroundings} {i : Instruction} {r r1 : Rebuild} {es : List C.Line}
  {res : Option ValueType} {op : Opcode} {nested : Nat}

/-! ## Steps -/

/-- The second arm can be reached, and knows whether the first one can be left at its end. -/
lemma constructs_of_switches (h : Switches r es r1) :
    ∃ c c1 cs cond thenCode thenValue, r.constructs = c :: cs ∧
      r1.constructs = c1 :: cs ∧ c.kind = .ifArm cond ∧ c1.label = c.label ∧
      c1.kind = .elseArm cond thenCode thenValue r.reach.isLive := by
  obtain ⟨c, cs, cond, hcs, hkind, h⟩ := h
  cases h with
  | keep hl | store hl =>
    exact ⟨_, _, _, _, _, _, hcs, rfl, hkind, rfl, by rw [hl]; rfl⟩
  | plain => exact ⟨_, _, _, _, _, _, hcs, rfl, hkind, rfl, rfl⟩

/-- Whether the end of a construct can be reached. -/
lemma isLive_of_closes (h : Closes r es r1) :
    ∃ c, r.constructs = c :: r1.constructs ∧ r1.reach.isLive = reachesEnd c r.reach.isLive := by
  obtain ⟨c, cs, hcs, h⟩ := h
  cases h with
  | folded _ hl | direct _ hl | store _ hl =>
    exact ⟨_, hcs, by rw [hl, Reach.isLive, reachesEnd_true]; rfl⟩
  | plain =>
    refine ⟨_, hcs, ?_⟩
    cases hend : reachesEnd c r.reach.isLive <;> rfl
  | unreached _ hd hend => exact ⟨_, hcs, by rw [hd, Reach.isLive, hend]; rfl⟩
  | carried _ hd _ _ hend | carriedUnreached _ hd _ _ hend =>
    rw [reachesEnd_carrying] at hend
    exact ⟨_, hcs, by rw [hd, Reach.isLive, hend]; rfl⟩

lemma opensConstruct_of_enters (h : Enters r res op es r1) :
    op.opensConstruct = true ∧ isPlain op = false := by
  cases h <;> exact ⟨rfl, rfl⟩

/-- An instruction that can be reached has one target at most. -/
lemma branchDepths_of_acts (h : Acts env i r es r1) : i.branchDepths = i.branchDepth?.toList := by
  cases h with
  | brTable hop himm => simp [Instruction.branchDepths, Instruction.branchDepth?, hop, himm]
  | _ hop => simp [Instruction.branchDepths, Instruction.branchDepth?, hop]

/-! ## Positions -/

/-- The instructions before a position lead to a state that can be reached. -/
def IsLive (env : Surroundings) (code : List Instruction) (p : Nat) : Prop :=
  ∃ r, (run env (code.take p) {}).outcome = .ok r ∧ r.reach = .live

variable {code : List Instruction} {p q s e : Nat} {c : Construct}

/-- There is one state at a position. -/
lemma isLive_iff (hr : (run env (code.take p) {}).outcome = .ok r) :
    IsLive env code p ↔ r.reach = .live := by
  refine ⟨?_, fun hl => ⟨r, hr, hl⟩⟩
  rintro ⟨r', hr', hl⟩
  obtain rfl : r' = r := Except.ok.inj (hr'.symm.trans hr)
  exact hl

/-- From one position to the next. -/
lemma run_take_succ (hi : code[p]? = some i) : (run env (code.take (p + 1)) {}).outcome = .ok r1 ↔
      ∃ r, (run env (code.take p) {}).outcome = .ok r ∧ r.step env i = .ok r1 := by
  have hnil (r : Rebuild) : (run env [] r).outcome = .ok r1 ↔ r = r1 := by simp [run]
  rw [take_add_one, hi, toList_some, run_append_eq_ok]
  simp only [run_cons_eq_ok, hnil, exists_eq_right]

/-- How many constructs have been opened in code that is skipped. -/
def nesting : Reach → Nat
  | .live => 0
  | .dead nested => nested

lemma Flat.nesting_eq (h : r.Flat) : nesting r.reach = 0 := by
  rcases h with h | h <;> rw [h] <;> rfl

/-- What is known about an open construct at a position, when it was opened at another one. -/
structure Stands (env : Surroundings) (code : List Instruction) (p q : Nat) (c : Construct) :
    Prop where
  /-- The construct has been reached. -/
  live : IsLive env code q
  /-- It has the kind that the instruction says. -/
  op : opAt? code q = some (opener c.kind)
  /-- In its first arm there has been no `else`. -/
  first : ∀ cond, c.kind = .ifArm cond → ∀ s < p, ¬ElseOf code q s
  /-- In its second arm it is known whether the first one can be left at the `else`. -/
  second : ∀ cond thenCode thenValue thenLive, c.kind = .elseArm cond thenCode thenValue thenLive →
      (∃ s < p, ElseOf code q s) ∧ ∀ s < p, ElseOf code q s → (thenLive = true ↔ IsLive env code s)
  /-- It has a label if there has been a branch to it that can be reached. -/
  label : c.kind ≠ .loop →
    (c.label.isSome = true ↔ ∃ b < p, IsLive env code b ∧ BranchesTo code b q)

/-- An instruction that is no `else` of a construct. -/
lemma Stands.next {c1 : Construct} (h : Stands env code p q c) (helse : ¬ElseOf code q p)
    (hk : c1.kind = c.kind)
    (hlabel : c.kind ≠ .loop → (c1.label.isSome = true ↔
      c.label.isSome = true ∨ IsLive env code p ∧ BranchesTo code p q)) :
    Stands env code (p + 1) q c1 where
  live := h.live
  op := hk ▸ h.op
  first cond hf s hs := by
    rcases Nat.lt_succ_iff_lt_or_eq.mp hs with hs | rfl
    · exact h.first cond (hk ▸ hf) s hs
    · exact helse
  second cond thenCode thenValue thenLive hsecond := by
    obtain ⟨⟨s, hs, hselse⟩, hall⟩ := h.second _ _ _ _ (hk ▸ hsecond)
    refine ⟨⟨s, Nat.lt_succ_of_lt hs, hselse⟩, fun s' hs' hselse' => ?_⟩
    rcases Nat.lt_succ_iff_lt_or_eq.mp hs' with hs' | rfl
    · exact hall s' hs' hselse'
    · exact absurd hselse' helse
  label hloop := by
    rw [hk] at hloop
    rw [hlabel hloop, h.label hloop]
    constructor
    · rintro (⟨b, hb, hto⟩ | hto)
      · exact ⟨b, Nat.lt_succ_of_lt hb, hto⟩
      · exact ⟨p, Nat.lt_succ_self p, hto⟩
    · rintro ⟨b, hb, hto⟩
      rcases Nat.lt_succ_iff_lt_or_eq.mp hb with hb | rfl
      · exact .inl ⟨b, hb, hto⟩
      · exact .inr hto

/-- An instruction that does not concern a construct. -/
lemma Stands.pass (h : Stands env code p q c) (helse : ¬ElseOf code q p)
    (hbranch : IsLive env code p → ¬BranchesTo code p q) : Stands env code (p + 1) q c :=
  h.next helse rfl fun _ => ⟨.inl, fun hlabel => hlabel.elim id fun hto =>
    absurd hto.2 (hbranch hto.1)⟩

/-- What a state knows at a position: of the constructs that are open there, the innermost ones have
been opened in code that is skipped, and the others are those of the state. -/
structure Tracks (env : Surroundings) (code : List Instruction) (p : Nat) (r : Rebuild) :
    Prop where
  /-- There are as many constructs. -/
  count : (openAt code p).length = nesting r.reach + r.constructs.length
  /-- The innermost ones have not been reached. -/
  skipped : ∀ q ∈ (openAt code p).take (nesting r.reach), ¬IsLive env code q
  /-- The others are known. -/
  stands : ∀ (j q : Nat) (c : Construct), (openAt code p)[nesting r.reach + j]? = some q →
    r.constructs[j]? = some c → Stands env code p q c

lemma tracks_start : Tracks env code 0 {} :=
  ⟨rfl, by simp [openAt], by simp [openAt]⟩

/-- In a state that can be reached, or whose innermost construct can. -/
lemma Tracks.stands_of_flat (h : Tracks env code p r) (hflat : r.Flat) {j : Nat}
    (hq : (openAt code p)[j]? = some q) (hc : r.constructs[j]? = some c) :
    Stands env code p q c :=
  h.stands j q c (by rwa [hflat.nesting_eq, Nat.zero_add]) hc

lemma Tracks.count_of_flat (h : Tracks env code p r) (hflat : r.Flat) :
    (openAt code p).length = r.constructs.length := by
  rw [h.count, hflat.nesting_eq, Nat.zero_add]

/-- What there is to know if nothing has been opened in code that is skipped. -/
lemma Tracks.of_flat (hflat : r.Flat) (hcount : (openAt code p).length = r.constructs.length)
    (hs : ∀ (j q : Nat) (c : Construct), (openAt code p)[j]? = some q →
      r.constructs[j]? = some c → Stands env code p q c) : Tracks env code p r := by
  refine ⟨by rw [hflat.nesting_eq, hcount, Nat.zero_add], by simp [hflat.nesting_eq], ?_⟩
  rw [hflat.nesting_eq]
  simpa using hs

/-- Constructs that are open where control can go have been reached. -/
lemma Tracks.exists_stands (h : Tracks env code p r) (hl : r.reach = .live)
    (hq : q ∈ openAt code p) : ∃ c, Stands env code p q c := by
  obtain ⟨j, hj⟩ := mem_iff_getElem?.mp hq
  have hlt : j < r.constructs.length :=
    h.count_of_flat (.inl hl) ▸ (List.getElem?_eq_some_iff.mp hj).1
  exact ⟨_, h.stands_of_flat (.inl hl) hj (getElem?_eq_getElem hlt)⟩

/-- The innermost construct, where it has been reached. -/
lemma Tracks.exists_innermost (h : Tracks env code p r) (hflat : r.Flat)
    {cs : List Construct} (hcs : r.constructs = c :: cs) :
    ∃ q, (openAt code p).head? = some q ∧ Stands env code p q c := by
  have hcount := h.count_of_flat hflat
  rw [hcs] at hcount
  cases hopen : openAt code p with
  | nil => simp [hopen] at hcount
  | cons q rest =>
    exact ⟨q, rfl, h.stands_of_flat hflat (j := 0) (by rw [hopen]; rfl) (by rw [hcs]; rfl)⟩

/-- Inside code that is skipped, the innermost construct has not been reached. -/
lemma Tracks.not_isLive_innermost (h : Tracks env code p r) (hpos : 0 < nesting r.reach)
    (hq : (openAt code p)[0]? = some q) : ¬IsLive env code q :=
  h.skipped q (mem_of_getElem? (by rwa [getElem?_take_of_lt hpos]))

/-! ## What an instruction concerns -/

lemma opAt?_eq (hi : code[p]? = some i) : opAt? code p = some i.op := by
  simp [opAt?, hi]

lemma not_elseOf (hi : code[p]? = some i) (hop : i.op ≠ .elseOp) : ¬ElseOf code q p := by
  intro h
  have heq := h.1
  rw [opAt?_eq hi, some.injEq] at heq
  exact hop heq

lemma not_branchesTo (hi : code[p]? = some i) (hnone : i.branchDepths = []) :
    ¬BranchesTo code p q := by
  rintro ⟨i', d, hi', hd, -⟩
  obtain rfl : i' = i := some.inj (hi'.symm.trans hi)
  rw [hnone] at hd
  cases hd

lemma branchDepths_eq_nil (h : isPlain i.op = false) : i.branchDepths = [] := by
  cases hop : i.op <;> simp_all [isPlain, Instruction.branchDepths]

lemma not_isLive_of_dead (hr : (run env (code.take p) {}).outcome = .ok r)
    (hd : r.reach = .dead nested) : ¬IsLive env code p := by
  simp [isLive_iff hr, hd]

namespace Tracks

variable (h : Tracks env code p r) (hr : (run env (code.take p) {}).outcome = .ok r)
  (hi : code[p]? = some i)
include h hr hi

/-- An instruction that is no part of a construct. -/
lemma acts (hl : r.reach = .live) (hplain : isPlain i.op = true)
    (hacts : Acts env i r es r1) : Tracks env code (p + 1) r1 := by
  have hflat : r.Flat := .inl hl
  have hflat1 := flat_of_acts hl hacts
  obtain ⟨hopens, hend, helse⟩ := not_opensConstruct_of_isPlain hplain
  have hopen : openAt code (p + 1) = openAt code p :=
    openAt_other (opAt?_eq hi) hopens hend
  have helse (q : Nat) : ¬ElseOf code q p := not_elseOf hi helse
  have hlength : r1.constructs.length = r.constructs.length := by
    have hkinds := congrArg List.length (map_kind_of_acts hacts)
    simpa using hkinds
  refine .of_flat hflat1 (by rw [hopen, hlength, h.count_of_flat hflat]) fun j q c hq hc => ?_
  rw [hopen] at hq
  rcases constructs_of_acts hacts with ⟨hnone, hcs, -⟩ | ⟨depth, hdepth, haims⟩
  · rw [hcs] at hc
    refine (h.stands_of_flat hflat hq hc).pass (helse q) fun _ => not_branchesTo hi ?_
    rw [branchDepths_of_acts hacts, hnone, toList_none]
  · have hto (q : Nat) : BranchesTo code p q → (openAt code p)[depth]? = some q := by
      rintro ⟨i', d, hi', hd, hq⟩
      obtain rfl : i' = i := some.inj (hi'.symm.trans hi)
      rw [branchDepths_of_acts hacts, hdepth, toList_some, mem_singleton] at hd
      exact hd ▸ hq
    generalize r1.constructs = cs1 at haims hc
    generalize r1.labels = labels1 at haims
    cases haims with
    | body =>
      refine (h.stands_of_flat hflat hq hc).pass (helse q) fun _ hbranch => ?_
      have hlt := (List.getElem?_eq_some_iff.mp (hto q hbranch)).1
      rw [h.count_of_flat hflat] at hlt
      omega
    | construct hb =>
      by_cases hj : depth = j
      · -- the construct that the branch leads to
        subst hj
        simp only [getElem?_modify_eq, hb, Option.map_eq_map, Option.map_some] at hc
        cases hc
        refine (h.stands_of_flat hflat hq hb).next (helse q) rfl fun _ => ?_
        simp only [isSome_some, true_iff]
        refine .inr ⟨(isLive_iff hr).mpr hl, i, depth, hi, ?_, hq⟩
        rw [branchDepths_of_acts hacts, hdepth, toList_some]
        exact mem_singleton_self depth
      · rw [getElem?_modify_ne _ _ hj] at hc
        exact (h.stands_of_flat hflat hq hc).pass (helse q) fun _ hbranch =>
          hj (eq_of_getElem?_openAt (hto q hbranch) hq)

/-- The start of a construct. -/
lemma enters (hl : r.reach = .live) (henters : Enters r res i.op es r1) :
    Tracks env code (p + 1) r1 := by
  have hflat : r.Flat := .inl hl
  have hflat1 : r1.Flat := .inl ((reach_of_enters henters).trans hl)
  obtain ⟨c0, hcs, -, -, hop, hfirst, hlabel⟩ := lines_of_enters henters
  obtain ⟨hopens, hplain⟩ := opensConstruct_of_enters henters
  have hopen := openAt_opens (opAt?_eq hi) hopens
  refine .of_flat hflat1 (by simp [hopen, hcs, h.count_of_flat hflat]) fun j q c hq hc => ?_
  rw [hopen] at hq
  rw [hcs] at hc
  cases j with
  | zero =>
    -- nothing before the start of a construct concerns it
    simp only [getElem?_cons_zero, some.injEq] at hq hc
    subst hq hc
    have hnot {s : Nat} (hs : s < p + 1) : p ∉ openAt code s := fun hmem => by
      have := lt_of_mem_openAt hmem
      omega
    refine ⟨(isLive_iff hr).mpr hl, by rw [opAt?_eq hi, hop], fun _ _ s hs helse =>
      hnot hs helse.mem, fun _ _ _ _ hk => ?_, fun hloop => ?_⟩
    · rw [hk] at hfirst
      cases hfirst
    · rw [(hlabel.resolve_left fun h => hloop h.1).2.1]
      simp only [isSome_none, Bool.false_eq_true, false_iff]
      rintro ⟨b, hb, -, i', d, -, -, hmem⟩
      exact hnot hb (mem_of_getElem? hmem)
  | succ j =>
    rw [getElem?_cons_succ] at hq hc
    exact (h.stands_of_flat hflat hq hc).pass
      (not_elseOf hi (by rintro heq; simp [heq, Opcode.opensConstruct] at hopens))
      fun _ => not_branchesTo hi (branchDepths_eq_nil hplain)

/-- The change between the arms of a conditional. -/
lemma switches (hop : i.op = .elseOp) (hflat : r.Flat) (hswitches : Switches r es r1) :
    Tracks env code (p + 1) r1 := by
  have hflat1 : r1.Flat := .inl (reach_of_switches hswitches)
  obtain ⟨c0, c1, cs, cond, thenCode, thenValue, hcs, hcs1, hkind, hlabel, hkind1⟩ :=
    constructs_of_switches hswitches
  have hopen : openAt code (p + 1) = openAt code p :=
    openAt_other (opAt?_eq hi) (by rw [hop]; rfl) (by simp [hop])
  have hbranch (q : Nat) : ¬BranchesTo code p q :=
    not_branchesTo hi (branchDepths_eq_nil (by rw [hop]; rfl))
  refine .of_flat hflat1 (by simp [hopen, hcs, hcs1, h.count_of_flat hflat]) fun j q c hq hc => ?_
  rw [hopen] at hq
  rw [hcs1] at hc
  cases j with
  | zero =>
    have hstands := h.stands_of_flat hflat hq (c := c0) (by rw [hcs]; rfl)
    cases hc
    have hhere : ElseOf code q p :=
      ⟨by rw [opAt?_eq hi, hop], by rw [head?_eq_getElem?]; exact hq⟩
    have hl : r.reach.isLive = true ↔ IsLive env code p := by
      rw [isLive_iff hr]
      cases r.reach <;> simp [Reach.isLive]
    refine ⟨hstands.live, by rw [hstands.op, hkind, hkind1]; rfl, fun _ hf => ?_,
      fun _ _ _ thenLive hsecond => ⟨⟨p, Nat.lt_succ_self p, hhere⟩, fun s hs helse => ?_⟩,
      fun _ => ?_⟩
    · rw [hkind1] at hf
      cases hf
    · obtain rfl : s = p := by
        rcases Nat.lt_succ_iff_lt_or_eq.mp hs with hs | rfl
        · exact absurd helse (hstands.first cond hkind s hs)
        · rfl
      rw [hkind1, ConstructKind.elseArm.injEq] at hsecond
      rw [← hsecond.2.2.2, hl]
    · rw [hlabel, hstands.label (by simp [hkind])]
      constructor
      · rintro ⟨b, hb, hto⟩
        exact ⟨b, Nat.lt_succ_of_lt hb, hto⟩
      · rintro ⟨b, hb, hto⟩
        rcases Nat.lt_succ_iff_lt_or_eq.mp hb with hb | rfl
        · exact ⟨b, hb, hto⟩
        · exact absurd hto.2 (hbranch q)
  | succ j =>
    rw [getElem?_cons_succ] at hc
    have hstands := h.stands_of_flat hflat hq (by rw [hcs]; exact hc)
    refine hstands.pass (fun helse => ?_) fun _ => hbranch q
    have hhead := helse.2
    rw [head?_eq_getElem?] at hhead
    have := eq_of_getElem?_openAt hhead hq
    omega

omit hr in
/-- The end of a construct. -/
lemma closes (hop : i.op = .endOp) (hflat : r.Flat) (hcloses : Closes r es r1) :
    Tracks env code (p + 1) r1 := by
  have hflat1 := flat_of_closes hcloses
  obtain ⟨c0, hcs⟩ := constructs_of_closes hcloses
  have hopen : openAt code (p + 1) = (openAt code p).tail :=
    openAt_endOp (by rw [opAt?_eq hi, hop])
  refine .of_flat hflat1 (by simp [hopen, hcs, h.count_of_flat hflat]) fun j q c hq hc => ?_
  rw [hopen, getElem?_tail] at hq
  refine (h.stands_of_flat hflat hq (by rw [hcs]; exact hc)).pass (not_elseOf hi (by simp [hop]))
    fun _ => not_branchesTo hi (branchDepths_eq_nil (by rw [hop]; rfl))

/-- An instruction that cannot be reached. -/
lemma skips {nested' : Nat} (hd : r.reach = .dead nested) (hnests : Nests nested [i] nested') :
    Tracks env code (p + 1) { r with reach := .dead nested' } := by
  have hnot := not_isLive_of_dead hr hd
  obtain ⟨hcount, hskipped, hs⟩ := h
  rw [hd] at hcount hskipped hs
  have hpass {j q : Nat} {c : Construct} (hq : (openAt code p)[nested + j]? = some q)
      (hc : r.constructs[j]? = some c) (helse : ¬ElseOf code q p) : Stands env code (p + 1) q c :=
    (hs j q c hq hc).pass helse fun hl => absurd hl hnot
  cases hnests with
  | opens hop hnil =>
    cases hnil
    have hopen := openAt_opens (opAt?_eq hi) hop
    refine ⟨?_, ?_, fun j q c hq hc => ?_⟩
    · simp only [hopen, length_cons, hcount, nesting]
      omega
    · rw [hopen]
      exact forall_mem_cons.mpr ⟨hnot, hskipped⟩
    · simp only [hopen, nesting, Nat.add_right_comm nested 1 j, getElem?_cons_succ] at hq
      exact hpass hq hc (not_elseOf hi (by rintro heq; simp [heq, Opcode.opensConstruct] at hop))
  | ends hop hnil =>
    cases hnil
    have hopen : openAt code (p + 1) = (openAt code p).tail :=
      openAt_endOp (by rw [opAt?_eq hi, hop])
    refine ⟨?_, fun q hq => hskipped q ?_, fun j q c hq hc => ?_⟩
    · simp only [hopen, length_tail, hcount, nesting]
      omega
    · rw [hopen] at hq
      cases hopened : openAt code p with
      | nil => simp [hopened] at hq
      | cons a rest =>
        rw [hopened] at hq
        exact mem_cons_of_mem a hq
    · simp only [hopen, nesting, getElem?_tail] at hq
      rw [Nat.add_right_comm] at hq
      exact hpass hq hc (not_elseOf hi (by simp [hop]))
  | other hopens hend helse hnil =>
    cases hnil
    have hopen := openAt_other (opAt?_eq hi) hopens hend
    refine ⟨hopen ▸ hcount, hopen ▸ hskipped, fun j q c hq hc => ?_⟩
    rw [hopen] at hq
    refine hpass hq hc fun hselse => ?_
    -- the innermost construct is one that has been skipped
    have hhead := hselse.2
    rw [head?_eq_getElem?] at hhead
    have hzero := eq_of_getElem?_openAt hhead hq
    have hop := hselse.1
    rw [opAt?_eq hi, some.injEq] at hop
    have := helse hop
    rw [nesting] at hzero
    omega

/-- **One instruction keeps what is known.** -/
theorem steps (hss : Steps env i r es r1) : Tracks env code (p + 1) r1 := by
  cases hss with
  | acts hl hplain hacts => exact h.acts hr hi hl hplain hacts
  | enters hl _ henters => exact h.enters hr hi hl henters
  | switches hop hflat hswitches => exact h.switches hr hi hop hflat hswitches
  | closes hop hflat hcloses => exact h.closes hi hop hflat hcloses
  | skips hd hnests => exact h.skips hr hi hd hnests

end Tracks

/-- **At every position the state knows what has been read.** -/
theorem tracks_of_run (hp : p ≤ code.length)
    (hr : (run env (code.take p) {}).outcome = .ok r) : Tracks env code p r := by
  induction p generalizing r with
  | zero =>
    obtain rfl : r = {} := by simpa [run, eq_comm] using hr
    exact tracks_start
  | succ p ih =>
    have hi : code[p]? = some code[p] := getElem?_eq_getElem hp
    obtain ⟨r0, hr0, hstep⟩ := (run_take_succ hi).mp hr
    obtain ⟨es, hss⟩ := steps_of_step hstep
    exact (ih (Nat.le_of_lt hp) hr0).steps hr0 hi hss

/-! ## Along the edges of the graph -/

lemma exists_instruction (h : opAt? code p = some op) : ∃ i, code[p]? = some i ∧ i.op = op :=
  map_eq_some_iff.mp h

lemma isLive_eq_true : r.reach.isLive = true ↔ r.reach = .live := by
  cases r.reach <;> simp [Reach.isLive]

section Edges

variable {last : Rebuild} (hrun : (run env code {}).outcome = .ok last)
include hrun

/-- Every instruction of the body makes a step. -/
lemma exists_steps (hi : code[p]? = some i) :
    ∃ r r1 es, (run env (code.take p) {}).outcome = .ok r ∧
      (run env (code.take (p + 1)) {}).outcome = .ok r1 ∧ Tracks env code p r ∧
      Steps env i r es r1 := by
  rw [← take_append_drop (p + 1) code] at hrun
  obtain ⟨r1, hr1, -⟩ := run_append_eq_ok.mp hrun
  obtain ⟨r, hr, hstep⟩ := (run_take_succ hi).mp hr1
  have hp : p ≤ code.length := Nat.le_of_lt (List.getElem?_eq_some_iff.mp hi).1
  obtain ⟨es, hss⟩ := steps_of_step hstep
  exact ⟨r, r1, es, hr, hr1, tracks_of_run hp hr, hss⟩

/-- The `end` of a construct that has been reached. -/
lemma exists_closes (hend : EndOf code q e) (hq : IsLive env code q) :
    ∃ live c, Stands env code e q c ∧ (reachesEnd c live = true → IsLive env code (e + 1)) := by
  obtain ⟨i, hi, hop⟩ := exists_instruction hend.1
  obtain ⟨r, r1, es, hr, hr1, htracks, hss⟩ := exists_steps hrun hi
  have hhead := hend.2
  rw [head?_eq_getElem?] at hhead
  rcases hss.of_endOp hop with ⟨hflat, hcloses⟩ | ⟨nested, hd⟩
  · obtain ⟨c, hcs, hl⟩ := isLive_of_closes hcloses
    exact ⟨_, c, htracks.stands_of_flat hflat hhead (by rw [hcs]; rfl),
      fun hend => (isLive_iff hr1).mpr (isLive_eq_true.mp (hl.trans hend))⟩
  · exact absurd hq (htracks.not_isLive_innermost (by rw [hd]; exact Nat.succ_pos _) hhead)

/-- The `else` of a construct that has been reached. -/
lemma exists_switches (helse : ElseOf code q s) (hq : IsLive env code q) :
    IsLive env code (s + 1) ∧ opAt? code q = some .ifOp := by
  obtain ⟨i, hi, hop⟩ := exists_instruction helse.1
  obtain ⟨r, r1, es, hr, hr1, htracks, hss⟩ := exists_steps hrun hi
  have hhead := helse.2
  rw [head?_eq_getElem?] at hhead
  rcases hss.of_elseOp hop with ⟨hflat, hswitches⟩ | ⟨nested, hd⟩
  · obtain ⟨c, c1, cs, cond, thenCode, thenValue, hcs, -, hkind, -⟩ :=
      constructs_of_switches hswitches
    have hstands := htracks.stands_of_flat hflat hhead (c := c) (by rw [hcs]; rfl)
    exact ⟨(isLive_iff hr1).mpr (reach_of_switches hswitches), by rw [hstands.op, hkind]; rfl⟩
  · exact absurd hq (htracks.not_isLive_innermost (by rw [hd]; exact Nat.succ_pos _) hhead)

/-- **Control only goes to positions at which the state can be reached.** -/
theorem isLive_of_flows {p' : Nat} (h : Flows code p p') (hp : IsLive env code p) :
    IsLive env code p' := by
  -- every construct around a position that can be reached has been reached
  have houter {p q : Nat} {i : Instruction} (hp : IsLive env code p) (hi : code[p]? = some i)
      (hq : q ∈ openAt code p) : IsLive env code q := by
    obtain ⟨r, -, -, hr, -, htracks, -⟩ := exists_steps hrun hi
    obtain ⟨c, hstands⟩ := htracks.exists_stands ((isLive_iff hr).mp hp) hq
    exact hstands.live
  cases h with
  | next hop hfalls =>
    obtain ⟨i, hi, rfl⟩ := exists_instruction hop
    obtain ⟨r, r1, es, hr, hr1, -, hss⟩ := exists_steps hrun hi
    have hlive := (isLive_iff hr).mp hp
    refine (isLive_iff hr1).mpr ?_
    cases hss with
    | acts _ _ hacts => exact live_of_acts hfalls hlive hacts
    | enters _ _ henters => exact (reach_of_enters henters).trans hlive
    | switches helse => simp [helse, Opcode.fallsThrough] at hfalls
    | closes _ _ hcloses =>
      obtain ⟨c, -, hend⟩ := isLive_of_closes hcloses
      rw [hlive, Reach.isLive, reachesEnd_true] at hend
      exact isLive_eq_true.mp hend
    | skips hdead =>
      rw [hlive] at hdead
      cases hdead
  | secondArm _ helse => exact (exists_switches hrun helse hp).1
  | @bypass _ e hop hno hend =>
    obtain ⟨_, c, hstands, hlive⟩ := exists_closes hrun hend hp
    refine hlive ?_
    have hopener := hstands.op
    rw [hop, some.injEq] at hopener
    cases hkind : c.kind with
    | block | loop => simp [hkind, opener] at hopener
    | ifArm cond => simp [reachesEnd, hkind]
    | elseArm cond thenCode thenValue thenLive =>
      obtain ⟨⟨s, -, helse⟩, -⟩ := hstands.second _ _ _ _ hkind
      exact absurd helse (hno s)
  | @firstArm q _ e helse hend =>
    obtain ⟨i, hi, hop⟩ := exists_instruction helse.1
    have hq := houter hp hi helse.mem
    obtain ⟨_, c, hstands, hlive⟩ := exists_closes hrun hend hq
    refine hlive ?_
    have hlt : p < e := by
      refine Nat.lt_of_le_of_ne (le_of_endOf hend helse.mem) fun heq => ?_
      have hops := helse.1.symm.trans (heq ▸ hend.1)
      cases hops
    have hopener := hstands.op
    rw [(exists_switches hrun helse hq).2, some.injEq] at hopener
    cases hkind : c.kind with
    | block | loop => simp [hkind, opener] at hopener
    | ifArm cond => exact absurd helse (hstands.first cond hkind p hlt)
    | elseArm cond thenCode thenValue thenLive =>
      have hthen := ((hstands.second _ _ _ _ hkind).2 p hlt helse).mpr hp
      simp [reachesEnd, hkind, hthen]
  | back hto =>
    obtain ⟨i, d, hi, hd, hq⟩ := hto
    exact houter hp hi (mem_of_getElem? hq)
  | @out _ q e hto hop hend =>
    obtain ⟨i, d, hi, hd, hopen⟩ := id hto
    have hmem : q ∈ openAt code p := mem_of_getElem? hopen
    obtain ⟨_, c, hstands, hlive⟩ := exists_closes hrun hend (houter hp hi hmem)
    refine hlive ?_
    have hlt : p < e := by
      refine Nat.lt_of_le_of_ne (le_of_endOf hend hmem) fun heq => ?_
      have hends := hend.1
      rw [← heq, opAt?_eq hi, some.injEq] at hends
      rw [branchDepths_eq_nil (by rw [hends]; rfl)] at hd
      cases hd
    have hloop : c.kind ≠ .loop := by
      rintro hkind
      exact hop (by rw [hstands.op, hkind]; rfl)
    obtain ⟨l, hl⟩ := isSome_iff_exists.mp ((hstands.label hloop).mpr ⟨p, hlt, hp, hto⟩)
    exact reachesEnd_mono (Setting.reachesEnd_of_label hl hloop) _

/-- **Where the state can be reached, control can go.** -/
theorem canReach_of_isLive (hp : p ≤ code.length) (h : IsLive env code p) : CanReach code p := by
  induction p using Nat.strongRecOn with
  | ind p ih =>
  cases p with
  | zero => exact .refl
  | succ p =>
    have hi : code[p]? = some code[p] := getElem?_eq_getElem hp
    generalize code[p] = i at hi
    obtain ⟨r, r1, es, hr, hr1, htracks, hss⟩ := exists_steps hrun hi
    have hlive1 := (isLive_iff hr1).mp h
    -- from an earlier position that can be reached there is an edge to this one
    have hedge {b : Nat} (hb : b ≤ p) (hl : IsLive env code b)
        (hflows : Flows code b (p + 1)) : CanReach code (p + 1) :=
      .tail (ih b (Nat.lt_succ_of_le hb) (by omega) hl) hflows
    have hop := opAt?_eq hi
    cases hss with
    | acts hl _ hacts =>
      refine hedge (Nat.le_refl p) ((isLive_iff hr).mpr hl) (.next hop ?_)
      cases hfalls : i.op.fallsThrough with
      | true => rfl
      | false => cases hlive1.symm.trans (killed_of_acts hfalls hacts).1
    | enters hl _ henters =>
      refine hedge (Nat.le_refl p) ((isLive_iff hr).mpr hl) (.next hop ?_)
      generalize i.op = op at henters
      cases henters <;> rfl
    | switches helse hflat hswitches =>
      obtain ⟨c, c1, cs, cond, thenCode, thenValue, hcs, -, hkind, -⟩ :=
        constructs_of_switches hswitches
      obtain ⟨q, hhead, hstands⟩ := htracks.exists_innermost hflat hcs
      have helse : ElseOf code q p := ⟨by rw [hop, helse], hhead⟩
      exact hedge (Nat.le_of_lt (lt_of_mem_openAt helse.mem)) hstands.live
        (.secondArm (by rw [hstands.op, hkind]; rfl) helse)
    | closes hend hflat hcloses =>
      obtain ⟨c, hcs, hl⟩ := isLive_of_closes hcloses
      rw [hlive1, Reach.isLive] at hl
      obtain ⟨q, hhead, hstands⟩ := htracks.exists_innermost hflat hcs
      have hend : EndOf code q p := ⟨by rw [hop, hend], hhead⟩
      cases hr' : r.reach with
      | live => exact hedge (Nat.le_refl p) ((isLive_iff hr).mpr hr') (.next hend.1 rfl)
      | dead nested =>
        rw [hr', Reach.isLive] at hl
        -- the end of the last arm cannot be reached, so there is another way
        have hlabelled (hloop : c.kind ≠ .loop) (hlabel : c.label.isSome = true) :
            CanReach code (p + 1) := by
          obtain ⟨b, hb, hblive, hto⟩ := (hstands.label hloop).mp hlabel
          refine hedge (Nat.le_of_lt hb) hblive (.out hto ?_ hend)
          rw [hstands.op]
          cases hkind : c.kind <;> simp_all [opener]
        cases hkind : c.kind with
        | block => exact hlabelled (by simp [hkind]) (by simpa [reachesEnd, hkind] using hl.symm)
        | loop => simp [reachesEnd, hkind] at hl
        | ifArm cond =>
          refine hedge (Nat.le_of_lt (lt_of_mem_openAt hend.mem)) hstands.live
            (.bypass (by rw [hstands.op, hkind]; rfl) (fun s helse => ?_) hend)
          rcases Nat.lt_or_eq_of_le (le_of_endOf hend helse.mem) with hs | rfl
          · exact hstands.first cond hkind s hs helse
          · cases helse.1.symm.trans hend.1
        | elseArm cond thenCode thenValue thenLive =>
          obtain ⟨⟨s, hs, helse⟩, hthen⟩ := hstands.second _ _ _ _ hkind
          have hways : thenLive = true ∨ c.label.isSome = true := by
            simpa [reachesEnd, hkind] using hl.symm
          rcases hways with hf | hlabel
          · exact hedge (Nat.le_of_lt hs) ((hthen s hs helse).mp hf) (.firstArm helse hend)
          · exact hlabelled (by simp [hkind]) hlabel
    | skips => cases hlive1

end Edges

/-- **The state at a position can be reached if and only if control can go there.** -/
theorem isLive_iff_canReach {last : Rebuild} (hrun : (run env code {}).outcome = .ok last)
    (hp : p ≤ code.length) : IsLive env code p ↔ CanReach code p := by
  refine ⟨canReach_of_isLive hrun hp, fun h => ?_⟩
  have hstart : IsLive env code 0 := ⟨{}, rfl, rfl⟩
  clear hp
  induction h with
  | refl => exact hstart
  | tail _ hflows ih => exact isLive_of_flows hrun hflows ih

end Rebuild

/-- **Instructions are skipped if and only if they cannot be reached.** In the body of every
function that is translated, the state in front of an instruction is one in which instructions are
skipped just if there is no path to the instruction in the control-flow graph.

**Proof sketch.** Every edge leads from an instruction that is not skipped to another one
(`isLive_of_flows`). Conversely, what is known about open constructs along the run gives an edge
into each instruction that is not skipped (`canReach_of_isLive`). -/
theorem skipped_iff_unreachable {m : Module} {s : C.Symbols} {pos : Nat} {text : String}
    (h : (functionText m s pos).outcome = .ok text) :
    ∃ f t, m.functions[pos]? = some f ∧ m.types[f.typeIndex]? = some t ∧
      ∀ (p : Nat) (i : Instruction), f.code[p]? = some i →
        ∃ r, (Rebuild.run (surroundings m (m.importedFunctions + pos) f t) (f.code.take p)
            {}).outcome = .ok r ∧
          (r.reach.isLive = false ↔ ¬CanReach f.code p) := by
  obtain ⟨definition, hdefinition, -⟩ := exists_function_of_text h
  obtain ⟨f, t, last, last1, hrebuilt⟩ := exists_rebuilt hdefinition
  refine ⟨f, t, hrebuilt.function, hrebuilt.signature, fun p i hi => ?_⟩
  obtain ⟨r, -, -, hr, -⟩ := Rebuild.exists_steps hrebuilt.run hi
  have hp : p ≤ f.code.length := Nat.le_of_lt (List.getElem?_eq_some_iff.mp hi).1
  refine ⟨r, hr, ?_⟩
  rw [← Rebuild.isLive_iff_canReach hrebuilt.run hp, Rebuild.isLive_iff hr,
    ← Rebuild.isLive_eq_true, Bool.not_eq_true]

/-- A module with a function that leaves a block from its middle and then loops for ever. -/
def endlessLoop : Module where
  types := [⟨[], none⟩]
  signatures := [0]
  functions := [⟨0, [], [⟨.block, .block none⟩, ⟨.br, .depth 0⟩, ⟨.nop, .none⟩, ⟨.endOp, .none⟩,
    ⟨.loop, .block none⟩, ⟨.br, .depth 0⟩, ⟨.endOp, .none⟩, ⟨.nop, .none⟩]⟩]

/-- Control goes from the block to the loop, and nowhere from there. -/
theorem skipped_iff_unreachable_endlessLoop :
    ∃ text f, (functionText endlessLoop ⟨"", "", [], [], []⟩ 0).outcome = .ok text ∧
      endlessLoop.functions[0]? = some f ∧ ¬CanReach f.code 2 ∧ CanReach f.code 4 ∧
      ¬CanReach f.code 7 := by
  obtain ⟨f, t, hf, ht, h⟩ := skipped_iff_unreachable
    (show (functionText endlessLoop ⟨"", "", [], [], []⟩ 0).outcome = _ from rfl)
  refine ⟨_, f, rfl, hf, ?_⟩
  obtain rfl := Option.some.inj hf
  obtain rfl := Option.some.inj ht
  obtain ⟨r2, hr2, h2⟩ := h 2 _ rfl
  obtain ⟨r4, hr4, h4⟩ := h 4 _ rfl
  obtain ⟨r7, hr7, h7⟩ := h 7 _ rfl
  obtain rfl := Except.ok.inj hr2
  obtain rfl := Except.ok.inj hr4
  obtain rfl := Except.ok.inj hr7
  exact ⟨h2.mp rfl, by simpa using (not_congr h4).mp (by decide), h7.mp rfl⟩

end WasmToC

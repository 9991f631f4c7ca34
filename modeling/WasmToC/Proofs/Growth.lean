import WasmToC.Proofs.Invariant

/-!
# How a state grows

Instructions inside a construct only add to what is there: statements to the innermost scope, labels
and result temporaries to the open constructs.

## Main definitions

* `Rebuild.Grows` — what may happen to a state in which constructs are opened and closed.
* `Rebuild.Writes` — the same, with the lines that are written.

## Main results

* `Rebuild.writes_of_acts` — instructions that are not part of a construct.
* `Rebuild.Inside.closes` — whole constructs.
-/

namespace WasmToC

open List
open C (Expr Stmt)

/-! ## Definitions -/

/-- What may happen to an open construct while `temps` temporaries are there before. -/
structure Construct.Grows (temps : Nat) (c c' : Construct) : Prop where
  /-- It keeps its kind. -/
  kind : c'.kind = c.kind
  /-- It keeps its result type. -/
  result : c'.result = c.result
  /-- It keeps what is outside. -/
  enclosing : c'.enclosing = c.enclosing
  /-- It keeps its label. -/
  label : ∀ l, c.label = some l → c'.label = some l
  /-- It keeps its result temporary. -/
  temp : ∀ t, c.temp = some t → c'.temp = some t
  /-- It gets a new result temporary only. -/
  newTemp : ∀ t, c'.temp = some t → c.temp = some t ∨ temps ≤ t

/-- What happens first and what happens next happen together. -/
lemma Construct.Grows.trans {temps temps' : Nat} {c c1 c2 : Construct} (h1 : c.Grows temps c1)
    (h2 : c1.Grows temps' c2) (hle : temps ≤ temps') : c.Grows temps c2 where
  kind := h2.kind.trans h1.kind
  result := h2.result.trans h1.result
  enclosing := h2.enclosing.trans h1.enclosing
  label l hl := h2.label l (h1.label l hl)
  temp t ht := h2.temp t (h1.temp t ht)
  newTemp t ht := by
    rcases h2.newTemp t ht with ht | ht
    · exact h1.newTemp t ht
    · exact .inr (by omega)

lemma Construct.Grows.refl (temps : Nat) (c : Construct) : c.Grows temps c :=
  ⟨rfl, rfl, rfl, fun _ h => h, fun _ h => h, fun _ h => .inl h⟩

namespace Rebuild

/-- What may happen to a state while statements are emitted. -/
structure Grows (r r' : Rebuild) (ss : List Stmt) : Prop where
  /-- The statements are added. -/
  code : r'.scope.code.toList = r.scope.code.toList ++ ss
  /-- Temporaries are added. -/
  temps : r.temps.toList <+: r'.temps.toList
  /-- The same constructs are open. -/
  length : r'.constructs.length = r.constructs.length
  /-- Each of them grows. -/
  construct : ∀ (d : Nat) (c : Construct), r.constructs[d]? = some c →
    ∃ c', r'.constructs[d]? = some c' ∧ c.Grows r.temps.size c'

/-- What may happen to a state while lines are written. -/
def Writes (r : Rebuild) (es : List C.Line) (r' : Rebuild) : Prop :=
  ∃ ss, Grows r r' ss ∧ Stmt.flattenAll ss = es

variable {r r1 r2 : Rebuild} {ss ts : List Stmt} {es es1 : List C.Line}

/-! ## Composition -/

lemma Grows.size_temps (h : Grows r r1 ss) : r.temps.size ≤ r1.temps.size := by
  have := h.temps.length_le
  simpa using this

/-- What happens first and what happens next happen together. -/
lemma Grows.trans (h1 : Grows r r1 ss) (h2 : Grows r1 r2 ts) : Grows r r2 (ss ++ ts) where
  code := by rw [h2.code, h1.code, append_assoc]
  temps := h1.temps.trans h2.temps
  length := h2.length.trans h1.length
  construct d c hc := by
    obtain ⟨c1, hc1, hg1⟩ := h1.construct d c hc
    obtain ⟨c2, hc2, hg2⟩ := h2.construct d c1 hc1
    exact ⟨c2, hc2, hg1.trans hg2 h1.size_temps⟩

/-- What depends on the kinds of constructs and what is outside them stays. -/
lemma Grows.map_constructs {α : Type} {f : Construct → α} (h : Grows r r1 ss)
    (hf : ∀ c c', c'.kind = c.kind → c'.enclosing = c.enclosing → f c' = f c) :
    r1.constructs.map f = r.constructs.map f := by
  refine ext_getElem? fun d => ?_
  rw [getElem?_map, getElem?_map]
  cases hc : r.constructs[d]? with
  | none =>
    rw [List.getElem?_eq_none_iff, ← h.length, ← List.getElem?_eq_none_iff] at hc
    rw [hc]
  | some c =>
    obtain ⟨c', hc', hgrows⟩ := h.construct d c hc
    rw [hc', Option.map_some, Option.map_some, hf c c' hgrows.kind hgrows.enclosing]

lemma Grows.thenNothing (h : Grows r r1 ss) (h2 : Grows r1 r2 []) : Grows r r2 ss := by
  simpa using h.trans h2

lemma grows_of_frame (hcs : r1.constructs = r.constructs)
    (htemps : r.temps.toList <+: r1.temps.toList)
    (hcode : r1.scope.code.toList = r.scope.code.toList ++ ss) : Grows r r1 ss where
  code := hcode
  temps := htemps
  length := by rw [hcs]
  construct d c hc := ⟨c, by rw [hcs, hc], .refl _ c⟩

lemma Grows.refl (r : Rebuild) : Grows r r [] := grows_of_frame rfl prefix_rfl (by simp)

lemma grows_emit (s : Stmt) : Grows r (r.emit s) [s] :=
  grows_of_frame rfl prefix_rfl (by simp [emit])

lemma grows_withValues (values : List Pending) : Grows r (r.withValues values) [] :=
  grows_of_frame rfl prefix_rfl (by simp [withValues])

lemma grows_push (v : Pending) : Grows r (r.push v) [] :=
  grows_of_frame rfl prefix_rfl (by simp [push])

lemma grows_kill : Grows r r.kill [] :=
  grows_of_frame rfl prefix_rfl (by simp [kill, withValues])

namespace Writes

lemma refl (r : Rebuild) : Writes r [] r := ⟨[], .refl r, by simp⟩

lemma temps (h : Writes r es r1) : r.temps.toList <+: r1.temps.toList := by
  obtain ⟨ss, hgrows, -⟩ := h
  exact hgrows.temps

lemma trans (h : Writes r es r1) (h1 : Writes r1 es1 r2) : Writes r (es ++ es1) r2 := by
  obtain ⟨ss, hss, hlines⟩ := h
  obtain ⟨ts, hts, hlines1⟩ := h1
  exact ⟨ss ++ ts, hss.trans hts, by rw [Stmt.flattenAll_append, hlines, hlines1]⟩

lemma thenNothing (h : Writes r es r1) (h1 : Grows r1 r2 []) : Writes r es r2 := by
  obtain ⟨ss, hss, hls⟩ := h
  exact ⟨ss, hss.thenNothing h1, hls⟩

lemma afterNothing (h : Grows r r1 []) (h1 : Writes r1 es r2) : Writes r es r2 := by
  obtain ⟨ss, hss, hls⟩ := h1
  exact ⟨ss, h.trans hss, hls⟩

lemma push (h : Writes r es r1) (v : Pending) : Writes r es (r1.push v) :=
  h.thenNothing (grows_push v)

lemma kill (h : Writes r es r1) : Writes r es r1.kill := h.thenNothing grows_kill

lemma of_withValues {vs : List Pending} (h : Writes (r.withValues vs) es r1) : Writes r es r1 :=
  afterNothing (grows_withValues vs) h

lemma replace (h : Writes r es r1) (vs : List Pending) (v : Pending) :
    Writes r es ((r1.withValues vs).push v) :=
  (h.thenNothing (grows_withValues vs)).push v

end Writes

/-! ## Spilling -/

lemma writes_emit {s : Stmt} (hs : s.flatten = [.run s]) : Writes r [.run s] (r.emit s) :=
  ⟨[s], grows_emit s, by simp [hs]⟩

/-- Evaluating operands emits assignments of new temporaries. -/
lemma grows_evaluateMarked (marks : List (Pending × Bool)) (r : Rebuild) :
    Grows r (evaluateMarked marks r).2 (evaluations marks r) := by
  induction marks with
  | nil => exact .refl r
  | cons m vs ih =>
    obtain ⟨v, marked⟩ := m
    rw [evaluateMarked_cons, evaluations]
    split
    · refine ih.trans (grows_of_frame rfl ?_ ?_)
      · simp [save, newTemp, emit]
      · simp [save, newTemp, emit]
    · rw [append_nil]
      exact ih

/-- Each of them is a line. -/
lemma flattenAll_evaluations (marks : List (Pending × Bool)) (r : Rebuild) :
    Stmt.flattenAll (evaluations marks r) = (evaluations marks r).map .run := by
  induction marks with
  | nil => simp [evaluations]
  | cons m vs ih =>
    obtain ⟨v, marked⟩ := m
    rw [evaluations, Stmt.flattenAll_append, ih, map_append]
    split <;> simp [Stmt.flatten]

lemma grows_spill (marked : Nat → Pending → Bool) (h : Hazard) :
    Grows r (r.spill marked h) (evaluations (marksOf marked h r.scope.values) r) :=
  (grows_evaluateMarked _ r).thenNothing (grows_withValues _)

lemma writes_spill (marked : Nat → Pending → Bool) (h : Hazard) :
    Writes r (r.spilling marked h) (r.spill marked h) :=
  ⟨_, grows_spill marked h, flattenAll_evaluations _ r⟩

lemma writes_settle (h : Hazard) : Writes r (r.settling h) (r.settle h) := writes_spill _ h

lemma writes_settlingFor (h : Hazard) {s : Stmt} (hs : s.flatten = [.run s]) :
    Writes r (r.settlingFor h s) ((r.settle h).emit s) :=
  (writes_settle h).trans (writes_emit hs)

lemma writes_sequence (n : Nat) : Writes r (r.sequencing n) (r.sequence n) := by
  unfold sequencing sequence
  dsimp only
  split
  · exact writes_spill _ _
  · exact .refl r

lemma writes_discard (v : Pending) : Writes r (r.discarding v) (r.discard v) := by
  unfold discarding discard
  split
  · exact writes_settlingFor _ rfl
  · exact .refl r

/-- The operands of an indirect call are evaluated for their effects. -/
lemma writes_trapIndirect (operands : List Pending) :
    Writes r (trappingIndirect operands) (trapIndirect operands r) := by
  have hfold (vs : List Pending) (r : Rebuild) : Writes r (vs.map fun v => .run (.discard v.expr))
        (vs.foldl (fun r v => r.emit (.discard v.expr)) r) := by
    induction vs generalizing r with
    | nil => exact .refl r
    | cons v vs ih => exact (writes_emit rfl).trans (ih _)
  exact (hfold _ r).trans (writes_emit rfl)

/-! ## Labels and result temporaries -/

lemma getElem?_modify_of {α : Type} {f : α → α} {l : List α} {i j : Nat} {a : α}
    (hj : l[j]? = some a) : (l.modify i f)[j]? = some (if i = j then f a else a) := by
  rw [getElem?_modify, hj]
  split <;> simp

/-- Changing one construct. -/
lemma grows_of_modify {d : Nat} {c : Construct} {f : Construct → Construct}
    (hc : r.constructs[d]? = some c) (hf : c.Grows r.temps.size (f c))
    (hcs : r1.constructs = r.constructs.modify d f) (htemps : r.temps.toList <+: r1.temps.toList)
    (hscope : r1.scope = r.scope) : Grows r r1 [] where
  code := by simp [hscope]
  temps := htemps
  length := by simp [hcs]
  construct e b hb := by
    refine ⟨_, by rw [hcs, getElem?_modify_of hb], ?_⟩
    split
    · rename_i hde
      subst hde
      rw [hc, Option.some.injEq] at hb
      exact hb ▸ hf
    · exact .refl _ b

/-- Giving a construct a result temporary. -/
lemma grows_resultTemp {d : Nat} {c c' : Construct} (t : ValueType)
    (hc : r.constructs[d]? = some c') (hc' : c'.temp = c.temp) :
    Grows r (r.resultTemp d c t).2 [] := by
  cases htemp : c.temp with
  | some temp =>
    rw [resultTemp_some t htemp]
    exact .refl r
  | none =>
    rw [resultTemp_none t htemp]
    refine grows_of_modify hc ?_ rfl (by simp) rfl
    have hnone : c'.temp = none := hc'.trans htemp
    exact ⟨rfl, rfl, rfl, fun _ h => h, by simp [hnone], fun _ h => .inr (by simp at h; omega)⟩

/-- Giving a construct a label. -/
lemma grows_labelOf {d : Nat} {c c' : Construct} (hc : r.constructs[d]? = some c')
    (hc' : c'.label = c.label) : Grows r (r.labelOf d c).2 [] := by
  cases hlabel : c.label with
  | some label =>
    rw [labelOf_some hlabel]
    exact .refl r
  | none =>
    rw [labelOf_none hlabel]
    refine grows_of_modify hc ?_ rfl prefix_rfl rfl
    have hnone : c'.label = none := hc'.trans hlabel
    exact ⟨rfl, rfl, rfl, by simp [hnone], fun _ h => h, fun _ h => .inl h⟩

/-! ## Instructions that are not part of a construct -/

variable {env : Surroundings}

lemma writes_of_leaves (hl : Leaves env r es r1) : Writes r es r1 := by
  cases hl with
  | value => exact (writes_settlingFor _ rfl).kill.of_withValues
  | plain => exact (writes_settlingFor _ rfl).kill

lemma writes_carryTo {d : Nat} {c : Construct} (t : ValueType) (v : Pending)
    (hc : r.constructs[d]? = some c) : Writes r (carryingTo d c t v r) (carryTo d c t v r) :=
  .afterNothing (grows_resultTemp t hc rfl) (writes_emit rfl)

lemma writes_jumpTo {d : Nat} {c c' : Construct} (hc : r.constructs[d]? = some c')
    (hc' : c'.label = c.label) : Writes r (jumpingTo d c r) (jumpTo d c r) :=
  .afterNothing (grows_labelOf hc hc') (writes_emit rfl).kill

/-- A branch. -/
lemma writes_of_branches {d : Nat} (hb : Branches env d r es r1) : Writes r es r1 := by
  cases hb with
  | leave _ hl => exact writes_of_leaves hl
  | @value c t v vs hc =>
    have hc' := getElem?_leavingWith v vs hc
    exact ((writes_settle _).trans ((writes_carryTo t v hc').trans
      (writes_jumpTo (getElem?_resultTemp t hc' rfl) rfl))).of_withValues
  | @plain c =>
    have hc' : (r.settle .leaving).constructs[d]? = some c := by rwa [settle_constructs]
    exact (writes_settle _).trans (writes_jumpTo hc' rfl)

/-- A conditional branch. -/
lemma writes_of_branchesIf {d : Nat} {cond : Pending}
    (hb : BranchesIf env d cond r es r1) : Writes r es r1 := by
  cases hb with
  | leaveWith | leave => exact writes_emit rfl
  | @value c t v vs hc =>
    have htemp := grows_resultTemp (c := c) t (getElem?_labelOf hc) rfl
    exact .afterNothing ((grows_labelOf hc rfl).trans htemp) (writes_emit rfl)
  | @plain c hc => exact .afterNothing (grows_labelOf hc rfl) (writes_emit rfl)

/-- **Instructions that are not part of a construct only add to a state.** -/
theorem writes_of_acts {i : Instruction} (ha : Acts env i r es r1) : Writes r es r1 := by
  cases ha with
  | nop => exact .refl r
  | unreachable => exact (writes_settlingFor _ rfl).kill
  | br _ _ hb => exact writes_of_branches hb
  | brIf _ _ _ hb =>
    exact ((writes_settle _).trans (writes_of_branchesIf hb)).of_withValues
  | brTable _ _ _ hb =>
    exact ((writes_discard _).trans (writes_of_branches hb)).of_withValues
  | returnOp _ hl => exact writes_of_leaves hl
  | call | numeric => exact (writes_sequence _).replace _ _
  | callPlain | store => exact (writes_sequence _).trans (writes_settlingFor _ rfl).of_withValues
  | callIndirect =>
    exact (((writes_settle _).trans (writes_trapIndirect _)).push _).of_withValues
  | callIndirectPlain => exact ((writes_settle _).trans (writes_trapIndirect _)).of_withValues
  | drop => exact (writes_discard _).of_withValues
  | select => exact (writes_spill _ _).replace _ _
  | getLocal | getGlobal | currentMemory | const => exact (Writes.refl r).push _
  | setLocal | setGlobal => exact (writes_settlingFor _ rfl).of_withValues
  | teeLocal => exact ((writes_settlingFor _ rfl).push _).of_withValues
  | growMemory | load => exact (Writes.refl r).replace _ _

/-! ## Inside a construct -/

lemma prefix_temps_resultTemp {c : Construct} {cs : List Construct}
    (hcs : r.constructs = c :: cs) (t : ValueType) :
    r.temps.toList <+: (r.resultTemp 0 c t).2.temps.toList :=
  (grows_resultTemp t (by rw [hcs]; rfl) rfl).temps

lemma Switches.temps (h : Switches r es r1) : r.temps.toList <+: r1.temps.toList := by
  obtain ⟨c, cs, cond, hcs, -, h⟩ := h
  cases h with
  | keep | plain => exact prefix_rfl
  | store => exact prefix_temps_resultTemp (r := r.withValues []) hcs _

/-- The end of a construct adds temporaries. -/
lemma Closes.temps (h : Closes r es r1) : r.temps.toList <+: r1.temps.toList := by
  obtain ⟨c, cs, hcs, h⟩ := h
  cases h with
  | folded | plain | direct | unreached => exact prefix_rfl
  | store => exact prefix_temps_resultTemp (r := r.withValues []) hcs _
  | carried | carriedUnreached => exact prefix_temps_resultTemp hcs _

/-- A construct that still has everything a branch to it needs. -/
structure Serves (c c' : Construct) : Prop where
  /-- It has the same result. -/
  carried : carriedType c' = carriedType c
  /-- It has the same label. -/
  label : ∀ l, c.label = some l → c'.label = some l
  /-- It has the same result temporary. -/
  temp : ∀ t, c.temp = some t → c'.temp = some t

lemma Serves.refl (c : Construct) : Serves c c := ⟨rfl, fun _ => id, fun _ => id⟩

lemma Serves.trans {c1 c2 c3 : Construct} (h : Serves c1 c2) (h' : Serves c2 c3) : Serves c1 c3 :=
  ⟨h'.carried.trans h.carried, fun l hl => h'.label l (h.label l hl),
    fun t ht => h'.temp t (h.temp t ht)⟩

lemma serves_of_grows {c c' : Construct} {temps : Nat} (h : c.Grows temps c') : Serves c c' :=
  ⟨by rw [carriedType, carriedType, h.kind, h.result], h.label, h.temp⟩

/-- A state inside a construct, seen from the state before the construct. -/
structure Inside (rs r : Rebuild) (c : Construct) (cs : List Construct) : Prop where
  /-- The construct is the innermost one. -/
  constructs : r.constructs = c :: cs
  /-- It stands in the scope before. -/
  enclosing : c.enclosing = rs.scope
  /-- Its result temporary is new. -/
  temp : ∀ t, c.temp = some t → rs.temps.size ≤ t
  /-- What is outside only grows. -/
  outside : Grows rs { r with scope := rs.scope, constructs := cs } []

variable {rs : Rebuild} {c : Construct} {cs : List Construct}

lemma Inside.of_open (rs : Rebuild) (hcs : r.constructs = c :: rs.constructs)
    (henclosing : c.enclosing = rs.scope) (htemp : c.temp = none) (htemps : r.temps = rs.temps) :
    Inside rs r c rs.constructs where
  constructs := hcs
  enclosing := henclosing
  temp t ht := by rw [htemp] at ht; cases ht
  outside := ⟨(append_nil _).symm, htemps ▸ prefix_rfl, rfl, fun _ b hb => ⟨b, hb, .refl _ b⟩⟩

/-- What happens inside a construct leaves the state inside it. -/
lemma Inside.grown (hg : Grows r r1 ss) (h : Inside rs r c cs) :
    ∃ c1 outer1, Inside rs r1 c1 outer1 ∧ c.Grows r.temps.size c1 := by
  obtain ⟨c1, hc1, hcg⟩ := hg.construct 0 c (by simp [h.constructs])
  obtain ⟨outer1, hcs⟩ : ∃ outer1, r1.constructs = c1 :: outer1 := by
    cases hcs : r1.constructs with
    | nil => simp [hcs] at hc1
    | cons c2 outer1 =>
      rw [hcs, getElem?_cons_zero, Option.some.injEq] at hc1
      exact ⟨outer1, by rw [hc1]⟩
  have hlength := hg.length
  rw [hcs, h.constructs, length_cons, length_cons] at hlength
  refine ⟨c1, outer1, ⟨hcs, hcg.enclosing.trans h.enclosing, fun t htemp => ?_,
    h.outside.thenNothing ⟨(append_nil _).symm, hg.temps, Nat.succ.inj hlength, fun d b hb => ?_⟩⟩,
    hcg⟩
  · rcases hcg.newTemp t htemp with htemp | hle
    · exact h.temp t htemp
    · exact Nat.le_trans h.outside.size_temps hle
  · obtain ⟨b1, hb1, hbg⟩ := hg.construct (d + 1) b (by rw [h.constructs]; exact hb)
    rw [hcs] at hb1
    exact ⟨b1, hb1, hbg⟩

/-- Whatever is pending inside. -/
lemma Inside.withValues (h : Inside rs r c cs) (values : List Pending) :
    Inside rs (r.withValues values) c cs :=
  ⟨h.constructs, h.enclosing, h.temp, h.outside⟩

lemma Inside.resultTemp_le (h : Inside rs r c cs) (t : ValueType) :
    rs.temps.size ≤ (r.resultTemp 0 c t).1 := by
  cases htemp : c.temp with
  | none =>
    rw [resultTemp_none t htemp]
    exact h.outside.size_temps
  | some temp =>
    rw [resultTemp_some t htemp]
    exact h.temp temp htemp

/-- The construct has been left. -/
lemma Inside.left (h : Inside rs r c cs) (hcs : r1.constructs = cs)
    (htemps : r.temps.toList <+: r1.temps.toList)
    (hcode : r1.scope.code.toList = c.enclosing.code.toList ++ ss) : ∃ ss, Grows rs r1 ss :=
  ⟨ss, by rw [hcode, h.enclosing], h.outside.temps.trans htemps, hcs ▸ h.outside.length,
    hcs ▸ h.outside.construct⟩

/-- **The change between the arms of a conditional** leaves the state inside it. The conditional
only gets another kind, and perhaps a result temporary. -/
theorem Inside.switches (h : Inside rs r c cs) (hs : Switches r es r1) :
    ∃ c1, Inside rs r1 c1 cs ∧ c1.result = c.result ∧ Serves c c1 ∧ r1.scope = {} := by
  have htemps := hs.temps
  obtain ⟨cond, hkind, hs⟩ := hs.innermost h.constructs
  suffices hstart : ∀ (r' : Rebuild) (value : Option Pending) (temp : Option Nat) (live : Bool),
      r.temps.toList <+: r'.temps.toList → (∀ t, c.temp = some t → temp = some t) →
      (∀ t, temp = some t → rs.temps.size ≤ t) →
      ∃ c1, Inside rs (toElse c cs cond value temp live r') c1 cs ∧ c1.result = c.result ∧
        Serves c c1 ∧ (toElse c cs cond value temp live r').scope = {} by
    cases hs with
    | keep _ _ _ _ htemp => exact hstart _ _ _ _ htemps (by simp [htemp]) (by simp)
    | @store v t =>
      refine hstart _ _ _ _ htemps (fun temp htemp => by rw [resultTemp_some t htemp])
        fun temp htemp => ?_
      exact Option.some.inj htemp ▸ (h.withValues []).resultTemp_le t
    | plain => exact hstart _ _ _ _ htemps (fun _ => id) h.temp
  intro r' value temp live htemps hold hnew
  refine ⟨_, ⟨rfl, h.enclosing, hnew, h.outside.thenNothing ?_⟩, rfl,
    ⟨by simp [carriedType, hkind], fun _ => id, hold⟩, rfl⟩
  exact ⟨(append_nil _).symm, htemps, rfl, fun _ b hb => ⟨b, hb, .refl _ b⟩⟩

/-- **Whole constructs only add to a state.** -/
theorem Inside.closes (h : Inside rs r c cs) (hc : Closes r es r1) : ∃ ss, Grows rs r1 ss := by
  have htemps := hc.temps
  cases hc.innermost h.constructs with
  | folded => exact h.left rfl htemps (append_nil _).symm
  | plain | unreached | direct | store | carried | carriedUnreached =>
    exact h.left rfl htemps Array.toList_push

end Rebuild

end WasmToC

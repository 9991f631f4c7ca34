import WasmToC.Proofs.Mirroring

/-!
# Arms and ends, line by line

The lines of a construct are its statement as soon as it is closed: the value of a first arm that
was kept is inserted in front of the second arm, and the lines of two arms that only compute a value
are taken back. The numbers of lines that a label remembers are those of the lines it stands for.

## Main definitions

* `Rebuild.endFirst`, `Rebuild.endLast` — the end of an arm, given the value that
  falls through it.

## Main results

* `Mirrors.switchArm` — the change between the arms of a conditional.
* `Mirrors.close` — the end of a construct.
-/

namespace WasmToC

open List Checked
open C (Line Stmt)
open Rebuild

variable {T : Turn} {op : Opcode} {stops : Prop} {r r1 : Rebuild} {w : Writer}
  {env : Surroundings} {c : Construct} {cs : List Construct} {cond : Pending}

/-! ## The end of an arm -/

lemma Rebuild.Tidy.stable_outside (h : r.Tidy env) :
    ∀ v ∈ outside r.constructs, v.uses.isStable = true := by
  intro v hv
  obtain ⟨c, hc, hv⟩ := mem_flatMap.mp hv
  exact (h.constructs c hc).stable v hv

/-- What is known of the operands of a tidy state that can be reached. -/
lemma Mirrors.active (h : Mirrors T r w) (hl : r.reach = .live) (htidy : r.Tidy env) :
    Active T r w where
  toMirrors := h
  live := hl
  sound _ hv := (htidy.admits_value hv).sound
  stable := htidy.stable_outside

/-- **What falls through at the end of an arm** is the same. -/
theorem Mirrors.fallThrough (h : Mirrors T r w) (htidy : r.Tidy env) (hflat : r.Flat)
    (hcs : r.constructs = c :: cs) (site : Site) :
    Follows stops (fun p q => q.1 = p.1 ∧ FallsThrough r c.result p.1 p.2 ∧ Mirrors T p.2 q.2)
      (r.fallThrough site c.result) (w.fallThrough site (labelFor c cs)) := by
  unfold Rebuild.fallThrough Writer.fallThrough
  rw [h.dead]
  rcases hflat with hl | hd
  · have hactive := h.active hl htidy
    have hfound : w.stack.length - (labelFor c cs).base = r.scope.values.length := by
      rw [hactive.length_stack, hcs]
      exact Nat.add_sub_cancel _ _
    have htype : (labelFor c cs).result = c.result := rfl
    simp only [hl, Reach.isLive, if_true, Bool.not_true, Bool.false_eq_true, if_false, hfound,
      htype, Rebuild.takeResult]
    by_cases hn : r.scope.values.length = if c.result.isSome then 1 else 0
    · rw [if_neg (not_not_intro hn), if_neg (not_not_intro hn)]
      cases hres : c.result with
      | none =>
        rw [hres] at hn
        exact .ok ⟨rfl, .plain hl rfl (length_eq_zero_iff.mp hn), h⟩
      | some t =>
        refine (hactive.popTyped site t).with_eq.bind ?_
        rintro ⟨v, r1⟩ ⟨u, w1⟩ ⟨hpop, htakes⟩
        obtain rfl : u = v := htakes.same
        obtain ⟨vs, hvs, htyped, rfl⟩ := popTyped_eq_ok.mp hpop
        have hb : vs = [] := by simpa [hres, hvs] using hn
        subst hb
        exact .ok ⟨rfl, .value hl rfl hvs htyped, htakes.active.toMirrors⟩
    · rw [if_pos hn, if_pos hn]
      exact .refuse site _
  · simp only [hd, Reach.isLive, Bool.not_false, if_true, Bool.false_eq_true, if_false]
    exact .ok ⟨rfl, .dead hd, h⟩

section FallsThrough

variable {type : Option ValueType} {value : Option Pending}

lemma Rebuild.FallsThrough.constructs (h : FallsThrough r type value r1) :
    r1.constructs = r.constructs := by
  cases h <;> rfl

lemma Rebuild.FallsThrough.reach (h : FallsThrough r type value r1) : r1.reach = r.reach := by
  cases h <;> rfl

lemma Rebuild.FallsThrough.tidy (h : FallsThrough r type value r1) (htidy : r.Tidy env) :
    r1.Tidy env := by
  cases h with
  | value => exact htidy.withValues (by simp)
  | plain | dead => exact htidy

end FallsThrough

lemma flattenAll_eq_nil {code : List Stmt} : Stmt.flattenAll code = [] ↔ code = [] := by
  cases code with
  | nil => simp
  | cons s rest => simp [Stmt.flatten_ne_nil]

/-- A line that does nothing is safe. -/
lemma isSafe_of_idle {vs : List Pending} {line : Line} (hassigned : line.assigned? = none)
    (hchanges : line.changesState = false) (hreads : line.readsState = false)
    (hleaves : line.leaves = false) : Entry.IsSafe ⟨op, vs, line⟩ := by
  intro v _
  simp [hassigned, hchanges, hreads, hleaves]

lemma Mirrors.take_base (h : Mirrors T r w) (hcs : r.constructs = c :: cs) :
    w.stack.take (labelFor c cs).base = (outside r.constructs).reverse := by
  rw [h.stack, Rebuild.operands, reverse_append, hcs]
  exact take_left' length_reverse

lemma Shows.get_innermost (h : Shows T r w) (hflat : r.Flat) (hcs : r.constructs = c :: cs) :
    get w.labels r.constructs.length = .ok (labelFor c cs) := by
  have hc : r.constructs[0]? = some c := by
    rw [hcs]
    rfl
  rw [h.get_label hflat (Nat.add_zero _) hc, hcs]
  rfl

/-- The label of the innermost construct is changed. -/
lemma Shows.set_innermost (h : Shows T r w) (hflat : r.Flat)
    (hcs : r.constructs = c :: cs) (l : Label) :
    Checked.set w.labels r.constructs.length l = .ok ((labelsFor T.result cs).reverse ++ [l]) := by
  have hset := h.set_labels hflat (Nat.zero_le _) l
  rw [set_ok (h.lt_length_labels hflat (Nat.add_zero _)), ← Nat.sub_zero r.constructs.length,
    hset, hcs, labelsFor, set_cons_zero, reverse_cons]

/-! ## The second arm -/

/-- The lines of a state in the first arm of a conditional, with those of the second arm started. -/
lemma listing_toElse (hcs : r.constructs = c :: cs) (hkind : c.kind = .ifArm cond)
    (thenValue : Option Pending) (temp : Option Nat) (live : Bool) :
    (toElse c cs cond thenValue temp live r).listing =
      r.listing ++ [(cs.length + 1, .openElse)] := by
  simp [listing, toElse, hcs, trunk, opening, hkind, C.nest_append, C.nest, C.depthAfter_flattenAll]

lemma length_listing_ifArm (hcs : r.constructs = c :: cs) (hkind : c.kind = .ifArm cond) :
    r.listing.length = front c cs + 1 + (Stmt.flattenAll r.scope.code.toList).length := by
  simp [listing, hcs, trunk, opening, hkind, front]
  omega

/-- **The second arm of a conditional starts.** -/
theorem Mirrors.startElse (h : Mirrors T r w) (hflat : r.Flat)
    (hcs : r.constructs = c :: cs) (hk : c.kind = .ifArm cond)
    (thenValue : Option Pending) (live : Bool) :
    ∃ w1, w.startElse r.constructs.length cond (front c cs) thenValue live = .ok w1 ∧
      Mirrors T (toElse c cs cond thenValue c.temp live r) w1 := by
  have hd : w.depth - 1 = cs.length + 1 := by simp [h.depth, hcs]
  rw [Writer.startElse, h.get_innermost hflat hcs]
  simp only [bind, Except.bind, sub_ok (h.depth ▸ Nat.le_add_left 1 _ : 1 ≤ w.depth),
    Writer.emit, Writer.emitBelow, h.set_innermost hflat hcs]
  refine ⟨_, rfl, ?_⟩
  exact {
    labels := by
      rw [skipped_of_flat (.inl rfl), append_nil, h.lines, length_listing_ifArm hcs hk]
      simp [toElse, labelsFor, labelFor, labelKind, front]
      rfl
    lines := by rw [listing_toElse hcs hk, h.lines, hd]
    depth := by
      simp only [hd, toElse]
      rfl
    dead := rfl
    writes := by
      have hsafe (vs : List Pending) : Entry.IsSafe ⟨T.op, vs, .openElse⟩ :=
        isSafe_of_idle rfl rfl rfl rfl
      exact writes_lines h.writes h.op (w.depth - 1) _ fun _ => forall_mem_singleton.mpr (hsafe _)
    stack := by
      simp only [h.take_base hcs, hcs]
      rfl
    __ := h }

lemma Shows.last_label (h : Shows T r w) (hflat : r.Flat) :
    Checked.sub w.labels.length 1 = .ok r.constructs.length := by
  rw [h.length_labels hflat]
  exact sub_ok (Nat.le_add_left 1 _)

lemma labelFor_ifArm (hk : c.kind = .ifArm cond) (cs : List Construct) :
    (labelFor c cs).kind = .ifArm cond (front c cs) := by
  rw [labelFor, labelKind, hk]

/-- The value that falls through the first arm is kept by both sides, or put into a temporary. -/
lemma Mirrors.keepThen (h : Mirrors T r w) (hl : r.reach = .live) (htidy : r.Tidy env)
    (hvs : r.scope.values = []) (hcs : r.constructs = c :: cs) {t : ValueType}
    (hres : c.result = some t) (v : Pending) {isPure : Bool}
    (hno : (isPure && c.temp.isNone) = false) :
    ∃ w1, w.keepThen r.constructs.length (labelFor c cs) isPure (some v) = .ok (none, w1) ∧
      Mirrors T (carryTo 0 c t v r) w1 := by
  have hactive := h.active hl htidy
  have hclear : r.IsClear .effect := by
    intro u hu
    rw [Rebuild.operands, hvs, nil_append] at hu
    exact Hazard.not_conflicts_of_isStable _ (htidy.stable_outside u hu)
  obtain ⟨w1, hw1, h1⟩ := hactive.carryTo hclear (Nat.add_zero _)
    (by rw [hcs]; rfl : r.constructs[0]? = some c) t (Hazard.knows_effect v.expr)
  refine ⟨_, ?_, h1.toMirrors⟩
  simp only [Writer.keepThen, labelFor, hres, hno, Bool.false_eq_true, if_false, hw1, bind,
    Except.bind]
  rfl

/-- Ends the first arm of a conditional, given the value that falls through it. -/
def Rebuild.endFirst (c : Construct) (cs : List Construct) (cond : Pending) (live : Bool)
    (value : Option Pending) (r : Rebuild) : Rebuild :=
  match value, c.result with
  | some v, some t =>
    if live && r.scope.code.isEmpty && c.temp.isNone then
      toElse c cs cond (some v) c.temp live r
    else toElse c cs cond none (some (r.resultTemp 0 c t).1) live (carryTo 0 c t v r)
  | _, _ => toElse c cs cond none c.temp live r

lemma switchArm_ifArm (hcs : r.constructs = c :: cs) (hk : c.kind = .ifArm cond) (site : Site) :
    r.switchArm site = r.fallThrough site c.result >>= fun p =>
      .ok (endFirst c cs cond r.reach.isLive p.1 p.2) := by
  obtain ⟨_, type, label, temp, enclosing⟩ := c
  subst hk
  unfold Rebuild.switchArm
  simp only [hcs]
  congr 1
  funext ⟨value, r2⟩
  unfold endFirst
  cases value with
  | none => rfl
  | some v =>
    cases type with
    | none => rfl
    | some t =>
      simp only
      split <;> rfl

/-- The first arm ends in the same way. -/
lemma Mirrors.endFirst {value : Option Pending} (h : Mirrors T r1 w)
    (htidy : r.Tidy env) (hflat : r.Flat) (hcs : r.constructs = c :: cs)
    (hfalls : FallsThrough r c.result value r1) (hk : c.kind = .ifArm cond) :
    ∃ thenValue w2 w3, w.keepThen r.constructs.length (labelFor c cs)
        (r.reach.isLive && w.lines.length = front c cs + 1) value = .ok (thenValue, w2) ∧
      w2.startElse r.constructs.length cond (front c cs) thenValue r.reach.isLive = .ok w3 ∧
      Mirrors T (Rebuild.endFirst c cs cond r.reach.isLive value r1) w3 := by
  have hcs1 : r1.constructs = c :: cs := hfalls.constructs.trans hcs
  have hflat1 : r1.Flat := by rwa [Rebuild.Flat, hfalls.reach]
  have hpure : (w.lines.length = front c cs + 1) ↔ r1.scope.code = #[] := by
    rw [h.lines, length_listing_ifArm hcs1 hk, ← Array.toList_eq_nil_iff,
      ← flattenAll_eq_nil, ← length_eq_zero_iff]
    exact Nat.add_eq_left
  cases hfalls with
  | plain | dead =>
    obtain ⟨w2, hw2, h2⟩ := h.startElse hflat hcs hk none r.reach.isLive
    exact ⟨none, w, w2, rfl, hw2, h2⟩
  | @value t v hlive hres =>
    by_cases hkeep : (r.withValues []).scope.code = #[] ∧ c.temp = none
    · obtain ⟨w2, hw2, h2⟩ := h.startElse hflat1 hcs1 hk (some v) r.reach.isLive
      refine ⟨some v, w, w2, ?_, hw2, ?_⟩
      · simp [Writer.keepThen, labelFor, hres, hpure.mpr hkeep.1, hkeep.2, hlive, Reach.isLive]
      · simpa [Rebuild.endFirst, hres, hlive, Reach.isLive, hkeep] using h2
    · have hno : (r.reach.isLive && (decide (w.lines.length = front c cs + 1)) &&
          c.temp.isNone) = false := by
        rw [hlive, Reach.isLive, Bool.true_and]
        exact Bool.eq_false_iff.mpr fun hboth => hkeep (by simpa [hpure] using hboth)
      obtain ⟨w2, hw2, h2⟩ := h.keepThen hlive (htidy.withValues (by simp)) rfl hcs1 hres v hno
      have hlive2 : (carryTo 0 c t v (r.withValues [])).reach = .live := by
        rw [carryTo, Rebuild.emit, reach_resultTemp]
        exact hlive
      have hcs2 := constructs_resultTemp t hcs1
      obtain ⟨w3, hw3, h3⟩ := h2.startElse (.inl hlive2) hcs2 hk none r.reach.isLive
      refine ⟨none, w2, w3, hw2, ?_, ?_⟩
      · rw [carryTo, Rebuild.emit, hcs2] at hw3
        rwa [hcs]
      · have hend : Rebuild.endFirst c cs cond r.reach.isLive (some v) (r.withValues []) =
            toElse c cs cond none (some ((r.withValues []).resultTemp 0 c t).1)
              r.reach.isLive (carryTo 0 c t v (r.withValues [])) := by
          simp [Rebuild.endFirst, hres, hlive, Reach.isLive, hkeep]
        rw [hend]
        exact h3

/-- **The change between the arms of a conditional.** -/
theorem Mirrors.switchArm (h : Mirrors T r w) (htidy : r.Tidy env) (hflat : r.Flat) (site : Site) :
    Follows stops (Mirrors T) (r.switchArm site) (w.switchArm site) := by
  unfold Writer.switchArm
  refine .bind_right (h.last_label hflat) ?_
  rcases hcs : r.constructs with _ | ⟨c, cs⟩
  · rw [← hcs]
    refine .bind_right (h.get_body hflat (Nat.add_zero _) (by rw [hcs]; rfl)) ?_
    rw [Rebuild.switchArm]
    simp only [hcs]
    exact .refuse site _
  · rw [← hcs]
    refine .bind_right (h.get_innermost hflat hcs) ?_
    cases hkind : c.kind with
    | ifArm cond =>
      rw [switchArm_ifArm hcs hkind, labelFor_ifArm hkind, h.dead, Bool.not_not]
      refine (h.fallThrough htidy hflat hcs site).bind ?_
      rintro ⟨value, r1⟩ ⟨u, w1⟩ ⟨hsame, hfalls, h1⟩
      obtain rfl : u = value := hsame
      obtain ⟨thenValue, w2, w3, hthen, helse, h3⟩ := h1.endFirst htidy hflat hcs hfalls hkind
      exact .bind_right hthen (.ok_right helse h3)
    | block | loop | elseArm =>
      rw [labelFor, labelKind, hkind, Rebuild.switchArm]
      simp only [hcs, hkind]
      exact .refuse site _

/-! ## The end of a construct -/

/-- The operands of the innermost construct are taken away. -/
lemma Mirrors.trim (h : Mirrors T r w) (hflat : r.Flat) (hcs : r.constructs = c :: cs) :
    Mirrors T (r.withValues []) { w with stack := w.stack.take (labelFor c cs).base } where
  labels := h.labels_of_constructs hflat hflat rfl
  stack := h.take_base hcs
  __ := h

/-- The number of lines in the second arm of a conditional. -/
lemma length_listing_elseArm (hcs : r.constructs = c :: cs) {thenCode : Array Stmt}
    {thenValue : Option Pending} {thenLive : Bool}
    (hkind : c.kind = .elseArm cond thenCode thenValue thenLive) :
    r.listing.length = front c cs + 1 + (Stmt.flattenAll thenCode.toList).length + 1 +
      (Stmt.flattenAll r.scope.code.toList).length := by
  simp [listing, hcs, trunk, opening, hkind, front]
  omega

/-- Both sides fold the same arms. -/
lemma Mirrors.foldArms?_eq (h : Mirrors T r w) (hcs : r.constructs = c :: cs)
    (value : Option Pending) :
    w.foldArms? (labelFor c cs) value =
      (Rebuild.foldArms? c r.scope.code value).map fun folded => (folded, front c cs) := by
  unfold Writer.foldArms? Rebuild.foldArms?
  cases hkind : c.kind with
  | block | loop | ifArm => simp [labelFor, labelKind, hkind]
  | elseArm cond thenCode thenValue thenLive =>
    have hempty : decide (w.lines.length =
        front c cs + 1 + (Stmt.flattenAll thenCode.toList).length + 1) = r.scope.code.isEmpty := by
      rw [h.lines, length_listing_elseArm hcs hkind, Bool.eq_iff_iff, decide_eq_true_iff,
        Array.isEmpty_iff, ← Array.toList_eq_nil_iff, ← flattenAll_eq_nil,
        ← length_eq_zero_iff]
      exact Nat.add_eq_left
    cases thenValue with
    | none => simp [labelFor, labelKind, hkind]
    | some v =>
      cases value with
      | none => simp [labelFor, labelKind, hkind]
      | some u =>
        simp only [labelFor, labelKind, hkind, hempty]
        split <;> rfl

/-- The lines in front of a construct are those of the scope around it. -/
lemma take_listing (hcs : r.constructs = c :: cs) (reach : Reach) : r.listing.take (front c cs) =
      { r with scope := c.enclosing, constructs := cs, reach }.listing := by
  simp only [listing, hcs, trunk, C.nest_append, front, append_assoc]
  rw [← append_assoc]
  exact take_left' (by simp)

/-- **Two arms are folded**: their lines are taken back. -/
theorem Mirrors.fold (h : Mirrors T r w) (hflat : r.Flat) (hvs : r.scope.values = [])
    (hcs : r.constructs = c :: cs) (folded : Pending) :
    Mirrors T ({ r with scope := c.enclosing, constructs := cs, reach := .live }.push folded)
      ({ w with
        lines := w.lines.take (front c cs), labels := w.labels.dropLast, depth := w.depth - 1,
        dead := false }.push folded) := by
  refine Mirrors.push ?_ (.inl rfl) folded
  exact {
    labels := by
      rw [skipped_of_flat (.inl rfl), append_nil, h.labels_eq hflat, hcs, labelsFor, reverse_cons,
        dropLast_concat]
    lines := by rw [h.lines, take_listing hcs]
    depth := by simp [h.depth, hcs]
    dead := rfl
    writes := writes_take h.writes _
    stack := by simp [h.stack, Rebuild.operands, hvs, hcs, outside]
    __ := h }

lemma insertIdx_append {α : Type} (l k : List α) (a : α) :
    (l ++ k).insertIdx l.length a = l ++ a :: k := by
  induction l with
  | nil => rfl
  | cons b l ih => simp [ih]

/-- The value of the first arm that was kept is inserted at the end of its arm. -/
lemma listing_storeThenValue (hcs : r.constructs = c :: cs) {v : Pending}
    {thenCode : Array Stmt} {thenLive : Bool}
    (hkind : c.kind = .elseArm cond thenCode (some v) thenLive) (temp : Nat) :
    r.listing.insertIdx (front c cs + 1 + (Stmt.flattenAll thenCode.toList).length)
        (r.constructs.length + 1, .run (.assign (.temp temp) v.expr)) =
      { r with
        constructs := { c with kind := storeThenValue temp c.kind } :: cs }.listing := by
  let pre := trunk cs ++ C.nest (cs.length + 1) (Stmt.flattenAll c.enclosing.code.toList) ++
    (cs.length + 1, .openIf cond.expr) :: C.nest (cs.length + 2) (Stmt.flattenAll thenCode.toList)
  let behind := (cs.length + 1, .openElse) ::
    C.nest (cs.length + 2) (Stmt.flattenAll r.scope.code.toList)
  have hlisting : r.listing = pre ++ behind := by
    simp [pre, behind, listing, hcs, trunk, opening, hkind, C.nest_append, C.nest,
      C.depthAfter_flattenAll]
  have hlength : front c cs + 1 + (Stmt.flattenAll thenCode.toList).length = pre.length := by
    simp [pre, front]
    omega
  rw [hlisting, hlength, insertIdx_append]
  simp [pre, behind, listing, hcs, trunk, opening, hkind, storeThenValue, C.nest_append, C.nest,
    C.depthAfter_flattenAll, Stmt.flatten]

/-- **The value of the first arm is stored**, if it was kept. -/
theorem Mirrors.storeThenValue (h : Mirrors T r w) (hflat : r.Flat)
    (hstable : ∀ v ∈ r.operands, v.uses.isStable = true) (hcs : r.constructs = c :: cs)
    (temp : Nat) :
    ∃ w1, w.storeThenValue r.constructs.length temp = .ok w1 ∧ Mirrors T
        { r with constructs := { c with kind := storeThenValue temp c.kind } :: cs } w1 := by
  rw [Writer.storeThenValue, h.get_innermost hflat hcs]
  have hsame (hkind : Rebuild.storeThenValue temp c.kind = c.kind) :
      { r with constructs := { c with kind := Rebuild.storeThenValue temp c.kind } :: cs } = r := by
    rw [hkind, ← hcs]
  simp only [bind, Except.bind]
  cases hkind : c.kind with
  | block | loop | ifArm =>
    rw [← hkind, hsame (by rw [hkind]; rfl)]
    exact ⟨w, by simp only [labelFor, labelKind, hkind]; rfl, h⟩
  | elseArm cond thenCode thenValue thenLive =>
    cases thenValue with
    | none =>
      rw [← hkind, hsame (by rw [hkind]; rfl)]
      exact ⟨w, by simp only [labelFor, labelKind, hkind]; rfl, h⟩
    | some v =>
      simp only [labelFor, labelKind, hkind, h.set_innermost hflat hcs]
      have hinsert := listing_storeThenValue hcs hkind temp
      have hle : front c cs + 1 + (Stmt.flattenAll thenCode.toList).length ≤ w.lines.length := by
        rw [h.lines, length_listing_elseArm hcs hkind]
        omega
      simp only [insert_ok hle]
      refine ⟨_, rfl, ?_⟩
      have hskip (constructs : List Construct) : { r with constructs }.skipped = [] :=
        skipped_of_flat (r := { r with constructs }) hflat
      exact {
        labels := by
          rw [hskip]
          simp [labelsFor, labelFor, labelKind, Rebuild.storeThenValue, front, outside,
            Stmt.flatten, Nat.add_assoc]
        lines := by rw [h.lines, h.depth, hinsert, hkind]
        depth := by rw [h.depth, hcs]; rfl
        writes := by
          refine writes_append h.writes (fun e he => ?_) (fun hne e he => ?_) ?_
          · rw [mem_singleton.mp he]
            exact h.op
          · rw [mem_singleton.mp he]
            refine Entry.isSafe_of_isStable fun u hu => hstable u ?_
            rwa [h.stack, mem_reverse] at hu
          · exact (((perm_insertIdx _ _ hle).map Prod.snd).trans
              (perm_append_singleton _ _).symm).subperm
        stack := by
          rw [h.stack, Rebuild.operands, hcs]
          rfl
        __ := h }

/-- **The values of the arms go into the result temporary** where one is needed. -/
theorem Mirrors.carryResult (h : Mirrors T r w) (hflat : r.Flat)
    (hstable : ∀ v ∈ r.operands, v.uses.isStable = true) (hcs : r.constructs = c :: cs)
    (value : Option Pending) :
    ∃ w1, w.carryResult r.constructs.length (labelFor c cs) value =
        .ok ((r.carryResult c value).1, w1) ∧
      Mirrors T { (r.carryResult c value).2.2 with
          constructs := (r.carryResult c value).2.1 :: cs } w1 := by
  have helse : (labelFor c cs).kind.isElse = ConstructKind.isElse c.kind := by
    simp only [labelFor, labelKind]
    cases c.kind <;> rfl
  have htemp : (labelFor c cs).temp = c.temp := rfl
  have htype : (labelFor c cs).result = c.result := rfl
  -- nothing has to be carried
  have hsame : Mirrors T { r with constructs := c :: cs } w := by
    rw [← hcs]
    exact h
  unfold Writer.carryResult
  rw [helse, htemp, htype]
  cases hres : c.result with
  | none =>
    have hcarry : r.carryResult c value = (none, c, r) := by simp [Rebuild.carryResult, hres]
    rw [hcarry]
    exact ⟨w, rfl, hsame⟩
  | some t =>
    by_cases hcarried : (ConstructKind.isElse c.kind || c.temp.isSome) = true
    · have hc : r.constructs[0]? = some c := by
        rw [hcs]
        rfl
      obtain ⟨w1, hw1, h1⟩ := h.resultTemp hflat (Nat.add_zero _) hc rfl t
      have hflat1 : (r.resultTemp 0 c t).2.Flat := by rwa [Rebuild.Flat, reach_resultTemp]
      have hstable1 : ∀ v ∈ (r.resultTemp 0 c t).2.operands, v.uses.isStable = true := by
        rwa [operands_resultTemp t hc]
      obtain ⟨w2, hw2, h2⟩ := h1.storeThenValue hflat1 hstable1 (constructs_resultTemp t hcs)
        (r.resultTemp 0 c t).1
      rw [length_constructs_resultTemp] at hw2
      cases value with
      | none =>
        rw [carryResult_none hres hcarried]
        simp only [hcarried, if_true, hw1, hw2, bind, Except.bind]
        exact ⟨w2, rfl, h2⟩
      | some v =>
        rw [carryResult_some hres hcarried]
        simp only [hcarried, if_true, hw1, hw2, bind, Except.bind]
        refine ⟨_, rfl, h2.write rfl fun _ => Entry.isSafe_of_isStable fun u hu => hstable1 u ?_⟩
        rw [Rebuild.operands, constructs_resultTemp t hcs]
        exact mem_reverse.mp hu
    · have hcarry : r.carryResult c value = (value, c, r) := by
        simp [Rebuild.carryResult, hres, hcarried]
      rw [hcarry]
      simp only [hcarried, Bool.false_eq_true, if_false]
      exact ⟨w, rfl, hsame⟩

/-- The lines of a construct that is closed. -/
lemma listing_leaveConstruct (hcs : r.constructs = c :: cs) (reachable : Bool) :
    (Rebuild.leaveConstruct c cs reachable r).listing =
      r.listing ++ (closingLines c).map fun line => (cs.length + 1, line) := by
  have hlabel (d : Nat) (label : Option Nat) :
      C.nest d (C.labelLine label) = (C.labelLine label).map fun line => (d, line) := by
    cases label <;> rfl
  simp only [listing, Rebuild.leaveConstruct, Rebuild.emit, hcs, trunk, opening, statementOf,
    closingLines]
  cases c.kind <;>
    simp [C.nest_append, C.nest, C.depthAfter_flattenAll, Stmt.flatten, hlabel]

@[simp] lemma closingLines_labelFor (c : Construct) (cs : List Construct) :
    Writer.closingLines (labelFor c cs) = Rebuild.closingLines c := by
  simp only [Writer.closingLines, Rebuild.closingLines, labelFor, labelKind]
  cases c.kind <;> rfl

@[simp] lemma reachesEnd_labelFor (c : Construct) (cs : List Construct) (live : Bool) :
    Writer.reachesEnd (labelFor c cs) live = Rebuild.reachesEnd c live := by
  simp only [Writer.reachesEnd, Rebuild.reachesEnd, labelFor, labelKind]
  cases c.kind <;> rfl

@[simp] lemma isIf_labelFor (c : Construct) (cs : List Construct) :
    (labelFor c cs).kind.isIf = ConstructKind.isIf c.kind := by
  simp only [labelFor, labelKind]
  cases c.kind <;> rfl

/-- The lines that end a construct do nothing. -/
lemma isSafe_of_mem_closingLines {vs : List Pending} {line : Line}
    (hl : line ∈ closingLines c) : Entry.IsSafe ⟨op, vs, line⟩ := by
  have hlabel : line ∈ C.labelLine c.label → ∃ l, line = .label l := by
    cases c.label with
    | none => simp [C.labelLine]
    | some l => exact fun hl => ⟨l, mem_singleton.mp hl⟩
  rcases mem_cons.mp hl with rfl | hl
  · exact isSafe_of_idle rfl rfl rfl rfl
  · cases hk : c.kind with
    | loop => simp [hk] at hl
    | block | ifArm | elseArm =>
      rw [hk] at hl
      obtain ⟨l, rfl⟩ := hlabel hl
      exact isSafe_of_idle rfl rfl rfl rfl

/-- **A construct is closed**: with its last lines, its lines are those of its statement. -/
theorem Mirrors.leave_construct (h : Mirrors T r w) (hflat : r.Flat)
    (hvs : r.scope.values = []) (hcs : r.constructs = c :: cs) (reachable : Bool) :
    Mirrors T (Rebuild.leaveConstruct c cs reachable r)
      { { w with depth := w.depth - 1, labels := w.labels.dropLast }.emitAll (closingLines c) with
        dead := !reachable } := by
  rw [emitAll_eq]
  exact {
    labels := by
      rw [skipped_of_flat (flat_leaveConstruct ..), append_nil]
      simp only [h.labels_eq hflat, hcs, labelsFor, reverse_cons, dropLast_concat,
        Rebuild.leaveConstruct, Rebuild.emit]
    lines := by
      rw [listing_leaveConstruct hcs, h.lines]
      simp [h.depth, hcs]
    depth := by simp [h.depth, hcs, Rebuild.leaveConstruct, Rebuild.emit]
    dead := by cases reachable <;> rfl
    writes := writes_lines h.writes h.op (w.depth - 1) w.stack fun _ _ hl =>
      isSafe_of_mem_closingLines hl
    stack := by
      simp [h.stack, Rebuild.operands, hvs, hcs, outside, Rebuild.leaveConstruct, Rebuild.emit]
    __ := h }

/-- Ends a construct that is not folded, given its result. -/
def Rebuild.endWith (site : Site) (cs : List Construct) (live : Bool) (carried : Option Pending)
    (c : Construct) (r : Rebuild) : Except Failure Rebuild :=
  if ConstructKind.isIf c.kind && c.result.isSome then site.refuse .missingElse
  else
    match c.result with
    | some t =>
      if reachesEnd c live then do
        return (leaveConstruct c cs true r).push (← site.need carried (.noResult t))
      else return leaveConstruct c cs false r
    | none => return leaveConstruct c cs (reachesEnd c live) r

/-- Ends a construct, given the value that falls through its last arm. -/
def Rebuild.endLast (site : Site) (c : Construct) (cs : List Construct) (live : Bool)
    (value : Option Pending) (r : Rebuild) : Except Failure Rebuild :=
  match foldArms? c r.scope.code value with
  | some folded =>
    .ok ({ r with scope := c.enclosing, constructs := cs, reach := .live }.push folded)
  | none =>
    endWith site cs live (r.carryResult c value).1 (r.carryResult c value).2.1
      (r.carryResult c value).2.2

lemma resultTemp_withValues (r : Rebuild) (c : Construct) (t : ValueType) (values : List Pending) :
    (r.withValues values).resultTemp 0 c t =
      ((r.resultTemp 0 c t).1, (r.resultTemp 0 c t).2.withValues values) := by
  unfold Rebuild.resultTemp
  cases c.temp <;> rfl

lemma carryResult_withValues (r : Rebuild) (c : Construct) (value : Option Pending)
    (values : List Pending) :
    (r.withValues values).carryResult c value =
      ((r.carryResult c value).1, (r.carryResult c value).2.1,
        (r.carryResult c value).2.2.withValues values) := by
  unfold Rebuild.carryResult
  cases c.result with
  | none => rfl
  | some t =>
    cases ConstructKind.isElse c.kind || c.temp.isSome with
    | false => rfl
    | true =>
      simp only [if_true, resultTemp_withValues]
      cases value <;> rfl

lemma reach_carryResult (r : Rebuild) (c : Construct) (value : Option Pending) :
    (r.carryResult c value).2.2.reach = r.reach := by
  unfold Rebuild.carryResult
  cases c.result with
  | none => rfl
  | some t =>
    cases ConstructKind.isElse c.kind || c.temp.isSome with
    | false => rfl
    | true => cases value <;> exact reach_resultTemp 0 c t

/-- The operands of the innermost scope make no difference where it is left. -/
lemma close_cons (hcs : r.constructs = c :: cs) (site : Site) :
    r.close site = r.fallThrough site c.result >>= fun p =>
      endLast site c cs r.reach.isLive p.1 (p.2.withValues []) := by
  unfold Rebuild.close
  simp only [hcs]
  congr 1
  funext ⟨value, r2⟩
  unfold endLast
  simp only
  cases hfold : foldArms? c r2.scope.code value with
  | some folded =>
    have hfold' : foldArms? c (r2.withValues []).scope.code value = some folded := hfold
    simp only [hfold']
    rfl
  | none =>
    have hfold' : foldArms? c (r2.withValues []).scope.code value = none := hfold
    rw [hfold', carryResult_withValues]
    obtain ⟨carried, c', r'⟩ := r2.carryResult c value
    simp only [endWith]
    cases hres : c'.result with
    | none => rfl
    | some t => cases hend : reachesEnd c' r.reach.isLive <;> rfl

/-- The end of a construct that is not folded. -/
lemma Mirrors.endWith (h : Mirrors T r w) (hflat : r.Flat)
    (hvs : r.scope.values = []) (hcs : r.constructs = c :: cs) (site : Site) (live : Bool)
    (carried : Option Pending) :
    Follows stops (Mirrors T) (Rebuild.endWith site cs live carried c r)
      (w.leaveConstruct site r.constructs.length live carried) := by
  have hleave (reachable : Bool) := h.leave_construct hflat hvs hcs reachable
  have htype : (labelFor c cs).result = c.result := rfl
  unfold Rebuild.endWith Writer.leaveConstruct
  refine .bind_right (sub_ok (h.depth ▸ Nat.le_add_left 1 _)) ?_
  refine .bind_right (h.get_innermost hflat hcs) ?_
  rw [isIf_labelFor, closingLines_labelFor, reachesEnd_labelFor, htype]
  split
  · exact .refuse site _
  · cases hres : c.result with
    | none => exact .ok (hleave _)
    | some t =>
      cases hend : Rebuild.reachesEnd c live with
      | false => exact .ok (hleave false)
      | true =>
        refine (Follows.need site _).bind ?_
        rintro v _ ⟨-, rfl⟩
        exact .ok ((hleave true).push (.inl rfl) v)

/-- **The end of a construct.** -/
theorem Mirrors.close (h : Mirrors T r w) (htidy : r.Tidy env) (hflat : r.Flat) (site : Site) :
    Follows stops (Mirrors T) (r.close site) (w.close site) := by
  unfold Writer.close
  refine .bind_right (h.last_label hflat) ?_
  rcases hcs : r.constructs with _ | ⟨c, cs⟩
  · rw [← hcs]
    refine .bind_right (h.get_body hflat (Nat.add_zero _) (by rw [hcs]; rfl)) ?_
    rw [Rebuild.close]
    simp only [hcs]
    exact .refuse site _
  · rw [← hcs]
    refine .bind_right (h.get_innermost hflat hcs) ?_
    rw [isBody_labelFor, close_cons hcs, h.dead, Bool.not_not]
    refine (h.fallThrough htidy hflat hcs site).bind ?_
    rintro ⟨value, r1⟩ ⟨u, w1⟩ ⟨hsame, hfalls, h1⟩
    obtain rfl : u = value := hsame
    have hcs1 : r1.constructs = c :: cs := hfalls.constructs.trans hcs
    have hflat1 : r1.Flat := by rwa [Rebuild.Flat, hfalls.reach]
    have h2 := h1.trim hflat1 hcs1
    have hstable : ∀ v ∈ (r1.withValues []).operands, v.uses.isStable = true :=
      (hfalls.tidy htidy).stable_outside
    unfold Rebuild.endLast
    have hfold := h2.foldArms?_eq hcs1 u
    cases hfolds : foldArms? c (r1.withValues []).scope.code u with
    | some folded =>
      rw [hfolds] at hfold
      simp only [hfold, Option.map_some]
      refine .bind_right (sub_ok (h2.depth ▸ Nat.le_add_left 1 _)) ?_
      exact .ok (h2.fold hflat1 rfl hcs1 folded)
    | none =>
      rw [hfolds] at hfold
      simp only [hfold, Option.map_none]
      obtain ⟨w3, hw3, h3⟩ := h2.carryResult hflat1 hstable hcs1 u
      have hlen : (r1.withValues []).constructs.length = r.constructs.length :=
        congrArg List.length hfalls.constructs
      rw [hlen] at hw3
      refine .bind_right hw3 ?_
      have hflat3 : ((r1.withValues []).carryResult c u).2.2.Flat := by
        rw [Rebuild.Flat, reach_carryResult]
        exact hflat1
      have hvalues3 : ((r1.withValues []).carryResult c u).2.2.scope.values = [] := by
        rw [carryResult_withValues]
        rfl
      have hend : Follows stops _ _ _ := h3.endWith hflat3 hvalues3 rfl site r.reach.isLive
        ((r1.withValues []).carryResult c u).1
      rw [length_cons] at hend
      rw [hcs]
      exact hend

end WasmToC

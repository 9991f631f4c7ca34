import WasmToC.Proofs.Mirror

/-!
# Operands on one stack

Reconstruction looks at the operands of the innermost scope only, while writing line by line looks
at the whole stack. What waits outside is stable: it is never in the way, and evaluating it makes
no difference. So both evaluate the same operands, in the same order.

## Main definitions

* `Takes` — both sides take the same operand.

## Main results

* `Shows.evaluate` — evaluating operands from the first one up, and from the last one down.
* `Active.spill`, `Active.sequence` — spilling on the whole stack.
-/

namespace WasmToC

open List Checked Prod
open C (Line Stmt)
open Rebuild

variable {T : Turn} {stops : Prop} {r r1 : Rebuild} {w w1 : Writer} {c c' : Construct}
  {depth target : Nat}

/-! ## Taking operands -/

/-- Both sides take the same operand, the last one. -/
structure Takes (T : Turn) (r : Rebuild) (p : Pending × Rebuild) (q : Pending × Writer) : Prop where
  /-- It is the same. -/
  same : q.1 = p.1
  /-- It was the last one. -/
  last : ∃ vs, r.scope.values = p.1 :: vs ∧ p.2 = r.withValues vs
  /-- Its footprint covers it. -/
  sound : p.1.Sound
  /-- What is left is the same. -/
  active : Active T p.2 q.2

/-- What follows where both sides take an operand. -/
lemma Follows.take {β γ : Type} {R : β → γ → Prop} {x : Except Failure (Pending × Rebuild)}
    {y : Except Failure (Pending × Writer)} {f : Pending × Rebuild → Except Failure β}
    {g : Pending × Writer → Except Failure γ} (h : Follows stops (Takes T r) x y)
    (hnext : ∀ v vs w1, r.scope.values = v :: vs → v.Sound →
      Active T (r.withValues vs) w1 → Follows stops R (f (v, r.withValues vs)) (g (v, w1))) :
    Follows stops R (x >>= f) (y >>= g) := by
  refine h.bind ?_
  rintro ⟨v, r1⟩ ⟨u, w1⟩ htakes
  obtain rfl : u = v := htakes.same
  obtain ⟨vs, hvs, rfl⟩ := htakes.last
  exact hnext u vs w1 hvs htakes.sound htakes.active

/-- Both sides take the same operands, `n` in all. -/
structure TakesAll (T : Turn) (n : Nat) (p : List Pending × Rebuild)
    (q : List Pending × Writer) : Prop where
  /-- They are the same. -/
  same : q.1 = p.1
  /-- There are as many as there are types. -/
  length : p.1.length = n
  /-- What is left is the same. -/
  active : Active T p.2 q.2

section Taking

variable (h : Active T r w)
include h

lemma Active.length_stack :
    w.stack.length = r.scope.values.length + (outside r.constructs).length := by
  rw [h.stack, length_reverse, Rebuild.operands, length_append]

lemma Active.require (site : Site) (n : Nat) : w.require site n = r.require site n := by
  rw [Writer.require, Rebuild.require, h.base_eq h.flat, h.length_stack]
  congr 1
  exact propext ⟨fun _ => by omega, fun _ => by omega⟩

lemma Active.pop (site : Site) : Follows stops (Takes T r) (r.pop site) (w.pop site) := by
  rw [Rebuild.pop, Writer.pop, h.require]
  cases hvs : r.scope.values with
  | nil =>
    rw [Rebuild.require, hvs, if_pos (by simp)]
    exact .error _
  | cons v vs =>
    rw [Rebuild.require, hvs, if_neg (by simp)]
    have hstack : w.stack = (vs ++ outside r.constructs).reverse ++ [v] := by
      rw [h.stack, Rebuild.operands, hvs, cons_append, reverse_cons]
    refine .bind_right rfl ?_
    simp only [hstack, getLast?_concat, dropLast_concat]
    have hv : v.Sound := h.sound v (hvs ▸ mem_cons_self)
    refine .ok ⟨rfl, ⟨vs, hvs, rfl⟩, hv, h.withValues (fun u hu => ?_) rfl⟩
    rw [hvs]
    exact mem_cons_of_mem v hu

lemma Active.popTyped (site : Site) (t : ValueType) :
    Follows stops (Takes T r) (r.popTyped site t) (w.popTyped site t) := by
  refine (h.pop site).bind ?_
  rintro ⟨v, r1⟩ ⟨u, w1⟩ htakes
  obtain rfl : u = v := htakes.same
  simp only
  split
  · exact .ok htakes
  · exact .refuse site _

lemma Active.peekTyped (site : Site) (t : ValueType) :
    Follows stops (fun v u => u = v ∧ v ∈ r.scope.values) (r.peekTyped site t)
      (w.peekTyped site t) := by
  refine (h.popTyped site t).bind ?_
  rintro ⟨v, r1⟩ ⟨u, w1⟩ htakes
  obtain ⟨vs, hvs, -⟩ := htakes.last
  exact .ok ⟨htakes.same, by rw [hvs]; exact mem_cons_self⟩

lemma Active.popEach (site : Site) (taken : List Pending) (ts : List ValueType) :
    Follows stops (TakesAll T (taken.length + ts.length))
      (Rebuild.popEach site ts taken r) (Writer.popEach site ts taken w) := by
  induction ts generalizing r w taken with
  | nil => exact .ok ⟨rfl, rfl, h⟩
  | cons t ts ih =>
    refine (h.popTyped site t).take fun v vs w1 _ _ h1 => ?_
    have hn : taken.length + (t :: ts).length = (v :: taken).length + ts.length := by
      simp only [length_cons]
      omega
    rw [hn]
    exact ih h1 (v :: taken)

lemma Active.popArgs (site : Site) (ts : List ValueType) :
    Follows stops (TakesAll T ts.length) (r.popArgs site ts) (w.popArgs site ts) := by
  have hpop : Follows stops _ _ _ := h.popEach site [] ts.reverse
  rwa [length_nil, Nat.zero_add, length_reverse] at hpop

end Taking

/-! ## Spilling -/

/-- Marking from the last operand down marks what conflicts. -/
lemma mark_eq (ms : List (Pending × Bool)) (h : Hazard) (above : List Pending) (marks : List Bool) :
    Writer.mark ((ms.map fst).reverse ++ above) ms.length ((ms.map snd).reverse ++ marks) h =
      .ok (((markConflicts h ms).map snd).reverse ++ marks) := by
  induction ms generalizing h above marks with
  | nil => rfl
  | cons m vs ih =>
    obtain ⟨v, m⟩ := m
    have hv : ((vs.map fst).reverse ++ v :: above)[vs.length]? = some v := by
      rw [getElem?_append_right (by simp)]
      simp
    have hm : ((vs.map snd).reverse ++ m :: marks)[vs.length]? = some m := by
      rw [getElem?_append_right (by simp)]
      simp
    simp only [map_cons, reverse_cons, append_assoc, singleton_append,
      length_cons, Writer.mark, get_ok hv, get_ok hm, markConflicts, bind,
      Except.bind]
    split
    · have hset : ((vs.map snd).reverse ++ m :: marks).set vs.length true =
          (vs.map snd).reverse ++ true :: marks := by
        rw [set_append_right _ _ (by simp)]
        simp
      rw [set_ok (by simp), hset]
      simp only [ih, map_cons, reverse_cons, append_assoc, singleton_append]
    · rename_i hno
      have hm : m = false := by
        simp only [Bool.or_eq_true, not_or, Bool.not_eq_true] at hno
        exact hno.1
      subst hm
      simp only [ih, map_cons, reverse_cons, append_assoc, singleton_append]

/-- The last of several operands is evaluated last. -/
lemma evaluate_succ (marked : List Bool) (n i : Nat) (w : Writer) :
    Writer.evaluate marked (n + 1) i w =
      (Writer.evaluate marked n i w >>= fun w => w.evaluateAt marked (i + n)) := by
  induction n generalizing i w with
  | zero => exact bind_pure (w.evaluateAt marked i)
  | succ n ih =>
    rw [Writer.evaluate, Writer.evaluate, bind_assoc]
    refine bind_congr fun w => ?_
    rw [ih, Nat.add_assoc, Nat.add_comm 1]

/-- What the evaluation of an operand writes is safe where the operands below it are settled. -/
lemma isSafe_assign_temp {op : Opcode} {marks : List (Pending × Bool)} {h : Hazard} {v : Pending}
    (hsettled : Settled (h.and (.evaluating v.uses)) marks) (hsound : v.Sound) (t : Nat)
    (r : Rebuild) :
    Entry.IsSafe ⟨op, (evaluateMarked marks r).1.reverse, .run (.assign (.temp t) v.expr)⟩ := by
  refine Entry.isSafe_of_covers (fun u hu => ?_)
    (Hazard.covers_assign_temp t (Hazard.knows_evaluating hsound))
  have hno := not_conflicts_of_mem_evaluateMarked hsettled (mem_reverse.mp hu)
  rw [Hazard.conflicts_and (.inr rfl), Bool.or_eq_false_iff] at hno
  exact hno.2

/-- **Evaluating marked operands from the first one up** shows their evaluation from the last one
down.

**Proof sketch.** Induction on the operands, the last one first. Those below are evaluated first on
both sides, while it stays in its place; then it is evaluated if it is marked. -/
theorem Shows.evaluate (ms : List (Pending × Bool)) (h : Hazard) (hsettled : Settled h ms)
    (hsound : ∀ v ∈ ms.map fst, v.uses.isStable = false → v.Sound) {above : List Pending}
    (marks : List Bool) (hshows : Shows T r w)
    (hstack : w.stack = (ms.map fst).reverse ++ above) :
    ∃ w1, Writer.evaluate ((ms.map snd).reverse ++ marks) ms.length 0 w = .ok w1 ∧
      Shows T (evaluateMarked ms r).2 w1 ∧
      w1.stack = (evaluateMarked ms r).1.reverse ++ above := by
  induction ms generalizing h above marks with
  | nil => exact ⟨w, rfl, hshows, hstack⟩
  | cons m vs ih =>
    obtain ⟨v, m⟩ := m
    have hb : ∃ h', Settled h' vs := by
      cases m with
      | true => exact ⟨_, hsettled⟩
      | false => exact ⟨_, hsettled.2⟩
    obtain ⟨h', hb⟩ := hb
    rw [map_cons, reverse_cons, append_assoc] at hstack
    obtain ⟨w1, hw1, hshows1, hstack1⟩ := ih h' hb
      (fun u hu => hsound u (mem_cons_of_mem v hu)) (m :: marks) hstack
    rw [length_cons, evaluate_succ, map_cons, reverse_cons, append_assoc,
      singleton_append, hw1, evaluateMarked_cons]
    have hlen : (evaluateMarked vs r).1.reverse.length = vs.length := by
      rw [length_reverse, length_evaluateMarked]
    have hv : w1.stack[vs.length]? = some v := by
      rw [hstack1, getElem?_append_right (by omega), hlen]
      simp
    have hm : ((vs.map snd).reverse ++ m :: marks)[vs.length]? = some m := by
      rw [getElem?_append_right (by simp)]
      simp
    change ∃ w2, w1.evaluateAt _ (0 + vs.length) = .ok w2 ∧ _
    rw [Nat.zero_add, Writer.evaluateAt, get_ok hv, get_ok hm]
    simp only [bind, Except.bind]
    split
    · rename_i hdo
      obtain ⟨rfl, hunstable⟩ : m = true ∧ v.uses.isStable = false := by simpa using hdo
      have hlt : vs.length < (w1.newTemp v.type).2.stack.length :=
        (List.getElem?_eq_some_iff.mp hv).1
      have hfresh : (w1.newTemp v.type).1 = (evaluateMarked vs r).2.temps.size :=
        hshows1.newTemp_fst v.type
      have hset : w1.stack.set vs.length (.temp (w1.newTemp v.type).1 v.type) =
          (evaluateMarked vs r).1.reverse ++
            .temp (evaluateMarked vs r).2.temps.size v.type :: above := by
        rw [hstack1, set_append_right _ _ (by omega), hlen, hfresh]
        simp
      have hsafe : Entry.IsSafe ⟨T.op, ((w1.newTemp v.type).2.stack.set vs.length
            (.temp (w1.newTemp v.type).1 v.type)).take vs.length,
          .run (.assign (.temp (evaluateMarked vs r).2.temps.size) v.expr)⟩ := by
        change Entry.IsSafe ⟨T.op, (w1.stack.set vs.length _).take vs.length, _⟩
        rw [hset, ← hlen, take_left']
        · exact isSafe_assign_temp hsettled (hsound v mem_cons_self hunstable) _ r
        · rfl
      rw [set_ok hlt]
      refine ⟨_, rfl, ?_, ?_⟩
      · rw [hfresh] at hsafe ⊢
        exact ((hshows1.newTemp v.type).withStack _).emitBelow rfl fun _ => hsafe
      · refine hset.trans ?_
        rw [reverse_cons, append_assoc, singleton_append]
    · exact ⟨w1, rfl, hshows1, by simp [hstack1]⟩

/-- Marks on what is stable stay as they are. -/
lemma markConflicts_append {cs : List (Pending × Bool)}
    (hstable : ∀ m ∈ cs, m.1.uses.isStable = true) (h : Hazard) (ms : List (Pending × Bool)) :
    markConflicts h (ms ++ cs) = markConflicts h ms ++ cs := by
  induction ms generalizing h with
  | nil =>
    rw [nil_append, markConflicts, nil_append]
    induction cs generalizing h with
    | nil => rfl
    | cons m cs ih =>
      obtain ⟨v, m⟩ := m
      have ih := ih fun m hm => hstable m (mem_cons_of_mem _ hm)
      rw [markConflicts, Hazard.not_conflicts_of_isStable h (hstable _ mem_cons_self)]
      cases m <;> simp [ih]
  | cons m ms ih =>
    obtain ⟨v, m⟩ := m
    rw [cons_append, markConflicts, markConflicts, ih, ih]
    split <;> rfl

/-- What is stable is not evaluated. -/
lemma evaluateMarked_append {cs : List (Pending × Bool)}
    (hstable : ∀ m ∈ cs, m.1.uses.isStable = true) (ms : List (Pending × Bool)) (r : Rebuild) :
    evaluateMarked (ms ++ cs) r =
      ((evaluateMarked ms r).1 ++ cs.map fst, (evaluateMarked ms r).2) := by
  induction ms with
  | nil =>
    rw [nil_append, evaluateMarked_of_isStable r]
    · rfl
    · intro v hv
      obtain ⟨m, hm, rfl⟩ := mem_map.mp hv
      exact hstable m hm
  | cons m ms ih =>
    rw [cons_append, evaluateMarked_cons, evaluateMarked_cons, ih]
    split <;> rfl

/-- **Spilling all operands shows spilling those of the innermost scope.** -/
theorem Active.spill (h : Active T r w) (marked : Nat → Pending → Bool) (hz : Hazard)
    {flags rest : List Bool} (hflags : flags = (r.scope.values.mapIdx marked ++ rest).reverse)
    (hr : rest.length = (outside r.constructs).length) :
    ∃ w1, w.spill flags hz = .ok w1 ∧ Active T (r.spill marked hz) w1 := by
  set inner := r.scope.values.mapIdx fun i v => (v, marked i v) with hinner
  set cs := (outside r.constructs).zip rest with houter
  have hstable : ∀ m ∈ cs, m.1.uses.isStable = true := fun m hm =>
    h.stable m.1 (of_mem_zip hm).1
  have hfst : (inner ++ cs).map fst = r.operands := by
    have hvs : inner.map fst = r.scope.values :=
      ext_getElem? fun i => by simp [hinner, getElem?_mapIdx, Function.comp_def]
    rw [map_append, houter, map_fst_zip (by omega), hvs, Rebuild.operands]
  have hsnd : (inner ++ cs).map snd = r.scope.values.mapIdx marked ++ rest := by
    have hmarks : inner.map snd = r.scope.values.mapIdx marked :=
      ext_getElem? fun i => by simp [hinner, getElem?_mapIdx, Function.comp_def]
    rw [map_append, houter, map_snd_zip (by omega), hmarks]
  have hlen : (inner ++ cs).length = w.stack.length := by
    rw [← length_map fst, hfst, h.stack, length_reverse]
  have hmarks : markConflicts hz (inner ++ cs) =
      marksOf marked hz r.scope.values ++ cs := markConflicts_append hstable hz inner
  have hmark := mark_eq (inner ++ cs) hz [] []
  rw [append_nil, append_nil, append_nil, hfst, hsnd, ← hflags, ← h.stack, hlen, hmarks] at hmark
  have hfst' : (marksOf marked hz r.scope.values ++ cs).map fst = r.operands := by
    rw [← hmarks, map_fst_markConflicts, hfst]
  have hsound : ∀ v ∈ (marksOf marked hz r.scope.values ++ cs).map fst,
      v.uses.isStable = false → v.Sound := by
    intro v hv hunstable
    rw [hfst', Rebuild.operands] at hv
    rcases mem_append.mp hv with hv | hv
    · exact h.sound v hv
    · rw [h.stable v hv] at hunstable
      cases hunstable
  obtain ⟨w1, hw1, hshows, hstack⟩ := Shows.evaluate _ hz
    (hmarks ▸ settled_markConflicts hz (inner ++ cs)) hsound [] h.toShows
    (by rw [hfst', append_nil, h.stack])
  rw [evaluateMarked_append hstable, append_nil] at hstack
  rw [evaluateMarked_append hstable] at hshows
  refine ⟨w1, ?_, ?_⟩
  · rw [Writer.spill, hmark]
    rw [append_nil] at hw1
    refine Eq.trans ?_ hw1
    rw [← length_map fst, hfst', h.stack, length_reverse]
    rfl
  · have hl : (evaluateMarked (marksOf marked hz r.scope.values) r).2.reach = .live :=
      (evaluateMarked_frame _ r).2.1.trans h.live
    exact { hshows with
      labels := by
        exact hshows.labels_of_constructs (.inl hl) (.inl hl) rfl
      stack := by
        rw [hstack, houter, map_fst_zip (by omega), Rebuild.operands, spill_constructs]
        rfl
      live := hl
      sound := fun v hv => by
        rcases oldOrNew_of_mem_spill hv with hold | ⟨t, type, rfl, -, -⟩
        · exact h.sound v hold
        · exact Pending.sound_temp t type
      stable := by
        rw [spill_constructs]
        exact h.stable }

/-- Equal marks on all operands. -/
lemma replicate_eq_reverse (values : List Pending) (n : Nat) (b : Bool) :
    List.replicate (values.length + n) b =
      (values.mapIdx (fun _ _ => b) ++ List.replicate n b).reverse := by
  refine (eq_replicate_iff.mpr ⟨by simp [Nat.add_comm], fun m hm => ?_⟩).symm
  rw [mem_reverse, mem_append, mem_mapIdx, mem_replicate] at hm
  rcases hm with ⟨_, _, rfl⟩ | ⟨_, rfl⟩ <;> rfl

lemma Active.settle (h : Active T r w) (hz : Hazard) :
    ∃ w1, w.settle hz = .ok w1 ∧ Active T (r.settle hz) w1 := by
  have hflags := replicate_eq_reverse r.scope.values (outside r.constructs).length false
  rw [← h.length_stack] at hflags
  exact h.spill _ hz hflags length_replicate

lemma Active.spillAll (h : Active T r w) : ∃ w1, w.spillAll = .ok w1 ∧ Active T r.spillAll w1 := by
  have hflags := replicate_eq_reverse r.scope.values (outside r.constructs).length true
  rw [← h.length_stack] at hflags
  exact h.spill _ .none hflags length_replicate

/-- Marking what depends on the state marks nothing else. -/
lemma markStateful_eq (stack : List Pending) (n i : Nat) (marked : List Bool)
    (hlen : marked.length = stack.length) (hn : i + n ≤ stack.length) :
    ∃ flags, Writer.markStateful stack n i marked = .ok flags ∧ flags.length = stack.length ∧
      ∀ j, flags[j]? = if i ≤ j ∧ j < i + n then stack[j]?.map (·.uses.dependsOnState)
        else marked[j]? := by
  induction n generalizing i marked with
  | zero =>
    refine ⟨marked, rfl, hlen, fun j => ?_⟩
    rw [if_neg (by omega)]
  | succ n ih =>
    have hi : i < stack.length := by omega
    obtain ⟨flags, hflags, hlength, hget⟩ := ih (i + 1)
      (marked.set i stack[i].uses.dependsOnState) (by rw [length_set, hlen]) (by omega)
    refine ⟨flags, ?_, hlength, fun j => ?_⟩
    · rw [Writer.markStateful, get_ok (getElem?_eq_getElem hi)]
      simp only [bind, Except.bind]
      rw [set_ok (by omega)]
      exact hflags
    · rw [hget, getElem?_set]
      by_cases hij : i = j
      · subst hij
        rw [if_neg (by omega), if_pos rfl, if_pos (by omega), if_pos (by omega),
          getElem?_eq_getElem hi, Option.map_some]
      · rw [if_neg hij]
        by_cases hin : i + 1 ≤ j ∧ j < i + 1 + n
        · rw [if_pos hin, if_pos (by omega)]
        · rw [if_neg hin, if_neg (by omega)]

/-- The operand at a distance from the last one. -/
lemma Active.getElem?_stack (h : Active T r w) {j : Nat} (hj : j < w.stack.length) :
    w.stack[j]? = r.operands[w.stack.length - 1 - j]? := by
  have hlen : w.stack.length = r.operands.length := by rw [h.stack, length_reverse]
  rw [hlen] at hj ⊢
  rw [h.stack, getElem?_reverse hj]

/-- Marks that are chosen by the distance from the last operand. -/
lemma Active.flags_eq (h : Active T r w) (flags : List Bool)
    (marked : Nat → Pending → Bool) (hlen : flags.length = w.stack.length)
    (hin : ∀ d v, r.scope.values[d]? = some v → flags[w.stack.length - 1 - d]? = some (marked d v))
    (hout : ∀ d, r.scope.values.length ≤ d → d < w.stack.length →
      flags[w.stack.length - 1 - d]? = some false) :
    flags = (r.scope.values.mapIdx marked ++
      List.replicate (outside r.constructs).length false).reverse := by
  have hstack := h.length_stack
  rw [← reverse_eq_iff]
  refine ext_getElem? fun d => ?_
  by_cases hd : d < w.stack.length
  · rw [getElem?_reverse (by omega), hlen]
    by_cases hvalue : d < r.scope.values.length
    · rw [hin d _ (getElem?_eq_getElem hvalue), getElem?_append_left (by simpa),
        getElem?_mapIdx, getElem?_eq_getElem hvalue, Option.map_some]
    · rw [hout d (by omega) hd, getElem?_append_right (by simp; omega),
        getElem?_replicate, if_pos (by simp; omega)]
  · rw [getElem?_eq_none (by simp; omega), getElem?_eq_none (by simp; omega)]

/-- **Putting operands in sequence.** -/
theorem Active.sequence (h : Active T r w) (site : Site) (n : Nat) :
    Follows stops (fun _ w1 => n ≤ r.scope.values.length ∧ Active T (r.sequence n) w1)
      (r.require site n) (w.sequence site n) := by
  have hstack := h.length_stack
  rw [Writer.sequence, h.require]
  by_cases hn : n ≤ r.scope.values.length
  · rw [Rebuild.require, if_neg (by omega)]
    have hdrop : w.stack.drop (w.stack.length - n) = (r.scope.values.take n).reverse := by
      rw [h.stack, drop_reverse, length_reverse, Rebuild.operands,
        Nat.sub_sub_self (by rw [length_append]; omega), take_append_of_le_length hn]
    refine .bind_right rfl (.bind_right (sub_ok (by omega)) (.bind_right (slice_ok (by omega)) ?_))
    simp only [hdrop, any_reverse, filter_reverse, length_reverse]
    unfold Rebuild.sequence
    simp only
    split
    · rename_i hobserve
      have hpos : 0 < n := by
        rcases Nat.eq_zero_or_pos n with hzero | hpos
        · simp [hzero] at hobserve
        · exact hpos
      obtain ⟨flags, hflags, hlength, hget⟩ := markStateful_eq w.stack
        (w.stack.length - 1 - (w.stack.length - n)) (w.stack.length - n)
        (List.replicate w.stack.length false) length_replicate (by omega)
      refine .bind_right (sub_ok (by omega)) (.bind_right hflags ?_)
      have heq := h.flags_eq flags (fun i v => 0 < i && i < n && v.uses.dependsOnState) hlength
        (fun d v hv => ?_) (fun d hd hlt => ?_)
      · obtain ⟨w1, hw1, hactive⟩ := h.spill _ .none heq length_replicate
        rw [hw1]
        exact .ok ⟨hn, hactive⟩
      · have hd := (List.getElem?_eq_some_iff.mp hv).1
        rw [hget]
        by_cases hin : 0 < d ∧ d < n
        · rw [if_pos (by omega), h.getElem?_stack (by omega), show
            w.stack.length - 1 - (w.stack.length - 1 - d) = d by omega, Rebuild.operands,
            getElem?_append_left hd, hv]
          simp [hin]
        · rw [if_neg (by omega), getElem?_replicate, if_pos (by omega)]
          have hno : (decide (0 < d) && decide (d < n)) = false := by simpa using hin
          rw [hno, Bool.false_and]
      · rw [hget, if_neg (by omega), getElem?_replicate, if_pos (by omega)]
    · exact .ok ⟨hn, h⟩
  · rw [Rebuild.require, if_pos (by omega)]
    exact .error _

/-! ## Labels and result temporaries -/

lemma relabels_temp (c : Construct) (temp : Option Nat) : Relabels c { c with temp } :=
  ⟨rfl, rfl, rfl, rfl⟩

/-- A label makes no difference to the lines that open a construct, unless that is a loop. -/
lemma relabels_label (hloop : c.kind ≠ .loop) (label : Option Nat) :
    Relabels c { c with label } := by
  refine ⟨rfl, rfl, rfl, ?_⟩
  unfold opening
  cases hk : c.kind with
  | loop => exact absurd hk hloop
  | block | ifArm | elseArm => rfl

/-- Changing the label or temporary of the construct at a depth. -/
lemma Mirrors.update (h : Mirrors T r w) (hflat : r.Flat) {f : Construct → Construct}
    (hc : r.constructs[depth]? = some c) (htarget : target + depth = r.constructs.length)
    (hf : Relabels c (f c)) :
    Mirrors T { r with constructs := r.constructs.modify depth f } { w with
      labels := w.labels.set target { labelFor c (r.constructs.drop (depth + 1)) with
          id := (f c).label, temp := (f c).temp } } where
  __ := h
  labels := by
    obtain rfl : target = r.constructs.length - depth := by omega
    rw [skipped_of_flat (r := { r with constructs := r.constructs.modify depth f }) hflat,
      append_nil, labelsFor_modify hc hf]
    exact h.set_labels hflat (by omega) _
  lines := by
    rw [h.lines, listing, listing, trunk_modify hc hf, length_modify]
  depth := by rw [h.depth, length_modify]
  stack := by rw [h.stack, Rebuild.operands, Rebuild.operands, outside_modify hc hf.enclosing]

/-- The label of the construct at a depth is found. -/
lemma Shows.get_label (h : Shows T r w) (hflat : r.Flat)
    (htarget : target + depth = r.constructs.length) (hc : r.constructs[depth]? = some c) :
    get w.labels target = .ok (labelFor c (r.constructs.drop (depth + 1))) := by
  obtain rfl : target = r.constructs.length - depth := by omega
  refine get_ok ?_
  rw [h.getElem?_labels hflat (by omega), getElem?_labelsFor hc]

lemma Shows.lt_length_labels (h : Shows T r w) (hflat : r.Flat)
    (htarget : target + depth = r.constructs.length) : target < w.labels.length := by
  rw [h.length_labels hflat]
  omega

/-- The temporary of a construct is the same. -/
lemma Mirrors.resultTemp (h : Mirrors T r w) (hflat : r.Flat)
    (htarget : target + depth = r.constructs.length) (hc : r.constructs[depth]? = some c')
    (htemp : c'.temp = c.temp) (t : ValueType) :
    ∃ w1, w.resultTemp target t = .ok ((r.resultTemp depth c t).1, w1) ∧
      Mirrors T (r.resultTemp depth c t).2 w1 := by
  rw [Writer.resultTemp, h.get_label hflat htarget hc]
  cases hct : c.temp with
  | some temp =>
    rw [resultTemp_some t hct]
    simp only [labelFor, htemp, hct, bind, Except.bind]
    exact ⟨w, rfl, h⟩
  | none =>
    rw [resultTemp_none t hct]
    simp only [labelFor, htemp, hct, bind, Except.bind, Writer.newTemp,
      set_ok (h.lt_length_labels hflat htarget), h.temps]
    refine ⟨_, rfl, ?_⟩
    have hnew : Mirrors T { r with temps := r.temps.push t } { w with
        temps := r.temps.push t } := { h with temps := rfl }
    exact hnew.update hflat hc htarget (relabels_temp c' _)

/-- What is known of operands stays where they stay. -/
lemma Active.of_mirrors (h : Active T r w) (hm : Mirrors T r1 w1)
    (hr : r1.reach = r.reach) (hvs : r1.scope.values = r.scope.values)
    (houtside : outside r1.constructs = outside r.constructs) : Active T r1 w1 where
  toMirrors := hm
  live := hr.trans h.live
  sound := hvs ▸ h.sound
  stable := houtside ▸ h.stable

lemma outside_labelOf (hc : r.constructs[depth]? = some c') :
    outside (r.labelOf depth c).2.constructs = outside r.constructs := by
  cases hcl : c.label with
  | some label => rw [labelOf_some hcl]
  | none =>
    rw [labelOf_none hcl]
    exact outside_modify hc rfl

lemma outside_resultTemp (t : ValueType) (hc : r.constructs[depth]? = some c') :
    outside (r.resultTemp depth c t).2.constructs = outside r.constructs := by
  cases hct : c.temp with
  | some temp => rw [resultTemp_some t hct]
  | none =>
    rw [resultTemp_none t hct]
    exact outside_modify hc rfl

@[simp] lemma length_constructs_labelOf (depth : Nat) (c : Construct) :
    (r.labelOf depth c).2.constructs.length = r.constructs.length := by
  cases hcl : c.label with
  | some label => rw [labelOf_some hcl]
  | none => simp [labelOf_none hcl]

@[simp] lemma length_constructs_resultTemp (depth : Nat) (c : Construct) (t : ValueType) :
    (r.resultTemp depth c t).2.constructs.length = r.constructs.length := by
  cases hct : c.temp with
  | some temp => rw [resultTemp_some t hct]
  | none => simp [resultTemp_none t hct]

lemma Active.resultTemp (h : Active T r w)
    (htarget : target + depth = r.constructs.length) (hc : r.constructs[depth]? = some c')
    (htemp : c'.temp = c.temp) (t : ValueType) :
    ∃ w1, w.resultTemp target t = .ok ((r.resultTemp depth c t).1, w1) ∧
      Active T (r.resultTemp depth c t).2 w1 := by
  obtain ⟨w1, hw1, hm⟩ := h.toMirrors.resultTemp h.flat htarget hc htemp t
  refine ⟨w1, hw1, h.of_mirrors hm (reach_resultTemp depth c t) ?_ (outside_resultTemp t hc)⟩
  rw [scope_resultTemp]

/-- What follows where both sides give a construct a label, or have given it one. -/
lemma Active.labelId {β γ : Type} {R : β → γ → Prop} {x : Except Failure β}
    {g : Nat × Writer → Except Failure γ} (h : Active T r w)
    (htarget : target + depth = r.constructs.length) (hc : r.constructs[depth]? = some c')
    (hlabel : c'.label = c.label) (hloop : c'.kind = .loop → c'.label.isSome = true)
    (hroom : r.labels + 1 < 2 ^ 32 ∨ stops)
    (hnext : ∀ w1, Active T (r.labelOf depth c).2 w1 →
      Follows stops R x (g ((r.labelOf depth c).1, w1))) :
    Follows stops R x (w.labelId target >>= g) := by
  have houtside := outside_labelOf (c := c) hc
  rw [Writer.labelId, h.get_label h.flat htarget hc]
  cases hcl : c.label with
  | some label =>
    rw [labelOf_some hcl] at hnext
    simp only [labelFor, hlabel, hcl, bind, Except.bind]
    exact hnext w h
  | none =>
    have hk : c'.kind ≠ .loop := by
      intro hk
      have := hloop hk
      rw [hlabel, hcl] at this
      cases this
    rw [labelOf_none hcl] at hnext houtside
    simp only [labelFor, hlabel, hcl, bind, Except.bind, Writer.newLabel, h.nextLabel]
    by_cases hlt : r.labels + 1 < 2 ^ 32
    · simp only [if_pos hlt, set_ok (h.lt_length_labels h.flat htarget)]
      have hnew : Mirrors T { r with labels := r.labels + 1 } { w with
          nextLabel := r.labels + 1 } := { h with nextLabel := rfl }
      refine hnext _ (h.of_mirrors ?_ rfl rfl houtside)
      exact hnew.update h.flat hc htarget (relabels_label hk _)
    · simp only [if_neg hlt]
      exact .stop (hroom.resolve_left hlt)

/-! ## Statements behind settled operands -/

/-- No operand is in the way of a hazard, wherever it waits. -/
def Rebuild.IsClear (hz : Hazard) (r : Rebuild) : Prop :=
  ∀ v ∈ r.operands, hz.conflicts v.uses = false

/-- **After settling, no operand is in the way.** -/
theorem Active.isClear_settle (h : Active T r w) (hazard : Hazard) :
    (r.settle hazard).IsClear hazard := by
  intro v hv
  rw [Rebuild.operands, settle_constructs] at hv
  rcases mem_append.mp hv with hv | hv
  · exact not_conflicts_of_mem_settle hv
  · exact Hazard.not_conflicts_of_isStable hazard (h.stable v hv)

/-- What is clear for two hazards is clear for the second. -/
lemma Rebuild.IsClear.right {a b : Hazard} (h : r.IsClear (a.and b)) (hb : b.assigns = none) :
    r.IsClear b := by
  intro v hv
  have hno := h v hv
  rw [Hazard.conflicts_and (.inr hb), Bool.or_eq_false_iff] at hno
  exact hno.2

lemma operands_labelOf (hc : r.constructs[depth]? = some c') :
    (r.labelOf depth c).2.operands = r.operands := by
  rw [Rebuild.operands, scope_labelOf, outside_labelOf hc, Rebuild.operands]

lemma operands_resultTemp (t : ValueType) (hc : r.constructs[depth]? = some c') :
    (r.resultTemp depth c t).2.operands = r.operands := by
  rw [Rebuild.operands, scope_resultTemp, outside_resultTemp t hc, Rebuild.operands]

/-- A statement is written where no operand is in the way of a hazard that covers it. -/
lemma Active.write_clear (h : Active T r w) {hz : Hazard} (hclear : r.IsClear hz)
    {s : Stmt} (hs : s.flatten = [.run s]) (hcovers : hz.Covers (.run s)) :
    Active T (r.emit s) (w.write s) :=
  h.write hs fun _ => Entry.isSafe_of_covers (fun v hv => hclear v (mem_reverse.mp hv)) hcovers

/-- A statement is written behind the operands that are settled for it. -/
lemma Active.settle_write (h : Active T r w) (hz : Hazard) {s : Stmt}
    (hs : s.flatten = [.run s]) (hcovers : hz.Covers (.run s)) :
    ∃ w1, w.settle hz = .ok w1 ∧ Active T ((r.settle hz).emit s) (w1.write s) := by
  obtain ⟨w1, hw1, h1⟩ := h.settle hz
  exact ⟨w1, hw1, h1.write_clear (h.isClear_settle hz) hs hcovers⟩

end WasmToC

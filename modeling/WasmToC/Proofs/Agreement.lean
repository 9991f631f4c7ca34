import WasmToC.Proofs.Targets
import WasmToC.Proofs.Validation

/-!
# Validation and reconstruction side by side

Reconstruction and validation go through code side by side. Where the next instruction can be
reached, the types of the operands that wait and the open constructs are exactly the operands and
frames of validation. Where it cannot, validation still follows operands that reconstruction skips:
then only the frames have to agree, those apart that were opened since.

A construct that is left by a branch only, and has a result, needs a temporary for it. It has one,
as every branch to the construct stores a value for it.

## Main definitions

* `Rebuild.outline`, `Rebuild.frames` — the frames of a state, without and with the
  operands of the innermost one.
* `Rebuild.Agrees` — validation and reconstruction stand at the same place.
* `Rebuild.Matches` — agreement, with what has to be known about the open constructs.

## Main results

* `Rebuild.grants_leave`, `Rebuild.grants_branch`, `Rebuild.grants_branchIf` —
  valid branches are translated.
* `Rebuild.grants_close`, `Rebuild.grants_switchArm` — so are valid ends of
  constructs and arms.
-/

namespace WasmToC

open List Validation
open Validation (Frame FrameKind)

namespace Rebuild

variable {t : ValueType} {d : Nat} {f : Frame} {types : List ValueType} {nested : Nat}
  {rest : List Frame}

/-! ## The frames of a state -/

/-- The frame that a kind of construct has. -/
def frameKind : ConstructKind → FrameKind
  | .block => .block
  | .loop => .loop
  | .ifArm _ => .ifArm
  | .elseArm .. => .elseArm

/-- The types of operands. -/
def typesOf (values : List Pending) : List (Option ValueType) := values.map fun v => some v.type

/-- The innermost frame, without its operands. -/
def topFrame (res : Option ValueType) : List Construct → Frame
  | [] => { kind := .body, result := res }
  | c :: _ => { kind := frameKind c.kind, result := c.result }

/-- The frames around the innermost one, with their operands. -/
def outerFrames (res : Option ValueType) : List Construct → List Frame
  | [] => []
  | c :: outer =>
    { topFrame res outer with operands := typesOf c.enclosing.values } :: outerFrames res outer

/-- The frames of open constructs, without the operands of the innermost one. -/
def outlineOf (res : Option ValueType) (cs : List Construct) : List Frame :=
  topFrame res cs :: outerFrames res cs

/-- The frames of a state, without the operands of the innermost one. -/
def outline (res : Option ValueType) (r : Rebuild) : List Frame := outlineOf res r.constructs

/-- The frames of a state. -/
def frames (res : Option ValueType) (r : Rebuild) : List Frame :=
  { topFrame res r.constructs with operands := typesOf r.scope.values } ::
    outerFrames res r.constructs

variable {res : Option ValueType} {r r1 : Rebuild} {site : Site} {env : Surroundings}
  {fs fs' : List Frame}

lemma skeleton_frames : skeleton (r.frames res) = r.outline res := by
  unfold frames skeleton outline outlineOf
  cases r.constructs <;> rfl

/-- Only the types of operands matter. -/
lemma frames_congr (hvs : typesOf r1.scope.values = typesOf r.scope.values)
    (hcs : r1.outline res = r.outline res) : r1.frames res = r.frames res := by
  unfold outline outlineOf at hcs
  rw [List.cons.injEq] at hcs
  unfold frames
  rw [hvs, hcs.1, hcs.2]

/-- Labels and temporaries do not matter. -/
lemma outlineOf_modify {cs : List Construct} {f : Construct → Construct}
    (hf : ∀ c, (f c).kind = c.kind ∧ (f c).result = c.result ∧ (f c).enclosing = c.enclosing)
    (d : Nat) : outlineOf res (cs.modify d f) = outlineOf res cs := by
  induction cs generalizing d with
  | nil => simp
  | cons c cs ih =>
    obtain ⟨hkind, hres, henclosing⟩ := hf c
    cases d with
    | zero => simp [outlineOf, topFrame, outerFrames, hkind, hres, henclosing]
    | succ d =>
      have hrest := ih d
      simp only [outlineOf, List.cons.injEq] at hrest
      rw [modify_succ_cons]
      simp only [outlineOf, outerFrames, hrest]
      rfl

/-- Evaluating operands keeps their types. -/
lemma types_evaluateMarked (marks : List (Pending × Bool)) (r : Rebuild) :
    typesOf (evaluateMarked marks r).1 = typesOf (marks.map Prod.fst) := by
  induction marks with
  | nil => rfl
  | cons m vs ih =>
    rw [evaluateMarked_cons]
    split
    · exact congrArg (some m.1.type :: ·) ih
    · exact congrArg (some m.1.type :: ·) ih

variable (res)

@[simp] lemma frames_spill (marked : Nat → Pending → Bool) (h : Hazard) :
    (r.spill marked h).frames res = r.frames res := by
  refine frames_congr ?_ (by rw [outline, spill_constructs, outline])
  rw [spill_eq, withValues_values, types_evaluateMarked, map_fst_marksOf]

@[simp] lemma frames_settle (h : Hazard) : (r.settle h).frames res = r.frames res :=
  frames_spill res _ h

@[simp] lemma frames_sequence (n : Nat) : (r.sequence n).frames res = r.frames res := by
  rcases sequence_eq r n with h | ⟨marked, h⟩ <;> rw [h]
  exact frames_spill res _ _

@[simp] lemma frames_emit (s : C.Stmt) : (r.emit s).frames res = r.frames res := rfl

@[simp] lemma frames_discard (v : Pending) : (r.discard v).frames res = r.frames res := by
  unfold discard
  split
  · rw [frames_emit, frames_settle]
  · rfl

@[simp] lemma frames_trapIndirect (operands : List Pending) :
    (trapIndirect operands r).frames res = r.frames res :=
  trapIndirect_keeps (P := fun r1 => r1.frames res = r.frames res) rfl (fun _ _ _ h => h)
    fun _ h => h

@[simp] lemma outline_kill : r.kill.outline res = r.outline res := rfl

@[simp] lemma outline_emit (s : C.Stmt) : (r.emit s).outline res = r.outline res := rfl

@[simp] lemma outline_settle (h : Hazard) : (r.settle h).outline res = r.outline res := by
  rw [outline, settle_constructs, outline]

@[simp] lemma outline_labelOf (d : Nat) (c : Construct) :
    (r.labelOf d c).2.outline res = r.outline res := by
  cases h : c.label with
  | some label => rw [labelOf_some h]
  | none =>
    rw [labelOf_none h]
    exact outlineOf_modify (by intro _; exact ⟨rfl, rfl, rfl⟩) d

@[simp] lemma outline_resultTemp (d : Nat) (c : Construct) (t : ValueType) :
    (r.resultTemp d c t).2.outline res = r.outline res := by
  cases h : c.temp with
  | some temp => rw [resultTemp_some t h]
  | none =>
    rw [resultTemp_none t h]
    exact outlineOf_modify (by intro _; exact ⟨rfl, rfl, rfl⟩) d

@[simp] lemma frames_labelOf (d : Nat) (c : Construct) :
    (r.labelOf d c).2.frames res = r.frames res := by
  refine frames_congr ?_ (outline_labelOf res d c)
  rw [scope_labelOf]

@[simp] lemma frames_resultTemp (d : Nat) (c : Construct) (t : ValueType) :
    (r.resultTemp d c t).2.frames res = r.frames res := by
  refine frames_congr ?_ (outline_resultTemp res d c t)
  rw [scope_resultTemp]

@[simp] lemma frames_push (v : Pending) :
    (r.push v).frames res = Validation.push (some v.type) (r.frames res) := rfl

variable {res}

/-! ## Operands -/

lemma popTyped_ok (site : Site) {v : Pending} {vs : List Pending}
    (hvs : r.scope.values = v :: vs) (htype : v.type = t) :
    r.popTyped site t = .ok (v, r.withValues vs) :=
  popTyped_eq_ok.mpr ⟨vs, hvs, htype, rfl⟩

lemma length_values_sequence (r : Rebuild) (n : Nat) :
    (r.sequence n).scope.values.length = r.scope.values.length := by
  rcases sequence_eq r n with h | ⟨marked, h⟩ <;> rw [h]
  exact length_values_spill

/-- An operand that validation takes is there. -/
lemma exists_of_pop {t : Option ValueType} (h : Validation.pop (r.frames res) = some (t, fs)) :
    ∃ v vs, (∀ site, r.pop site = .ok (v, r.withValues vs)) ∧
      r.scope.values = v :: vs ∧ t = some v.type ∧ fs = (r.withValues vs).frames res := by
  cases hvs : r.scope.values with
  | nil =>
    have hr : (topFrame res r.constructs).unreachable = false := by
      cases r.constructs <;> rfl
    simp [Validation.pop, frames, hvs, typesOf, hr] at h
  | cons v vs =>
    simp only [Validation.pop, frames, hvs, typesOf, map_cons, Option.some.injEq,
      Prod.mk.injEq] at h
    exact ⟨v, vs, fun _ => pop_eq_ok.mpr ⟨vs, hvs, rfl⟩, rfl, h.1.symm, h.2.symm⟩

/-- So is one of a given type. -/
lemma exists_of_popTyped (h : Validation.popTyped t (r.frames res) = some fs) :
    ∃ v vs, (∀ site, r.popTyped site t = .ok (v, r.withValues vs)) ∧
      r.scope.values = v :: vs ∧ v.type = t ∧ fs = (r.withValues vs).frames res := by
  simp only [Validation.popTyped, bind_eq_some, Prod.exists] at h
  obtain ⟨found, rest, hpop, h⟩ := h
  obtain ⟨v, vs, -, hvs, rfl, rfl⟩ := exists_of_pop hpop
  split at h
  · rename_i htype
    cases h
    have htype : v.type = t := by simpa using htype
    exact ⟨v, vs, fun site => popTyped_ok site hvs htype, hvs, htype, rfl⟩
  · cases h

lemma popResult_some : popResult (some t) fs = Validation.popTyped t fs := by
  simp [popResult, Validation.popEach]

/-- So are several of given types. -/
lemma exists_of_popEach (site : Site) (taken : List Pending)
    (h : Validation.popEach types (r.frames res) = some fs) :
    ∃ args r1, popEach site types taken r = .ok (args, r1) ∧ fs = r1.frames res := by
  induction types generalizing r taken with
  | nil =>
    cases h
    exact ⟨taken, r, rfl, rfl⟩
  | cons t types ih =>
    simp only [Validation.popEach, bind_eq_some] at h
    obtain ⟨rest, hpop, h⟩ := h
    obtain ⟨v, vs, hv, -, -, rfl⟩ := exists_of_popTyped hpop
    obtain ⟨args, r1, hargs, hfs⟩ := ih (v :: taken) h
    exact ⟨args, r1, bind_eq_ok.mpr ⟨(v, _), hv site, hargs⟩, hfs⟩

/-- The frame at a depth is that of the construct, or of the function body. -/
lemma target_of_frame (site : Site) (h : (r.frames res)[d]? = some f) :
    (∃ c, r.target site d = .ok (some c) ∧ f.labelType = carriedType c) ∨
      (r.target site d = .ok none ∧ f.labelType = res) := by
  have hgo : ∀ (d : Nat) (cs : List Construct) (ops : List (Option ValueType)),
      ({ topFrame res cs with operands := ops } :: outerFrames res cs)[d]? = some f →
        (∃ c, cs[d]? = some c ∧ f.kind = frameKind c.kind ∧ f.result = c.result) ∨
          (d = cs.length ∧ f.kind = .body ∧ f.result = res) := by
    intro d
    induction d with
    | zero =>
      intro cs ops h
      cases h
      cases cs with
      | nil => exact .inr ⟨rfl, rfl, rfl⟩
      | cons c cs => exact .inl ⟨c, rfl, rfl, rfl⟩
    | succ d ih =>
      intro cs ops h
      rw [getElem?_cons_succ] at h
      cases cs with
      | nil => simp [outerFrames] at h
      | cons c cs =>
        rcases ih cs _ h with ⟨c', hc', hframe⟩ | ⟨rfl, hframe⟩
        · exact .inl ⟨c', by simpa using hc', hframe⟩
        · exact .inr ⟨rfl, hframe⟩
  rcases hgo d r.constructs _ h with ⟨c, hc, hkind, hres⟩ | ⟨hd, hkind, hres⟩
  · refine .inl ⟨c, target_eq_ok.mpr (.inl ⟨c, hc, rfl⟩), ?_⟩
    unfold Frame.labelType carriedType
    rw [hkind, hres]
    cases c.kind <;> rfl
  · refine .inr ⟨target_eq_ok.mpr (.inr ⟨hd, rfl⟩), ?_⟩
    unfold Frame.labelType
    rw [hkind, hres]
    rfl

/-! ## Agreement -/

/-- Validation and reconstruction stand at the same place. Where the next instruction cannot be
reached, validation has opened `nested` more frames, and the operands of the innermost construct may
be any. -/
def Agrees (env : Surroundings) (fs : List Frame) (r : Rebuild) : Prop :=
  match r.reach with
  | .live => fs = r.frames env.type.result
  | .dead nested => skeleton (fs.drop nested) = r.outline env.type.result

lemma agrees_live (hl : r.reach = .live) (h : fs = r.frames env.type.result) : Agrees env fs r := by
  unfold Agrees
  rwa [hl]

lemma agrees_dead (hd : r.reach = .dead nested)
    (h : skeleton (fs.drop nested) = r.outline env.type.result) :
    Agrees env fs r := by
  unfold Agrees
  rwa [hd]

lemma Agrees.live (h : Agrees env fs r) (hl : r.reach = .live) : fs = r.frames env.type.result := by
  unfold Agrees at h
  rwa [hl] at h

lemma Agrees.dead (h : Agrees env fs r) (hd : r.reach = .dead nested) :
    skeleton (fs.drop nested) = r.outline env.type.result := by
  unfold Agrees at h
  rwa [hd] at h

/-- Where no construct is open that cannot be reached, there are the same frames. -/
lemma Agrees.skeleton (h : Agrees env fs r) (hflat : r.Flat) :
    skeleton fs = r.outline env.type.result := by
  rcases hflat with hl | hd
  · rw [h.live hl, skeleton_frames]
  · exact h.dead hd

lemma agrees_push (hl : r.reach = .live) (v : Pending) (h : fs = r.frames env.type.result) :
    Agrees env (Validation.push (some v.type) fs) (r.push v) :=
  agrees_live hl (by rw [h, frames_push])

/-- Behind a branch both give up the operands that wait. -/
lemma agrees_kill (h : skeleton fs = r.outline env.type.result) : Agrees env (cutOff fs) r.kill :=
  agrees_dead (show r.kill.reach = .dead 0 from rfl) (by rwa [drop_zero, skeleton_cutOff])

/-! ## Going on

Validation and reconstruction of an instruction are followed side by side, from one operand or
immediate to the next. -/

/-- Where validation has a result, reconstruction has one that agrees with it. -/
def Grants (env : Surroundings) (x : Option (List Frame)) (y : Except Failure Rebuild) : Prop :=
  ∀ fs, x = some fs → ∃ r1, y = .ok r1 ∧ Agrees env fs r1

namespace Grants

variable {α : Type} {fault : BodyFault}

lemma ok (h : Agrees env fs r) : Grants env (some fs) (.ok r) := by
  rintro _ ⟨⟩
  exact ⟨r, rfl, h⟩

lemma refused {y : Except Failure Rebuild} : Grants env none y := by rintro _ ⟨⟩

lemma need {part : Option α} {f : α → Option (List Frame)} {g : α → Except Failure Rebuild}
    (h : ∀ a, Grants env (f a) (g a)) :
    Grants env (part >>= f) (site.need part fault >>= g) := by
  cases part with
  | none => exact refused
  | some a => exact h a

lemma pop {f : Option ValueType × List Frame → Option (List Frame)}
    {g : Pending × Rebuild → Except Failure Rebuild}
    (h : ∀ v vs, r.scope.values = v :: vs →
      Grants env (f (some v.type, (r.withValues vs).frames res)) (g (v, r.withValues vs))) :
    Grants env (Validation.pop (r.frames res) >>= f) (r.pop site >>= g) := by
  intro fs hfs
  obtain ⟨⟨t, rest⟩, hpop, hfs⟩ := bind_eq_some.mp hfs
  obtain ⟨v, vs, hv, hvs, rfl, rfl⟩ := exists_of_pop hpop
  rw [hv]
  exact h v vs hvs fs hfs

lemma popTyped {f : List Frame → Option (List Frame)}
    {g : Pending × Rebuild → Except Failure Rebuild}
    (h : ∀ v vs, r.scope.values = v :: vs →
      Grants env (f ((r.withValues vs).frames res)) (g (v, r.withValues vs))) :
    Grants env (Validation.popTyped t (r.frames res) >>= f) (r.popTyped site t >>= g) := by
  intro fs hfs
  obtain ⟨rest, hpop, hfs⟩ := bind_eq_some.mp hfs
  obtain ⟨v, vs, hv, hvs, -, rfl⟩ := exists_of_popTyped hpop
  rw [hv]
  exact h v vs hvs fs hfs

lemma popTyped_last {g : Pending × Rebuild → Except Failure Rebuild}
    (h : ∀ v vs, r.scope.values = v :: vs →
      Grants env (some ((r.withValues vs).frames res)) (g (v, r.withValues vs))) :
    Grants env (Validation.popTyped t (r.frames res)) (r.popTyped site t >>= g) := by
  rw [← bind_pure (Validation.popTyped t _)]
  exact popTyped h

lemma popEach {f : List Frame → Option (List Frame)}
    {g : List Pending × Rebuild → Except Failure Rebuild}
    (h : ∀ args vs, Grants env (f ((r.withValues vs).frames res)) (g (args, r.withValues vs))) :
    Grants env (Validation.popEach types.reverse (r.frames res) >>= f)
      (r.popArgs site types >>= g) := by
  intro fs hfs
  obtain ⟨rest, hpop, hfs⟩ := bind_eq_some.mp hfs
  obtain ⟨args, r1, hargs, rfl⟩ := exists_of_popEach site [] hpop
  obtain ⟨vs, -, -, rfl⟩ := popArgs_eq_ok hargs
  rw [popArgs, hargs]
  exact h args vs fs hfs

/-- The operands that an instruction requires, put in sequence, are there. -/
lemma popArgs {f : List Frame → Option (List Frame)} {order : List ValueType} {n : Nat}
    {g : List Pending × Rebuild → Except Failure Rebuild} (hn : types.length = n)
    (horder : types.reverse = order) (h : ∀ args r1, args.length = n → r1.reach = r.reach →
      Grants env (f (r1.frames res)) (g (args, r1))) :
    Grants env (Validation.popEach order (r.frames res) >>= f)
      (r.require site n >>= fun _ => (r.sequence n).popArgs site types >>= g) := by
  subst hn horder
  rw [← frames_sequence res types.length]
  intro fs hfs
  obtain ⟨rest, hpop, hfs⟩ := bind_eq_some.mp hfs
  obtain ⟨args, r1, hargs, rfl⟩ := exists_of_popEach site [] hpop
  obtain ⟨vs, hvs, htypes, rfl⟩ := popArgs_eq_ok hargs
  have hlen : args.length = types.length := by simp [← htypes]
  have hrequire : r.require site types.length = .ok () := by
    rw [require_eq_ok, ← length_values_sequence r types.length, hvs, length_append, length_reverse]
    omega
  simp only [hrequire, Rebuild.popArgs, hargs, Except.bind, bind]
  refine h args _ hlen ?_ fs hfs
  exact reach_sequence _

lemma peekTyped {g : Pending → Except Failure Rebuild}
    (h : ∀ v, Grants env (some (r.frames res)) (g v)) :
    Grants env (popResult (some t) (r.frames res) >>= fun fs => pure (pushResult (some t) fs))
      (r.peekTyped site t >>= g) := by
  intro fs hfs
  simp only [bind_eq_some, pure_eq_some, popResult_some] at hfs
  obtain ⟨rest, hpop, rfl⟩ := hfs
  obtain ⟨v, vs, -, hvs, htype, rfl⟩ := exists_of_popTyped hpop
  rw [peekTyped_eq_ok.mpr ⟨vs, hvs, htype⟩]
  refine h v _ ?_
  simp [pushResult, Validation.push, frames, hvs, typesOf, htype, withValues]

lemma popFrame {f : Frame × List Frame → Option (List Frame)} {y : Except Failure Rebuild}
    (h : ∀ k outer, popFrame fs = some (k, outer) → Grants env (f (k, outer)) y) :
    Grants env (popFrame fs >>= f) y := by
  intro fs' hfs'
  obtain ⟨⟨k, outer⟩, hpop, hfs'⟩ := bind_eq_some.mp hfs'
  exact h k outer hpop fs' hfs'

/-- A branch leads to a construct or to the end of the body. -/
lemma target {f : Frame → Option (List Frame)} {g : Option Construct → Except Failure Rebuild}
    (hc : ∀ k c, k.labelType = carriedType c → Grants env (f k) (g (some c)))
    (hbody : ∀ k, k.labelType = res → Grants env (f k) (g none)) :
    Grants env ((r.frames res)[d]? >>= f) (r.target site d >>= g) := by
  intro fs hfs
  obtain ⟨k, hk, hfs⟩ := bind_eq_some.mp hfs
  rcases target_of_frame site hk with ⟨c, htarget, hlabel⟩ | ⟨htarget, hlabel⟩
  · rw [htarget]
    exact hc k c hlabel fs hfs
  · rw [htarget]
    exact hbody k hlabel fs hfs

end Grants

/-! ## Leaving -/

/-- A result that validation takes can be returned. -/
lemma grants_leave (op : Opcode) :
    Grants env (popResult env.type.result (r.frames env.type.result) >>= fun fs =>
      pure (cutOff fs)) (r.leave ⟨env, op⟩) := by
  unfold leave
  dsimp only
  cases hres : env.type.result with
  | none => exact .ok (agrees_kill (by simp [hres, skeleton_frames]))
  | some t =>
    rw [popResult_some]
    exact .popTyped fun v vs _ => .ok (agrees_kill (by simp [hres, skeleton_frames]))

/-- A branch that is valid is translated. -/
lemma grants_branch (op : Opcode) (d : Nat) :
    Grants env ((r.frames env.type.result)[d]? >>= fun f =>
      popResult f.labelType (r.frames env.type.result) >>= fun fs => pure (cutOff fs))
      (r.branch ⟨env, op⟩ d) := by
  refine .target (fun f c hlabel => ?_) fun f hlabel => ?_
  · dsimp only
    rw [hlabel]
    cases hcarried : carriedType c with
    | none => exact .ok (agrees_kill (by simp [skeleton_frames]))
    | some t =>
      rw [popResult_some]
      exact .popTyped fun v vs _ => .ok (agrees_kill (by simp [skeleton_frames]))
  · rw [hlabel]
    exact grants_leave op

/-- A conditional branch that is valid is translated. -/
lemma grants_branchIf (op : Opcode) (d : Nat) (hl : r.reach = .live) :
    Grants env (Validation.popTyped .i32 (r.frames env.type.result) >>= fun fs =>
      fs[d]? >>= fun f => popResult f.labelType fs >>= fun fs => pure (pushResult f.labelType fs))
      (r.branchIf ⟨env, op⟩ d) := by
  refine .popTyped fun cond vs _ => ?_
  have hlive2 : (r.leavingWith cond vs).reach = .live := (settle_reach _).trans hl
  have hframes : (r.withValues vs).frames env.type.result =
      (r.leavingWith cond vs).frames env.type.result := (frames_settle _ _).symm
  refine .target (fun f c hlabel => ?_) fun f hlabel => ?_
  · dsimp only
    rw [hlabel, hframes]
    cases hcarried : carriedType c with
    | none =>
      exact .ok (agrees_live ((reach_labelOf d c).trans hlive2) (by simp [pushResult, hframes]))
    | some t =>
      exact .peekTyped fun v => .ok (agrees_live ((reach_resultTemp d c t).trans
        ((reach_labelOf d c).trans hlive2)) (by simp [hframes]))
  · dsimp only
    rw [hlabel, hframes]
    cases hres : env.type.result with
    | none => exact .ok (agrees_live hlive2 (by rw [hres]; rfl))
    | some t => exact .peekTyped fun v => .ok (agrees_live hlive2 (by rw [hres]; rfl))

/-! ## Constructs -/

/-- Validation and reconstruction stand at the same place, and the open constructs have the
temporaries and the values that their ends need. -/
structure Matches (env : Surroundings) (fs : List Frame) (r : Rebuild) : Prop where
  /-- The same place. -/
  agrees : Agrees env fs r
  /-- Constructs with a label and a result have a temporary. -/
  labelled : r.Labelled
  /-- The state is in order. -/
  tidy : r.Tidy env

/-- What is left in the innermost frame at its end. -/
lemma values_of_popFrame {f : Frame} {outer : List Frame}
    (h : popFrame (r.frames res) = some (f, outer)) :
    match (topFrame res r.constructs).result with
    | none => r.scope.values = []
    | some t => ∃ v, r.scope.values = [v] ∧ v.type = t := by
  simp only [popFrame, frames, bind_eq_some] at h
  obtain ⟨rest, hpop, h⟩ := h
  split at h
  · rename_i hempty
    split
    · rename_i hres
      rw [hres] at hpop
      cases hpop
      simpa [typesOf] using hempty
    · rename_i t hres
      rw [hres, popResult_some] at hpop
      have hpopped : Validation.popTyped t (r.frames res) = some rest := by
        simp only [frames, hres]
        exact hpop
      obtain ⟨v, vs, -, hvs, htype, rfl⟩ := exists_of_popTyped hpopped
      refine ⟨v, ?_, htype⟩
      have hb : vs = [] := by simpa [frames, withValues, typesOf] using hempty
      rw [hvs, hb]
  · cases h

section Innermost

variable {c : Construct} {outer : List Construct} (hcs : r.constructs = c :: outer)
  {value : Option Pending} {r2 : Rebuild} {es : List C.Line}
include hcs

/-- A construct whose end is valid has the value that falls through. -/
lemma exists_fallThrough (site : Site) (hlive : r.reach = .live)
    (h : popFrame (r.frames res) = some (f, rest)) :
    ∃ value r1, r.fallThrough site c.result = .ok (value, r1) ∧ value.isSome = c.result.isSome := by
  have hvs := values_of_popFrame h
  rw [hcs] at hvs
  simp only [topFrame] at hvs
  simp only [fallThrough, hlive, Reach.isLive, if_true, takeResult]
  cases hres : c.result with
  | none =>
    rw [hres] at hvs
    exact ⟨none, r, by simp [hvs, pure, Except.pure], rfl⟩
  | some t =>
    rw [hres] at hvs
    obtain ⟨v, hvs, htype⟩ := hvs
    have hpop := popTyped_ok site hvs htype
    exact ⟨some v, r.withValues [], by simp [hvs, hpop, bind, Except.bind, pure, Except.pure],
      rfl⟩

/-- Something falls through at every end that is valid, and nothing where it cannot be reached. -/
lemma exists_fallThrough_of_flat (site : Site) (hflat : r.Flat) (h : Agrees env fs r)
    (hpop : popFrame fs = some (f, rest)) :
    ∃ value r1, r.fallThrough site c.result = .ok (value, r1) ∧
      (value.isSome = c.result.isSome ∨ r.reach = .dead 0) := by
  rcases hflat with hl | hdead
  · rw [h.live hl] at hpop
    obtain ⟨value, r1, hfall, hvalue⟩ := exists_fallThrough hcs site hl hpop
    exact ⟨value, r1, hfall, .inl hvalue⟩
  · exact ⟨none, r, by simp [fallThrough, hdead, Reach.isLive], .inr hdead⟩

/-- The end of a construct that has a result where it needs one. -/
lemma exists_close (hfall : r.fallThrough site c.result = .ok (value, r2))
    (hif : ConstructKind.isIf c.kind = true → c.result = none)
    (hvalue : c.result.isSome = true → value.isSome = true ∨
      (ConstructKind.isElse c.kind || c.temp.isSome) = true ∨
        reachesEnd c r.reach.isLive = false) : ∃ r1, r.close site = .ok r1 := by
  unfold close
  rw [hcs]
  simp only [hfall, bind, Except.bind]
  cases foldArms? c r2.scope.code value with
  | some folded => exact ⟨_, rfl⟩
  | none =>
    cases hres : c.result with
    | none => simp [carryResult, hres, pure, Except.pure]
    | some t =>
      have hkind : ConstructKind.isIf c.kind = false := by
        cases hkind : ConstructKind.isIf c.kind with
        | false => rfl
        | true => simp [hif hkind] at hres
      cases hcarried : ConstructKind.isElse c.kind || c.temp.isSome with
      | true =>
        simp only [carryResult, hres, hcarried, if_true, isIf_storeThenValue, hkind, Site.need,
          pure, Except.pure]
        split
        · cases ‹(false && _) = true›
        · split <;> exact ⟨_, rfl⟩
      | false =>
        simp only [carryResult, hres, hcarried, Bool.false_eq_true, if_false, hkind, pure,
          Except.pure]
        split
        · cases ‹(false && _) = true›
        · rcases hvalue (by simp [hres]) with hsome | hsome | hend
          · obtain ⟨v, rfl⟩ := Option.isSome_iff_exists.mp hsome
            split <;> exact ⟨_, rfl⟩
          · simp [hcarried] at hsome
          · rw [hend]
            exact ⟨_, rfl⟩

/-- Both agree behind the end of a construct. -/
lemma agrees_closes (htidy : r.Tidy env) (h : Closes r es r1) : Agrees env
      (pushResult c.result (outerFrames env.type.result (c :: outer))) r1 := by
  have hframes : ∀ (reachable : Bool) (c' : Construct) (r' : Rebuild), c'.enclosing = c.enclosing →
      (leaveConstruct c' outer reachable r').frames env.type.result =
        outerFrames env.type.result (c :: outer) := by
    intro reachable c' r' henclosing
    simp [leaveConstruct, frames, outerFrames, emit, henclosing]
  have hd : ∀ (c' : Construct) (r' : Rebuild), c'.enclosing = c.enclosing →
      Agrees env (pushResult c.result (outerFrames env.type.result (c :: outer)))
        (leaveConstruct c' outer false r') := by
    intro c' r' henclosing
    refine agrees_dead (show (leaveConstruct c' outer false r').reach = .dead 0 from rfl) ?_
    rw [drop_zero, skeleton_pushResult, ← hframes false c' r' henclosing, skeleton_frames]
  cases h.innermost hcs with
  | folded hk =>
    refine agrees_live rfl ?_
    rw [(htidy.kept (by simp [hcs]) hk).2]
    rfl
  | plain hres =>
    cases hend : reachesEnd c r.reach.isLive with
    | true =>
      refine agrees_live rfl ?_
      rw [hframes true c r rfl, hres]
      rfl
    | false => exact hd c r rfl
  | direct _ _ hres _ _ htyped =>
    refine agrees_live rfl ?_
    rw [frames_push, hframes true c r rfl, hres, ← htyped]
    rfl
  | unreached => exact hd c r rfl
  | store hk hr hres | carried hk hr hres =>
    refine agrees_live rfl ?_
    rw [frames_push, hframes true _ _ (by rfl), hres]
    rfl
  | carriedUnreached => exact hd _ _ (by rfl)

lemma agrees_switches (h : Switches r es r1) :
    Agrees env ({ kind := .elseArm, result := c.result } ::
      outerFrames env.type.result (c :: outer)) r1 := by
  obtain ⟨cond, -, h⟩ := h.innermost hcs
  cases h <;> exact agrees_live rfl rfl

/-- The change between two arms succeeds where what falls through does. -/
lemma exists_switchArm {cond : Pending} (hk : c.kind = .ifArm cond)
    (hfall : r.fallThrough site c.result = .ok (value, r2)) : ∃ r1, r.switchArm site = .ok r1 := by
  unfold switchArm
  rw [hcs]
  simp only [hk, hfall, bind, Except.bind]
  exact ⟨_, rfl⟩

end Innermost

/-- The construct whose frame is the innermost one. -/
lemma exists_construct {outer : List Frame}
    (h : skeleton (f :: outer) = r.outline res) (hk : f.kind ≠ .body) :
    ∃ c cs, r.constructs = c :: cs ∧ f.kind = frameKind c.kind ∧ f.result = c.result ∧
      outer = outerFrames res r.constructs := by
  unfold outline outlineOf skeleton at h
  rw [List.cons.injEq] at h
  obtain ⟨htop, houter⟩ := h
  cases hcs : r.constructs with
  | nil =>
    rw [hcs] at htop
    exact absurd (congrArg Frame.kind htop) hk
  | cons c cs =>
    rw [hcs] at htop houter
    exact ⟨c, cs, rfl, congrArg Frame.kind htop, congrArg Frame.result htop, houter⟩

lemma kind_ifArm {kind : ConstructKind} (h : frameKind kind = .ifArm) :
    ∃ cond, kind = .ifArm cond := by
  cases kind <;> simp [frameKind] at h
  exact ⟨_, rfl⟩

/-- Where the end of a construct cannot be reached, but is left by a branch, its result is in a
temporary. -/
lemma carried_of_reachesEnd {c : Construct} (hc : c.IsLabelled) (hres : c.result.isSome = true)
    (hif : ConstructKind.isIf c.kind = false) :
    (ConstructKind.isElse c.kind || c.temp.isSome) = true ∨ reachesEnd c false = false := by
  cases hkind : c.kind with
  | block =>
    cases hlabel : c.label.isSome with
    | true => exact .inl (by simp [hc (by simp [hkind]) hlabel hres])
    | false => exact .inr (by simp [reachesEnd, hkind, hlabel])
  | loop => exact .inr (by simp [reachesEnd, hkind])
  | ifArm => simp [hkind, ConstructKind.isIf] at hif
  | elseArm => exact .inl (by simp [ConstructKind.isElse])

/-- The end of a construct that is valid is translated. -/
lemma grants_close (op : Opcode) (hm : Matches env fs r) (hflat : r.Flat) :
    Grants env (popFrame fs >>= fun p =>
      if p.1.kind = .body ∨ p.1.kind = .ifArm ∧ p.1.result.isSome then none
      else pure (pushResult p.1.result p.2)) (r.close ⟨env, op⟩) := by
  refine .popFrame fun f outer hpop => ?_
  dsimp only
  split
  · exact .refused
  rename_i hkind
  rw [not_or] at hkind
  have hskeleton := hm.agrees.skeleton hflat
  rw [popFrame_eq_some hpop] at hskeleton
  obtain ⟨c, cs, hcs, hfkind, hfresult, rfl⟩ := exists_construct hskeleton hkind.1
  have hmem : c ∈ r.constructs := by simp [hcs]
  have hif : ConstructKind.isIf c.kind = true → c.result = none := by
    intro hif
    cases hres : c.result with
    | none => rfl
    | some t =>
      refine absurd ⟨?_, by simp [hfresult, hres]⟩ hkind.2
      cases hk : c.kind <;> simp_all [ConstructKind.isIf, frameKind]
  obtain ⟨value, r2, hfall, hvalue⟩ :=
    exists_fallThrough_of_flat hcs ⟨env, op⟩ hflat hm.agrees hpop
  obtain ⟨r1, hclose⟩ : ∃ r1, r.close ⟨env, op⟩ = .ok r1 := by
    refine exists_close hcs hfall hif fun hsome => hvalue.imp (·.trans hsome) fun hd => ?_
    rw [hd]
    refine carried_of_reachesEnd (hm.labelled c hmem) hsome ?_
    cases hk : ConstructKind.isIf c.kind with
    | false => rfl
    | true => simp [hif hk] at hsome
  obtain ⟨es, hcloses⟩ := closes_of_close hclose
  rw [hclose, hfresult, hcs]
  exact .ok (agrees_closes hcs hm.tidy hcloses)

/-- The change between two arms that is valid is translated. -/
lemma grants_switchArm (op : Opcode) (hm : Matches env fs r) (hflat : r.Flat) :
    Grants env (popFrame fs >>= fun p =>
      if p.1.kind = .ifArm then pure ({ kind := .elseArm, result := p.1.result } :: p.2) else none)
      (r.switchArm ⟨env, op⟩) := by
  refine .popFrame fun f outer hpop => ?_
  dsimp only
  split
  swap
  · exact .refused
  rename_i hk
  have hskeleton := hm.agrees.skeleton hflat
  rw [popFrame_eq_some hpop] at hskeleton
  obtain ⟨c, cs, hcs, hfkind, hfresult, rfl⟩ := exists_construct hskeleton (by simp [hk])
  obtain ⟨cond, hck⟩ := kind_ifArm (hfkind.symm.trans hk)
  obtain ⟨value, r2, hfall, -⟩ :=
    exists_fallThrough_of_flat hcs ⟨env, op⟩ hflat hm.agrees hpop
  obtain ⟨r1, hswitch⟩ := exists_switchArm hcs hck hfall
  obtain ⟨es, hs⟩ := switches_of_switchArm hswitch
  rw [hswitch, hfresult, hcs]
  exact .ok (agrees_switches hcs hs)

end Rebuild

end WasmToC

import WasmToC.Proofs.AnyOrder
import WasmToC.Proofs.Typing

/-!
# What holds of every state of reconstruction

The footprint of every pending expression covers what the expression reads and does, its operands
cannot observe each other, it has the type that is recorded with it, and the temporaries in it are
assigned no more. Operands that wait outside an open construct are stable, and what an open
construct remembers or carries has the type of its result.

## Main definitions

* `Pending.Sound` — a footprint that covers its expression.
* `Construct.Fine` — what holds of an open construct.
* `Rebuild.Tidy` — the invariant.

## Main results

* `Rebuild.Tidy.acts`, `Rebuild.Tidy.enters`, `Rebuild.Tidy.switches`,
  `Rebuild.Tidy.closes` — every instruction keeps it.
-/

namespace WasmToC

open List Pending
open C (Expr Stmt)

variable {cond : Pending} {c : Construct}

/-! ## Footprints of expressions -/

/-- Whether the expression itself, apart from its operands, reads a global. -/
def C.Expr.isGlobal : Expr → Bool
  | .global _ => true
  | _ => false

/-- Whether the expression itself, apart from its operands, reads the memory or its size. -/
def C.Expr.isMemory : Expr → Bool
  | .memorySize | .load _ _ _ => true
  | _ => false

/-- Globals and memory are read. -/
lemma C.Expr.isRead_eq (e : Expr) : e.isRead = (e.isGlobal || e.isMemory) := by
  cases e <;> rfl

/-- A footprint that says what the parts of an expression read and do, and nothing else. -/
structure Footprint.Of (f : Footprint) (parts : List Expr) : Prop where
  /-- No local is there twice. -/
  nodup : f.locals.Nodup
  /-- The locals are those that are read. -/
  locals : ∀ i, i ∈ f.locals ↔ .var i ∈ parts
  /-- Reads of globals are known. -/
  globals : f.readsGlobals = parts.any Expr.isGlobal
  /-- Reads of the memory are known. -/
  memory : f.readsMemory = parts.any Expr.isMemory
  /-- Effects are known. -/
  effects : f.effects = parts.any Expr.isEffect

namespace Footprint

variable {f g : Footprint} {e : Expr} {parts parts' : List Expr}

/-- Locals are added once. -/
lemma nodup_addLocals {known new : List Nat} (h : known.Nodup) : (addLocals known new).Nodup := by
  induction new generalizing known with
  | nil => exact h
  | cons i rest ih =>
    rw [addLocals]
    split
    · exact ih h
    · rename_i hi
      exact ih (nodup_append.mpr ⟨h, by simp, by grind⟩)

/-- No parts need nothing. -/
lemma of_nil : Footprint.none.Of [] := ⟨.nil, by simp [none], rfl, rfl, rfl⟩

/-- Parts together need what they need. -/
lemma Of.add (hf : f.Of parts) (hg : g.Of parts') : (f.add g).Of (parts ++ parts') where
  nodup := nodup_addLocals hf.nodup
  locals i := by rw [Footprint.add, mem_addLocals, hf.locals, hg.locals, mem_append]
  globals := by rw [Footprint.add, hf.globals, hg.globals, any_append]
  memory := by rw [Footprint.add, hf.memory, hg.memory, any_append]
  effects := by rw [Footprint.add, hf.effects, hg.effects, any_append]

/-! An expression reads and does what its operands do, and perhaps something itself. -/

/-- An expression that only computes needs what its operands need. -/
lemma Of.whole (h : f.Of (e.operands.flatMap Expr.parts)) (hread : e.isRead = false)
    (heffect : e.isEffect = false) (hvar : ∀ i, e ≠ .var i) : f.Of e.parts := by
  rw [Expr.isRead_eq, Bool.or_eq_false_iff] at hread
  rw [Expr.parts_eq]
  refine ⟨h.nodup, fun i => ?_, ?_, ?_, ?_⟩
  · rw [h.locals, mem_cons, or_iff_right (hvar i).symm]
  · rw [any_cons, hread.1, Bool.false_or, h.globals]
  · rw [any_cons, hread.2, Bool.false_or, h.memory]
  · rw [any_cons, heffect, Bool.false_or, h.effects]

/-- One with an effect needs that too. -/
lemma Of.withEffects (h : f.Of (e.operands.flatMap Expr.parts)) (heffect : e.isEffect = true) :
    f.withEffects.Of e.parts := by
  rw [Expr.parts_eq]
  cases e <;> simp only [Expr.isEffect, reduceCtorEq] at heffect <;>
    exact ⟨h.nodup, by simpa [Footprint.withEffects] using h.locals, h.globals, h.memory, rfl⟩

/-- One that reads memory needs that too. -/
lemma Of.readingMemory (h : f.Of (e.operands.flatMap Expr.parts)) (hmemory : e.isMemory = true) :
    f.readingMemory.Of e.parts := by
  rw [Expr.parts_eq]
  cases e <;> simp only [Expr.isMemory, reduceCtorEq] at hmemory <;>
    exact ⟨h.nodup, by simpa [Footprint.readingMemory] using h.locals, h.globals, rfl, h.effects⟩

end Footprint

namespace Pending

variable {v : Pending}

/-- A footprint that is exact, and an expression that has the same value in whatever order it is
evaluated. -/
structure Sound (v : Pending) : Prop where
  /-- Operands cannot observe each other. -/
  orderly : v.expr.Orderly
  /-- The footprint says what the expression reads and does. -/
  uses : v.uses.Of v.expr.parts

/-- Effects are known. -/
lemma Sound.effects (h : v.Sound) (he : v.expr.effects = true) : v.uses.effects = true :=
  h.uses.effects.trans he

/-- Dependence on the state is known. -/
lemma Sound.depends (h : v.Sound) (hd : v.expr.depends = true) : v.uses.dependsOnState = true := by
  rw [Expr.depends, Bool.or_eq_true, Expr.reads, any_eq_true] at hd
  rw [Footprint.dependsOnState, Footprint.readsState, Bool.or_eq_true, Bool.or_eq_true]
  refine hd.imp ?_ h.effects
  rintro ⟨part, hpart, hread⟩
  rw [Expr.isRead_eq, Bool.or_eq_true] at hread
  rw [h.uses.globals, h.uses.memory, any_eq_true, any_eq_true]
  exact hread.imp (⟨part, hpart, ·⟩) (⟨part, hpart, ·⟩)

/-- Locals that are read are known. -/
lemma Sound.locals (h : v.Sound) (i : Nat) (hi : .var i ∈ v.expr.parts) : i ∈ v.uses.locals :=
  (h.uses.locals i).mpr hi

/-- Without known effects there are none. -/
lemma Sound.not_effects (h : v.Sound) (hv : v.uses.effects = false) : v.expr.effects = false :=
  Bool.eq_false_iff.mpr fun he => by simp [h.effects he] at hv

/-- What does not depend on the state by its footprint does not depend on it. -/
lemma Sound.not_depends (h : v.Sound) (hv : v.uses.dependsOnState = false) :
    v.expr.depends = false :=
  Bool.eq_false_iff.mpr fun hd => by simp [h.depends hd] at hv

/-- The footprint of several operands is that of all their parts. -/
lemma of_operands (args : List Pending) (hargs : ∀ a ∈ args, a.Sound) :
    (Footprint.union (args.map uses)).Of ((args.map expr).flatMap Expr.parts) := by
  have hfoldl : ∀ parts f, f.Of parts → ((args.map uses).foldl Footprint.add f).Of
      (parts ++ (args.map expr).flatMap Expr.parts) := by
    induction args with
    | nil => simp
    | cons a args ih =>
      obtain ⟨ha, hr⟩ := forall_mem_cons.mp hargs
      intro parts f hf
      simpa using ih hr _ _ (hf.add ha.uses)
  exact hfoldl [] _ Footprint.of_nil

/-- Temporaries are sound. -/
lemma sound_temp (t : Nat) (type : ValueType) : (temp t type).Sound :=
  ⟨trivial, Footprint.of_nil.whole rfl rfl fun _ => Expr.noConfusion⟩

/-- Locals are sound. -/
lemma sound_var (i : Nat) (type : ValueType) : (var i type).Sound :=
  ⟨trivial, by simp [var, Footprint.var], by simp [var, Footprint.var, Expr.parts], rfl, rfl, rfl⟩

/-- Globals are sound. -/
lemma sound_global (i : Nat) (type : ValueType) : (global i type).Sound :=
  ⟨trivial, .nil, by simp [global, Footprint.global, Expr.parts], rfl, rfl, rfl⟩

/-- Constants are sound. -/
lemma sound_const (v : Value) : (const v).Sound :=
  ⟨trivial, Footprint.of_nil.whole rfl rfl fun _ => Expr.noConfusion⟩

/-- Zeros are sound. -/
lemma sound_zero (type : ValueType) : (zero type).Sound :=
  ⟨trivial, Footprint.of_nil.whole rfl rfl fun _ => Expr.noConfusion⟩

/-- The memory size is sound. -/
lemma sound_memorySize : memorySize.Sound :=
  ⟨trivial, Footprint.of_nil.readingMemory rfl⟩

/-- Growing memory is sound. -/
lemma sound_memoryGrow {delta : Pending} (h : delta.Sound) : (memoryGrow delta).Sound :=
  ⟨h.orderly, (of_operands [delta] (by simpa using h)).withEffects rfl⟩

/-- Loads are sound. -/
lemma sound_load (op : Load) {addr : Pending} (off : Nat) (h : addr.Sound) :
    (load op addr off).Sound :=
  ⟨h.orderly, (of_operands [addr] (by simpa using h)).readingMemory rfl⟩

/-- Choices are sound. -/
lemma sound_choose {yes no : Pending} (hc : cond.Sound) (hy : yes.Sound) (hn : no.Sound) :
    (choose cond yes no).Sound :=
  ⟨⟨hc.orderly, hy.orderly, hn.orderly⟩,
    (of_operands [cond, yes, no] (by simp [hc, hy, hn])).whole rfl rfl fun _ => Expr.noConfusion⟩

/-- Operands that are independent by their footprints are compatible. -/
lemma Sound.compatible {a b : Pending} (ha : a.Sound) (hb : b.Sound)
    (h : Rebuild.Independent a b) : a.expr.Compatible b.expr :=
  ⟨fun he => hb.not_depends (h.1 (ha.effects he)), fun he => ha.not_depends (h.2 (hb.effects he))⟩

/-- Operands that are independent in pairs are orderly together. -/
lemma allOrderly_map {args : List Pending} (hargs : ∀ a ∈ args, a.Sound)
    (hpair : args.Pairwise Rebuild.Independent) : Expr.AllOrderly (args.map expr) := by
  rw [Expr.allOrderly_iff]
  refine ⟨fun e he => ?_, ?_⟩
  · obtain ⟨a, ha, rfl⟩ := mem_map.mp he
    exact (hargs a ha).orderly
  · rw [pairwise_map]
    exact hpair.imp_of_mem fun ha hb h => (hargs _ ha).compatible (hargs _ hb) h

/-- Calls are sound if their arguments are independent. -/
lemma sound_call (f : Nat) {args : List Pending} (type : ValueType) (ha : ∀ a ∈ args, a.Sound)
    (hpair : args.Pairwise Rebuild.Independent) : (call f args type).Sound :=
  ⟨allOrderly_map ha hpair, (of_operands args ha).withEffects rfl⟩

/-- So are computations. -/
lemma sound_numeric (op : Numeric) {args : List Pending} (ha : ∀ a ∈ args, a.Sound)
    (hpair : args.Pairwise Rebuild.Independent) : (numeric op args).Sound :=
  ⟨allOrderly_map ha hpair, (of_operands args ha).whole rfl rfl fun _ => Expr.noConfusion⟩

end Pending

/-! ## The invariant -/

/-- The expressions that a kind of construct remembers. -/
def ConstructKind.pendings : ConstructKind → List Pending
  | .block | .loop => []
  | .ifArm cond => [cond]
  | .elseArm cond _ thenValue _ => cond :: thenValue.toList

/-- The expressions that wait outside a construct, and those that its kind remembers. -/
def Construct.pendings (c : Construct) : List Pending := c.enclosing.values ++ c.kind.pendings

/-- What a kind of construct remembers has the types that are needed, and an arm whose value is kept
has no statements. -/
def ConstructKind.Typed (result : Option ValueType) : ConstructKind → Prop
  | .block | .loop => True
  | .ifArm cond => cond.type = .i32
  | .elseArm cond thenCode thenValue _ =>
    cond.type = .i32 ∧ ∀ v ∈ thenValue, thenCode = #[] ∧ result = some v.type

/-- What holds of an open construct, given the types of the temporaries. -/
structure Construct.Fine (temps : List ValueType) (c : Construct) : Prop where
  /-- What waits outside is stable. -/
  stable : ∀ v ∈ c.enclosing.values, v.uses.isStable = true
  /-- A loop has a label from the start, and no result temporary. -/
  loop : c.kind = .loop → c.label.isSome = true ∧ c.temp = none
  /-- What it remembers is well typed. -/
  typed : c.kind.Typed c.result
  /-- A result temporary has the type of the result. -/
  temp : ∀ t, c.temp = some t → ∃ type, c.result = some type ∧ temps[t]? = some type

/-- Temporaries that are declared later do not matter. -/
lemma Construct.Fine.mono {temps temps' : List ValueType} (h : c.Fine temps)
    (hle : temps <+: temps') : c.Fine temps' := by
  refine ⟨h.stable, h.loop, h.typed, fun t ht => ?_⟩
  obtain ⟨type, hres, htype⟩ := h.temp t ht
  exact ⟨type, hres, Rebuild.getElem?_of_prefix hle htype⟩

namespace Rebuild

variable {α : Type} {d i : Nat} {c' : Construct} {cs : List Construct} {t temp : Nat}
  {type : ValueType} {f : α → α} {l : List α} {a : α} {β : Type}

/-- Every expression that is still pending, in all scopes. -/
def pendings (r : Rebuild) : List Pending :=
  r.scope.values ++ r.constructs.flatMap Construct.pendings

/-- The temporaries that open constructs put their results into. -/
def resultTemps (r : Rebuild) : List Nat := r.constructs.filterMap Construct.temp

/-- An expression that may be pending: its footprint covers it, it has its type, and its temporaries
exist and are assigned no more. -/
structure Admits (env : Surroundings) (r : Rebuild) (v : Pending) : Prop where
  /-- Its footprint covers it. -/
  sound : v.Sound
  /-- It has the type that is recorded with it. -/
  typed : v.expr.HasType env r.temps.toList v.type
  /-- Its temporaries exist and do not wait for the result of a construct. -/
  temps : ∀ t, .temp t ∈ v.expr.parts → t < r.temps.size ∧ t ∉ r.resultTemps

/-- What holds of every state. -/
structure Tidy (env : Surroundings) (r : Rebuild) : Prop where
  /-- Every expression that is pending may be. -/
  admits : ∀ v ∈ r.pendings, r.Admits env v
  /-- Every open construct is as it should be. -/
  constructs : ∀ c ∈ r.constructs, c.Fine r.temps.toList
  /-- No two constructs share a result temporary. -/
  nodup : r.resultTemps.Nodup

variable {env : Surroundings} {r r1 : Rebuild} {v : Pending} {es : List C.Line}

/-- The state before a body is tidy. -/
lemma tidy_empty : Tidy env {} := ⟨by simp [pendings], by simp, by simp [resultTemps]⟩

/-- An expression may be pending as long as none of its temporaries becomes a result temporary. -/
lemma Admits.mono (h : r.Admits env v) (hle : r.temps.toList <+: r1.temps.toList)
    (htemps : ∀ t < r.temps.size, t ∈ r1.resultTemps → t ∈ r.resultTemps) :
    r1.Admits env v := by
  refine ⟨h.sound, h.typed.mono hle, fun t ht => ?_⟩
  obtain ⟨hlt, hnot⟩ := h.temps t ht
  exact ⟨Nat.lt_of_lt_of_le hlt (by simpa using hle.length_le), fun hmem =>
    hnot (htemps t hlt hmem)⟩

/-- What is admitted does not depend on the operands. -/
lemma Admits.withValues (h : r.Admits env v) (values : List Pending) :
    (r.withValues values).Admits env v :=
  ⟨h.sound, h.typed, h.temps⟩

/-- A whole may be pending if its parts may. -/
lemma admits_of_operands (args : List Pending) (hsound : v.Sound)
    (htyped : v.expr.HasType env r.temps.toList v.type)
    (hops : v.expr.operands = args.map expr) (hne : ∀ t, v.expr ≠ .temp t)
    (hargs : ∀ a ∈ args, r.Admits env a) : r.Admits env v := by
  refine ⟨hsound, htyped, fun t ht => ?_⟩
  rw [Expr.parts_eq, hops] at ht
  simp only [mem_cons, mem_flatMap, mem_map] at ht
  obtain ht | ⟨_, ⟨a, ha, rfl⟩, ht⟩ := ht
  · exact absurd ht.symm (hne t)
  · exact (hargs a ha).temps t ht

/-- What has no operands may be pending, temporaries apart. -/
lemma admits_of_isOpen (hsound : v.Sound)
    (htyped : v.expr.HasType env r.temps.toList v.type) (hops : v.expr.operands = [])
    (hne : ∀ t, v.expr ≠ .temp t) : r.Admits env v :=
  admits_of_operands [] hsound htyped hops hne (by simp)

/-- A temporary may be pending if it is no result temporary. -/
lemma admits_temp (htype : r.temps.toList[t]? = some type) (hnot : t ∉ r.resultTemps) :
    r.Admits env (.temp t type) := by
  refine ⟨sound_temp t type, .temp htype, fun t' ht => ?_⟩
  simp only [temp, Expr.parts, mem_singleton, Expr.temp.injEq] at ht
  exact ht ▸ ⟨by simpa using (List.getElem?_eq_some_iff.mp htype).1, hnot⟩

/-- A choice may be pending if its parts may. -/
lemma Admits.choose {yes no : Pending} (hc : r.Admits env cond) (hy : r.Admits env yes)
    (hn : r.Admits env no) (htyped : cond.type = .i32) (hsame : no.type = yes.type) :
    r.Admits env (.choose cond yes no) :=
  admits_of_operands [cond, yes, no] (sound_choose hc.sound hy.sound hn.sound)
    (.choose (htyped ▸ hc.typed) hy.typed (hsame ▸ hn.typed)) rfl (by simp [Pending.choose])
    (by simp [hc, hy, hn])

section Operands

variable (h : r.Tidy env)
include h

/-- Result temporaries exist. -/
lemma Tidy.bounded (ht : t ∈ r.resultTemps) : t < r.temps.size := by
  obtain ⟨c, hc, ht⟩ := mem_filterMap.mp ht
  obtain ⟨type, -, htype⟩ := (h.constructs c hc).temp t ht
  simpa using (List.getElem?_eq_some_iff.mp htype).1

/-- Operands are admitted. -/
lemma Tidy.admits_value (hv : v ∈ r.scope.values) : r.Admits env v :=
  h.admits v (mem_append_left _ hv)

/-- So is what waits in a construct. -/
lemma Tidy.admits_construct (hc : c ∈ r.constructs) (hv : v ∈ c.pendings) : r.Admits env v :=
  h.admits v (mem_append_right _ (mem_flatMap.mpr ⟨c, hc, hv⟩))

/-- The invariant is kept where constructs stay as they are and new operands may be pending. -/
lemma Tidy.of_values (hcs : r1.constructs = r.constructs) (hle : r.temps.toList <+: r1.temps.toList)
    (hvs : ∀ v ∈ r1.scope.values, v ∈ r.scope.values ∨ r1.Admits env v) :
    r1.Tidy env := by
  have htemps : r1.resultTemps = r.resultTemps := by rw [resultTemps, hcs, resultTemps]
  have hmono {v : Pending} (hv : r.Admits env v) : r1.Admits env v :=
    hv.mono hle fun t _ ht => htemps ▸ ht
  refine ⟨fun v hv => ?_, fun c hc => (h.constructs c (hcs ▸ hc)).mono hle, htemps ▸ h.nodup⟩
  rcases mem_append.mp hv with hv | hv
  · rcases hvs v hv with hv | hv
    · exact hmono (h.admits_value hv)
    · exact hv
  · rw [hcs] at hv
    exact hmono (h.admits v (mem_append_right _ hv))

/-- An arm whose value is kept has no statements, and its value has the type of the result. -/
lemma Tidy.kept (hc : c ∈ r.constructs) {thenCode : Array Stmt} {thenLive : Bool}
    (hk : c.kind = .elseArm cond thenCode (some v) thenLive) :
    thenCode = #[] ∧ c.result = some v.type := by
  have htyped := (h.constructs c hc).typed
  rw [hk] at htyped
  exact htyped.2 v rfl

/-- Operands may be taken. -/
lemma Tidy.withValues {values : List Pending}
    (hsub : ∀ v ∈ values, v ∈ r.scope.values) : (r.withValues values).Tidy env :=
  h.of_values rfl prefix_rfl fun v hv => .inl (hsub v hv)

/-- An admitted operand may be pushed. -/
lemma Tidy.push (hv : r.Admits env v) : (r.push v).Tidy env :=
  h.of_values rfl prefix_rfl fun u hu => by
    rcases mem_cons.mp hu with rfl | hu
    · exact .inr ⟨hv.sound, hv.typed, hv.temps⟩
    · exact .inl hu

/-- A statement may be emitted. -/
lemma Tidy.emit (s : Stmt) : (r.emit s).Tidy env :=
  h.of_values rfl prefix_rfl fun _ hv => .inl hv

/-- Code may end. -/
lemma Tidy.kill : r.kill.Tidy env :=
  h.of_values rfl prefix_rfl fun _ hv => absurd hv not_mem_nil

/-- Spilling keeps the invariant. -/
lemma Tidy.spill (marked : Nat → Pending → Bool) (hz : Hazard) : (r.spill marked hz).Tidy env := by
  refine h.of_values (spill_constructs marked hz) temps_spill fun v hv => ?_
  rcases oldOrNew_of_mem_spill hv with hv | ⟨t, type, rfl, hle, htype⟩
  · exact .inl hv
  · refine .inr (admits_temp htype fun hmem => ?_)
    rw [resultTemps, spill_constructs] at hmem
    exact absurd (h.bounded hmem) (by omega)

/-- Operands may be settled. -/
lemma Tidy.settle (hz : Hazard) : (r.settle hz).Tidy env := h.spill _ hz

/-- Operands may be sequenced. -/
lemma Tidy.sequence (n : Nat) : (r.sequence n).Tidy env := by
  rcases sequence_eq r n with heq | ⟨marked, heq⟩
  · rw [heq]
    exact h
  · rw [heq]
    exact h.spill marked .none

end Operands

/-! ## Labels and result temporaries -/

/-- What is in a list with one element changed was there, or is the changed element. -/
lemma mem_modify {b : α} (hi : l[i]? = some a) (hb : b ∈ l.modify i f) : b ∈ l ∨ b = f a := by
  obtain ⟨j, hj⟩ := mem_iff_getElem?.mp hb
  rw [getElem?_modify] at hj
  split at hj
  · next hij =>
    subst hij
    simp only [hi, Option.map_eq_map, Option.map_some, Option.some.injEq] at hj
    exact .inr hj.symm
  · exact .inl (mem_of_getElem? (by simpa using hj))

/-- A change that keeps what is taken from an element keeps what is taken from the list. -/
lemma filterMap_modify {g : α → Option β} (hf : ∀ a, l[i]? = some a → g (f a) = g a) :
    (l.modify i f).filterMap g = l.filterMap g := by
  induction l generalizing i with
  | nil => simp
  | cons a l ih =>
    cases i with
    | zero => simp only [modify_zero_cons, filterMap_cons, hf a rfl]
    | succ i => simp only [modify_succ_cons, filterMap_cons, ih hf]

/-- An element from which nothing was taken before adds what is taken from it now. -/
lemma perm_filterMap_modify {g : α → Option β} {b : β} (hi : l[i]? = some a) (ha : g a = none)
    (hfa : g (f a) = some b) : ((l.modify i f).filterMap g).Perm (b :: l.filterMap g) := by
  induction l generalizing i with
  | nil => simp at hi
  | cons c l ih =>
    cases i with
    | zero =>
      cases hi
      simp only [modify_zero_cons, filterMap_cons, hfa, ha]
      exact .refl _
    | succ i =>
      have ih := ih (by simpa using hi)
      simp only [modify_succ_cons, filterMap_cons]
      cases g c with
      | none => exact ih
      | some d => exact (ih.cons d).trans (.swap b d _)

/-- A construct without a label gets the next one. -/
lemma labelOf_none (h : c.label = none) : r.labelOf d c = (r.labels + 1, { r with
        labels := r.labels + 1
        constructs := r.constructs.modify d fun c => { c with label := some (r.labels + 1) } })
    := by
  simp [labelOf, h, updateConstruct]

/-- A label is kept. -/
lemma labelOf_some {label : Nat} (h : c.label = some label) : r.labelOf d c = (label, r) := by
  simp [labelOf, h]

/-- Labels need no temporaries. -/
lemma temps_labelOf (r : Rebuild) (d : Nat) (c : Construct) :
    (r.labelOf d c).2.temps = r.temps := by
  unfold labelOf
  split <;> rfl

/-- Nor do jumps. -/
lemma temps_jumpTo (r : Rebuild) (d : Nat) (c : Construct) : (jumpTo d c r).temps = r.temps :=
  temps_labelOf r d c

/-- A construct without a temporary gets the next one. -/
lemma resultTemp_none (t : ValueType) (h : c.temp = none) : r.resultTemp d c t = (r.temps.size,
      { r with
        temps := r.temps.push t
        constructs := r.constructs.modify d fun c => { c with temp := some r.temps.size } })
    := by
  simp [resultTemp, h, newTemp, updateConstruct]

/-- A temporary is kept. -/
lemma resultTemp_some (t : ValueType) (h : c.temp = some temp) :
    r.resultTemp d c t = (temp, r) := by
  simp [resultTemp, h]

/-- The invariant is kept where constructs change their labels and result temporaries only, and new
result temporaries are new. -/
lemma Tidy.of_constructs (h : r.Tidy env) (hvs : r1.scope.values = r.scope.values)
    (hle : r.temps.toList <+: r1.temps.toList)
    (hcs : ∀ c1 ∈ r1.constructs, c1.Fine r1.temps.toList ∧ ∃ c ∈ r.constructs, c1.kind = c.kind ∧
      c1.enclosing = c.enclosing)
    (hnew : ∀ t ∈ r1.resultTemps, t ∈ r.resultTemps ∨ r.temps.size ≤ t)
    (hnodup : r1.resultTemps.Nodup) : r1.Tidy env := by
  have hmono {v : Pending} (hv : r.Admits env v) : r1.Admits env v := by
    refine hv.mono hle fun t hlt ht => (hnew t ht).resolve_right ?_
    omega
  refine ⟨fun v hv => ?_, fun c1 hc1 => (hcs c1 hc1).1, hnodup⟩
  rcases mem_append.mp hv with hv | hv
  · exact hmono (h.admits_value (hvs ▸ hv))
  · obtain ⟨c1, hc1, hv⟩ := mem_flatMap.mp hv
    obtain ⟨-, c, hc, hkind, henc⟩ := hcs c1 hc1
    rw [Construct.pendings, hkind, henc] at hv
    exact hmono (h.admits_construct hc hv)

/-- Giving a construct a label keeps the invariant. -/
lemma Tidy.labelOf (h : r.Tidy env) (hc : r.constructs[d]? = some c') :
    (r.labelOf d c).2.Tidy env := by
  cases hlabel : c.label with
  | some label => rwa [labelOf_some hlabel]
  | none =>
    rw [labelOf_none hlabel]
    have htemps : (r.constructs.modify d fun c =>
        { c with label := some (r.labels + 1) }).filterMap Construct.temp = r.resultTemps :=
      filterMap_modify fun _ _ => rfl
    refine h.of_constructs rfl prefix_rfl (fun c1 hc1 => ?_) (fun t ht => ?_) ?_
    · rcases mem_modify hc hc1 with hc1 | rfl
      · exact ⟨h.constructs c1 hc1, c1, hc1, rfl, rfl⟩
      · have hmem := mem_of_getElem? hc
        obtain ⟨hstable, hloop, htyped, htemp⟩ := h.constructs c' hmem
        exact ⟨⟨hstable, fun hk => ⟨rfl, (hloop hk).2⟩, htyped, htemp⟩, c', hmem, rfl, rfl⟩
    · exact .inl (htemps ▸ ht)
    · unfold resultTemps
      rw [htemps]
      exact h.nodup

/-- Giving a construct a result temporary keeps the invariant. -/
lemma Tidy.resultTemp (h : r.Tidy env) (t : ValueType) (hc : r.constructs[d]? = some c')
    (hc' : c'.temp = c.temp) (hkind : c'.kind ≠ .loop) (hres : c'.result = some t) :
    (r.resultTemp d c t).2.Tidy env := by
  cases htemp : c.temp with
  | some temp => rwa [resultTemp_some t htemp]
  | none =>
    rw [resultTemp_none t htemp]
    have hperm : ((r.constructs.modify d fun c =>
        { c with temp := some r.temps.size }).filterMap Construct.temp).Perm
          (r.temps.size :: r.resultTemps) :=
      perm_filterMap_modify hc (hc'.trans htemp) rfl
    have hle : r.temps.toList <+: (r.temps.push t).toList := by simp
    refine h.of_constructs rfl hle (fun c1 hc1 => ?_) (fun t' ht => ?_) ?_
    · rcases mem_modify hc hc1 with hc1 | rfl
      · exact ⟨(h.constructs c1 hc1).mono hle, c1, hc1, rfl, rfl⟩
      · have hmem := mem_of_getElem? hc
        obtain ⟨hstable, hloop, htyped, -⟩ := h.constructs c' hmem
        refine ⟨⟨hstable, fun hk => absurd hk hkind, htyped, fun _ ht => ⟨t, hres, ?_⟩⟩, c', hmem,
          rfl, rfl⟩
        simp [← Option.some.inj ht]
    · rcases mem_cons.mp (hperm.mem_iff.mp ht) with rfl | ht
      · exact .inr (Nat.le_refl _)
      · exact .inl ht
    · refine hperm.nodup_iff.mpr (nodup_cons.mpr ⟨fun hmem => ?_, h.nodup⟩)
      exact absurd (h.bounded hmem) (Nat.lt_irrefl _)

/-- The result temporary of a construct has the type of the result. -/
lemma Tidy.temps_resultTemp (h : r.Tidy env) {t : ValueType}
    (hc : r.constructs[d]? = some c') (hc' : c'.temp = c.temp) (hres : c'.result = some t) :
    (r.resultTemp d c t).2.temps.toList[(r.resultTemp d c t).1]? = some t := by
  cases htemp : c.temp with
  | none => simp [resultTemp_none t htemp]
  | some temp =>
    obtain ⟨type, hresult', htype⟩ :=
      (h.constructs c' (mem_of_getElem? hc)).temp temp (hc'.trans htemp)
    rw [resultTemp_some t htemp, htype, ← hresult', hres]

/-- A construct has the label that it got. -/
lemma getElem?_labelOf (hc : r.constructs[d]? = some c) : (r.labelOf d c).2.constructs[d]? =
      some { c with label := some (r.labelOf d c).1 } := by
  cases hlabel : c.label with
  | some label =>
    rw [labelOf_some hlabel, hc, ← hlabel]
  | none => simp [labelOf_none hlabel, hc]

/-- The construct that got a result temporary. -/
lemma getElem?_resultTemp (t : ValueType) (hc : r.constructs[d]? = some c')
    (hc' : c'.temp = c.temp) :
    (r.resultTemp d c t).2.constructs[d]? =
      some { c' with temp := some (r.resultTemp d c t).1 } := by
  cases htemp : c.temp with
  | some temp =>
    rw [resultTemp_some t htemp, hc, ← htemp, ← hc']
  | none => simp [resultTemp_none t htemp, hc]

/-! ## Every instruction keeps the invariant -/

/-- A construct that a value is carried to is no loop, and the value is its result. -/
lemma result_of_carriedType {t : ValueType} (h : carriedType c = some t) :
    c.kind ≠ .loop ∧ c.result = some t := by
  unfold carriedType at h
  split at h
  · cases h
  · exact ⟨‹_›, h⟩

/-- A value may be carried to a construct. -/
lemma Tidy.carryTo (h : r.Tidy env) (t : ValueType) (v : Pending)
    (hc : r.constructs[d]? = some c) (hk : c.kind ≠ .loop) (hres : c.result = some t) :
    (carryTo d c t v r).Tidy env :=
  (h.resultTemp t hc rfl hk hres).emit _

/-- A jump may be emitted. -/
lemma Tidy.jumpTo (h : r.Tidy env) (hc : r.constructs[d]? = some c') : (jumpTo d c r).Tidy env :=
  ((h.labelOf hc).emit _).kill

section Steps

variable (h : r.Tidy env) {vs : List Pending} {result : Option ValueType}
include h

/-- The last operand may be pending, and so may those below it. -/
lemma Tidy.uncons (hv : r.scope.values = v :: vs) :
    (r.withValues vs).Admits env v ∧ (r.withValues vs).Tidy env :=
  ⟨(h.admits_value (by simp [hv])).withValues vs, h.withValues fun u hu => by simp [hv, hu]⟩

/-- The function may be left. -/
lemma Tidy.leaves (hl : Leaves env r es r1) : r1.Tidy env := by
  cases hl with
  | value _ hvs => exact (((h.uncons hvs).2.settle _).emit _).kill
  | plain => exact ((h.settle _).emit _).kill

/-- A branch may be taken. -/
lemma Tidy.branches (hb : Branches env d r es r1) : r1.Tidy env := by
  cases hb with
  | leave _ hl => exact h.leaves hl
  | @value c t v vs hc ht hvs =>
    have hc' := getElem?_leavingWith v vs hc
    obtain ⟨hk, hres⟩ := result_of_carriedType ht
    have hcarried := ((h.uncons hvs).2.settle _).carryTo t v hc' hk hres
    exact hcarried.jumpTo (getElem?_resultTemp t hc' rfl)
  | @plain c =>
    have hc' : (r.settle .leaving).constructs[d]? = some c := by rwa [settle_constructs]
    exact (h.settle _).jumpTo hc'

/-- So may a conditional one. -/
lemma Tidy.branchesIf (hb : BranchesIf env d cond r es r1) : r1.Tidy env := by
  cases hb with
  | leaveWith | leave => exact h.emit _
  | @value c t v vs hc ht =>
    obtain ⟨hk, hres⟩ := result_of_carriedType ht
    have hlabel := h.labelOf (c := c) hc
    exact (hlabel.resultTemp t (getElem?_labelOf hc) rfl hk hres).emit _
  | plain hc => exact (h.labelOf hc).emit _

/-- An operand may be discarded. -/
lemma Tidy.discard (v : Pending) : (r.discard v).Tidy env := by
  unfold Rebuild.discard
  split
  · exact (h.settle _).emit _
  · exact h

/-- An indirect call may trap. -/
lemma Tidy.trapIndirect (operands : List Pending) : (trapIndirect operands r).Tidy env :=
  trapIndirect_keeps h (fun _ _ _ h => h.emit _) fun _ h => h.emit _

/-- Arguments that are taken may be pending, and cannot observe each other. -/
lemma Tidy.args {n : Nat} {args : List Pending}
    (hvs : (r.sequence n).scope.values = args.reverse ++ vs)
    (hn : args.length = n) (henough : n ≤ r.scope.values.length) :
    ((r.sequence n).withValues vs).Tidy env ∧
      (∀ a ∈ args, ((r.sequence n).withValues vs).Admits env a) ∧
      args.Pairwise Independent := by
  have hseq := h.sequence n
  refine ⟨hseq.withValues fun v hv => by simp [hvs, hv],
    fun a ha => (hseq.admits_value (by simp [hvs, ha])).withValues vs, ?_⟩
  have hpair := sequence_pairwise r henough
  rw [hvs, take_left' (by simp [hn]), pairwise_reverse] at hpair
  exact hpair.imp fun hab => ⟨hab.2, hab.1⟩

/-- **Every instruction that is not part of a construct keeps the invariant.** -/
theorem Tidy.acts {i : Instruction} (ha : Acts env i r es r1) : r1.Tidy env := by
  cases ha with
  | nop => exact h
  | unreachable => exact ((h.settle _).emit _).kill
  | br _ _ hb => exact h.branches hb
  | brIf _ _ hvs hb => exact ((h.uncons hvs).2.settle _).branchesIf hb
  | brTable _ _ hvs hb => exact ((h.uncons hvs).2.discard _).branches hb
  | returnOp _ hl => exact h.leaves hl
  | @call f t result args vs _ _ htype hres hvs hn henough hts =>
    obtain ⟨hbelow, hargs, hpair⟩ := h.args hvs hn henough
    obtain ⟨hlen, htyped⟩ := Expr.haveTypes_map hts fun a ha => (hargs a ha).typed
    refine hbelow.push (admits_of_operands args ?_ (.call htype hres hlen htyped) rfl
      (by simp [Pending.call]) hargs)
    exact sound_call f result (fun a ha => (hargs a ha).sound) hpair
  | callPlain _ _ _ _ hvs hn henough =>
    exact ((h.args hvs hn henough).1.settle _).emit _
  | @callIndirect typeIndex reserved result callee args vs _ _ hvs =>
    refine Tidy.push (((h.withValues fun v hv => ?_).settle _).trapIndirect _)
      (admits_of_isOpen (sound_zero result) (.zero result) rfl (by simp [zero]))
    simp [hvs, hv]
  | callIndirectPlain _ _ hvs =>
    refine ((h.withValues fun v hv => ?_).settle _).trapIndirect _
    simp [hvs, hv]
  | drop _ hvs => exact (h.uncons hvs).2.discard _
  | @select cond second first vs _ hvs htyped hsame =>
    have hs := h.spill (fun i _ => i = 1 || i = 2) .none
    have hc := hs.admits_value (v := cond) (by simp [hvs])
    have h2 := hs.admits_value (v := second) (by simp [hvs])
    have h1 := hs.admits_value (v := first) (by simp [hvs])
    exact Tidy.push (hs.withValues fun v hv => by simp [hvs, hv]) ((hc.withValues vs).choose
      (h1.withValues vs) (h2.withValues vs) htyped hsame)
  | getLocal _ _ htype =>
    exact h.push (admits_of_isOpen (sound_var _ _) (.var htype) rfl (by simp [var]))
  | setLocal _ _ _ hvs => exact ((h.uncons hvs).2.settle _).emit _
  | teeLocal _ _ htype hvs =>
    exact (((h.uncons hvs).2.settle _).emit _).push
      (admits_of_isOpen (sound_var _ _) (.var htype) rfl (by simp [var]))
  | getGlobal _ _ htype =>
    exact h.push (admits_of_isOpen (sound_global _ _) (.global htype) rfl (by simp [global]))
  | setGlobal _ _ _ hvs => exact ((h.uncons hvs).2.settle _).emit _
  | currentMemory =>
    exact h.push (admits_of_isOpen sound_memorySize .memorySize rfl (by simp [memorySize]))
  | @growMemory delta vs _ hvs htyped =>
    obtain ⟨hd, hbelow⟩ := h.uncons hvs
    exact hbelow.push (admits_of_operands [delta] (sound_memoryGrow hd.sound)
      (.memoryGrow (htyped ▸ hd.typed)) rfl (by simp [memoryGrow]) (by simpa using hd))
  | const =>
    exact h.push (admits_of_isOpen (sound_const _) (.const _) rfl (by simp [const]))
  | @load op off addr vs _ _ hvs htyped =>
    obtain ⟨ha, hbelow⟩ := h.uncons hvs
    exact hbelow.push (admits_of_operands [addr] (sound_load op off ha.sound)
      (.load op off (htyped ▸ ha.typed)) rfl (by simp [Pending.load]) (by simpa using ha))
  | store _ _ hvs =>
    refine (((h.sequence 2).withValues fun v hv => ?_).settle _).emit _
    simp [hvs, hv]
  | @numeric op args vs _ hvs hn henough hts =>
    obtain ⟨hbelow, hargs, hpair⟩ := h.args hvs hn henough
    have htyped : ∀ a ∈ args, a.type = op.shape.operand := fun a ha =>
      eq_of_mem_replicate (hts ▸ mem_map_of_mem ha)
    refine hbelow.push (admits_of_operands args ?_ (.numeric (by simpa using hn)
      (forall_mem_map.mpr fun a ha => htyped a ha ▸ (hargs a ha).typed)) rfl
      (by simp [Pending.numeric]) hargs)
    exact sound_numeric op (fun a ha => (hargs a ha).sound) hpair

/-! ## Constructs keep the invariant -/

/-- Opening a construct around stable operands keeps the invariant. -/
lemma Tidy.openConstruct {kind : ConstructKind} {label : Option Nat}
    (hstable : ∀ v ∈ r.scope.values, v.uses.isStable = true)
    (hkind : ∀ v ∈ kind.pendings, r.Admits env v) (hloop : kind = .loop → label.isSome = true)
    (htyped : kind.Typed result) : (r.openConstruct kind result label).Tidy env := by
  have htemps : (r.openConstruct kind result label).resultTemps = r.resultTemps := rfl
  have hmono {v : Pending} (hv : r.Admits env v) :
      (r.openConstruct kind result label).Admits env v :=
    hv.mono prefix_rfl fun t _ ht => htemps ▸ ht
  refine ⟨fun v hv => ?_, forall_mem_cons.mpr ⟨?_, h.constructs⟩, h.nodup⟩
  · simp only [pendings, Rebuild.openConstruct, nil_append, flatMap_cons,
      Construct.pendings, mem_append] at hv
    rcases hv with (hv | hv) | hv
    · exact hmono (h.admits_value hv)
    · exact hmono (hkind v hv)
    · exact hmono (h.admits v (mem_append_right _ hv))
  · exact ⟨hstable, fun hk => ⟨hloop hk, rfl⟩, htyped, fun t ht => by cases ht⟩

/-- All operands may be spilled. -/
lemma Tidy.spillAll : r.spillAll.Tidy env := h.spill _ _

/-- **The start of a construct keeps the invariant.** -/
theorem Tidy.enters {op : Opcode} (he : Enters r result op es r1) : r1.Tidy env := by
  cases he with
  | block =>
    exact h.spillAll.openConstruct (fun v => isStable_of_mem_spillAll)
      (by simp [ConstructKind.pendings]) (by simp) trivial
  | loop =>
    have hs : ({ r.spillAll with labels := r.spillAll.labels + 1 } : Rebuild).Tidy env :=
      h.spillAll.of_values rfl prefix_rfl fun _ hv => .inl hv
    exact hs.openConstruct (fun v => isStable_of_mem_spillAll)
      (by simp [ConstructKind.pendings]) (fun _ => rfl) trivial
  | @ifOp cond vs hvs htyped =>
    obtain ⟨hc, hb⟩ := h.uncons hvs
    refine hb.spillAll.openConstruct (fun v => isStable_of_mem_spillAll) ?_ (by simp) htyped
    intro v hv
    simp only [ConstructKind.pendings, mem_singleton] at hv
    subst hv
    refine hc.mono temps_spill fun t _ ht => ?_
    rwa [resultTemps, Rebuild.spillAll, spill_constructs] at ht

/-- Leaving the innermost scope keeps the invariant, and what may be pending inside may be pending
outside. -/
lemma Tidy.exitScope (hcs : r.constructs = c :: cs) (reach : Reach) :
    Tidy env { r with scope := c.enclosing, constructs := cs, reach } ∧ ∀ v, r.Admits env v →
        Admits env { r with scope := c.enclosing, constructs := cs, reach } v := by
  have hsub : (cs.filterMap Construct.temp).Sublist r.resultTemps := by
    rw [resultTemps, hcs]
    exact (sublist_cons_self c cs).filterMap _
  have hmono : ∀ v, r.Admits env v →
      Admits env { r with scope := c.enclosing, constructs := cs, reach } v :=
    fun v hv => hv.mono prefix_rfl fun t _ ht => hsub.mem ht
  have hmem : ∀ d ∈ cs, d ∈ r.constructs := fun d hd => hcs ▸ mem_cons_of_mem c hd
  refine ⟨⟨fun v hv => hmono v ?_, fun d hd => h.constructs d (hmem d hd), h.nodup.sublist hsub⟩,
    hmono⟩
  rcases mem_append.mp hv with hv | hv
  · exact h.admits_construct (c := c) (hcs ▸ mem_cons_self) (mem_append_left _ hv)
  · obtain ⟨d, hd, hv⟩ := mem_flatMap.mp hv
    exact h.admits_construct (hmem d hd) hv

/-- A construct may be left. -/
lemma Tidy.leaveConstruct (hcs : r.constructs = c :: cs) (henc : c'.enclosing = c.enclosing)
    (reachable : Bool) : (leaveConstruct c' cs reachable r).Tidy env := by
  unfold Rebuild.leaveConstruct
  rw [henc]
  exact (h.exitScope hcs _).1.emit _

end Steps

/-- The result temporary of the innermost construct. -/
lemma constructs_resultTemp (t : ValueType) (hcs : r.constructs = c :: cs) :
    (r.resultTemp 0 c t).2.constructs = { c with temp := some (r.resultTemp 0 c t).1 } :: cs := by
  cases htemp : c.temp with
  | some temp => rw [resultTemp_some t htemp, hcs, ← htemp]
  | none => simp [resultTemp_none t htemp, hcs]

/-- The result temporary of a construct may be pending once the construct is closed. -/
lemma Tidy.admits_result (h : r.Tidy env) (hcs : r.constructs = c :: cs)
    (htemp : c.temp = some temp) (hresult : c.result = some type) (c' : Construct)
    (reachable : Bool) :
    (Rebuild.leaveConstruct c' cs reachable r).Admits env (.temp temp type) := by
  have hres : r.resultTemps = temp :: cs.filterMap Construct.temp := by
    simp [resultTemps, hcs, htemp]
  obtain ⟨_, hresult', htype⟩ := (h.constructs c (hcs ▸ mem_cons_self)).temp temp htemp
  obtain rfl := Option.some.inj (hresult.symm.trans hresult')
  refine admits_temp htype ?_
  have hnodup := h.nodup
  rw [hres, nodup_cons] at hnodup
  exact hnodup.1

/-- Loops get no values. -/
lemma Tidy.kind_ne_loop (h : r.Tidy env) (hc : c ∈ r.constructs)
    (hcarried : ConstructKind.isElse c.kind ∨ c.temp.isSome) : c.kind ≠ .loop := by
  intro hk
  rcases hcarried with hc' | hc'
  · simp [hk, ConstructKind.isElse] at hc'
  · simp [((h.constructs c hc).loop hk).2] at hc'

/-- Changing between arms keeps the invariant. -/
lemma Tidy.toElse (h : r.Tidy env) {thenValue : Option Pending} {temp : Option Nat}
    (live : Bool) (hcs : r.constructs = c' :: cs) (hkind : c'.kind = .ifArm cond)
    (henc : c.enclosing = c'.enclosing) (hres : c.result = c'.result) (htemp : c'.temp = temp)
    (hthen : ∀ v ∈ thenValue, r.Admits env v)
    (hkept : ∀ v ∈ thenValue, r.scope.code = #[] ∧ c.result = some v.type) :
    (toElse c cs cond thenValue temp live r).Tidy env := by
  have htemps : (Rebuild.toElse c cs cond thenValue temp live r).resultTemps = r.resultTemps := by
    simp only [resultTemps, Rebuild.toElse, hcs, filterMap_cons, htemp]
  have hmono {v : Pending} (hv : r.Admits env v) :
      (Rebuild.toElse c cs cond thenValue temp live r).Admits env v :=
    hv.mono prefix_rfl fun t _ ht => htemps ▸ ht
  have hmem : c' ∈ r.constructs := hcs ▸ mem_cons_self
  have houter : ∀ d ∈ cs, d ∈ r.constructs := fun d hd => hcs ▸ mem_cons_of_mem c' hd
  obtain ⟨hstable, -, htyped, hold⟩ := h.constructs c' hmem
  refine ⟨fun v hv => ?_, forall_mem_cons.mpr
    ⟨?_, fun d hd => h.constructs d (houter d hd)⟩, htemps ▸ h.nodup⟩
  · simp only [pendings, Rebuild.toElse, nil_append, flatMap_cons, Construct.pendings,
      ConstructKind.pendings, mem_append, mem_cons, Option.mem_toList] at hv
    rcases hv with (hv | rfl | hv) | hv
    · exact hmono (h.admits_construct hmem (mem_append_left _ (henc ▸ hv)))
    · refine hmono (h.admits_construct hmem (mem_append_right _ ?_))
      simp [hkind, ConstructKind.pendings]
    · exact hmono (hthen v hv)
    · obtain ⟨d, hd, hv⟩ := mem_flatMap.mp hv
      exact hmono (h.admits_construct (houter d hd) hv)
  · rw [hkind] at htyped
    refine ⟨fun v hv => hstable v (henc ▸ hv), (fun hk => by cases hk), ⟨htyped, hkept⟩,
      fun t ht => ?_⟩
    obtain ⟨type, htype⟩ := hold t (htemp.trans ht)
    exact ⟨type, hres.trans htype.1, htype.2⟩

/-- **The change between arms keeps the invariant.** -/
theorem Tidy.switches (h : r.Tidy env) (hs : Switches r es r1) : r1.Tidy env := by
  obtain ⟨c, cs, cond, hcs, hkind, hs⟩ := hs
  cases hs with
  | keep _ hres hvs hcode htemp htyped =>
    refine h.toElse true hcs hkind rfl rfl htemp (fun v hv => ?_) fun v hv => ?_
    · rw [Option.mem_some] at hv
      exact h.admits_value (by simp [hvs, hv])
    · rw [Option.mem_some] at hv
      exact ⟨hcode, by rw [hres, ← htyped, hv]⟩
  | @store v t _ hres hvs =>
    have hc : (r.withValues []).constructs[0]? = some c := by
      simp [Rebuild.withValues, hcs]
    have hcarry := ((h.uncons hvs).2).carryTo t v hc (by simp [hkind]) hres
    exact hcarry.toElse true (constructs_resultTemp t hcs) hkind rfl rfl rfl (by simp) (by simp)
  | plain => exact h.toElse _ hcs hkind rfl rfl rfl (by simp) (by simp)

/-- **The end of a construct keeps the invariant.** -/
theorem Tidy.closes (h : r.Tidy env) (hc : Closes r es r1) : r1.Tidy env := by
  obtain ⟨c, cs, hcs, hin⟩ := hc
  have hmem : c ∈ r.constructs := hcs ▸ mem_cons_self
  have hc : r.constructs[0]? = some c := by simp [hcs]
  cases hin with
  | @folded cond thenValue v thenCode thenLive t hk _ hres hvs _ _ htyped =>
    obtain ⟨hexit, hadm⟩ := h.exitScope hcs .live
    have hkept (u : Pending) (hu : u ∈ c.kind.pendings) :=
      hadm u (h.admits_construct hmem (mem_append_right _ hu))
    rw [hk] at hkept
    have hv := hadm v (h.admits_value (by simp [hvs]))
    have hfine := (h.constructs c hmem).typed
    rw [hk] at hfine
    have hsame : v.type = thenValue.type := by
      rw [htyped, ← Option.some.injEq, ← hres, (h.kept hmem hk).2]
    exact hexit.push ((hkept cond (by simp [ConstructKind.pendings])).choose
      (hkept thenValue (by simp [ConstructKind.pendings])) hv hfine.1 hsame)
  | plain => exact h.leaveConstruct hcs rfl _
  | @direct v t _ _ _ hvs =>
    have hv := (h.exitScope hcs .live).2 v (h.admits_value (by simp [hvs]))
    exact (h.leaveConstruct hcs rfl true).push ⟨hv.sound, hv.typed, hv.temps⟩
  | unreached => exact h.leaveConstruct hcs rfl false
  | @store v t _ _ hres hvs hcarried =>
    have hne := h.kind_ne_loop hmem hcarried
    have hcarry := ((h.uncons hvs).2).carryTo t v hc hne hres
    have hcs' : (Rebuild.carryTo 0 c t v (r.withValues [])).constructs = _ :=
      constructs_resultTemp t hcs
    refine Tidy.push ?_ (hcarry.admits_result hcs' rfl hres _ true)
    exact hcarry.leaveConstruct hcs' (by rfl) true
  | @carried nested t _ _ hres hcarried =>
    have htemp := h.resultTemp t hc rfl (h.kind_ne_loop hmem hcarried) hres
    have hcs' := constructs_resultTemp t hcs
    refine Tidy.push ?_ (htemp.admits_result hcs' rfl hres _ true)
    exact htemp.leaveConstruct hcs' (by rfl) true
  | @carriedUnreached nested t _ _ hres hcarried =>
    have htemp := h.resultTemp t hc rfl (h.kind_ne_loop hmem hcarried) hres
    exact htemp.leaveConstruct (constructs_resultTemp t hcs) (by rfl) false

end Rebuild

end WasmToC

import WasmToC.Proofs.ArmsAndEnds

/-!
# The lines that an instruction writes

The lines of a state are those of the constructs that are open, from the outermost on, and of the
innermost scope. An instruction adds lines behind them, and at most one of these is an exit, by
which control leaves for another place. The end of a conditional may also put a line into its first
arm, or take back the lines of two arms that only compute a value.

## Main definitions

* `C.Line.isExit`, `C.Quiet` — lines by which control leaves, and lines that are
  neither exits nor braces nor labels.
* `Rebuild.lines` — the lines of a state.

## Main results

* `Rebuild.lines_of_steps` — the lines behind an instruction.
* `Rebuild.quiet_of_acts`, `Rebuild.exists_exit_of_acts` — what these lines are.
-/

namespace WasmToC

open List C.Line
open C (Line Stmt)

variable {line : Line}

/-! ## Exits and quiet lines -/

namespace C

/-- Whether control leaves for another place by a line: it is a jump or a return. -/
def Line.isExit : Line → Bool
  | .run (.jump _) | .run (.jumpIf ..) | .run (.leave _) | .run (.leaveIf ..) => true
  | _ => false

/-- Whether a line returns from the function. -/
def Line.isReturn : Line → Bool
  | .run (.leave _) | .run (.leaveIf ..) => true
  | _ => false

/-- Whether a line is a statement that control does not leave by. -/
def Line.isQuiet : Line → Bool
  | .run s => !(run s).isExit
  | _ => false

/-- Lines that are statements that control does not leave by. -/
def Quiet (k : List Line) : Prop := ∀ line ∈ k, line.isQuiet = true

lemma Line.exists_of_isQuiet (h : line.isQuiet = true) :
    ∃ s, line = .run s ∧ line.isExit = false := by
  cases line with
  | run s => exact ⟨s, rfl, by simpa [isQuiet] using h⟩
  | label | openBlock | openIf | openElse | close => cases h

section Quiet

variable {k k1 : List Line}

@[simp] lemma quiet_nil : Quiet [] := by simp [Quiet]

@[simp] lemma quiet_cons : Quiet (line :: k) ↔ line.isQuiet = true ∧ Quiet k := by
  simp [Quiet]

@[simp] lemma quiet_append : Quiet (k ++ k1) ↔ Quiet k ∧ Quiet k1 := by
  simp [Quiet, or_imp, forall_and]

lemma Quiet.labelsOf_eq (h : Quiet k) : labelsOf k = [] := by
  refine filterMap_eq_nil_iff.mpr fun line hl => ?_
  obtain ⟨s, rfl, -⟩ := exists_of_isQuiet (h line hl)
  rfl

lemma Quiet.filter_isExit (h : Quiet k) : k.filter isExit = [] := by
  refine filter_eq_nil_iff.mpr fun line hl => ?_
  obtain ⟨s, -, hs⟩ := exists_of_isQuiet (h line hl)
  simp [hs]

lemma Quiet.braces_eq (h : Quiet k) (opened : List Brace) : braces opened k = some opened := by
  induction k with
  | nil => rfl
  | cons line k ih =>
    obtain ⟨hl, hk⟩ := quiet_cons.mp h
    obtain ⟨s, rfl, -⟩ := exists_of_isQuiet hl
    rw [braces, ih hk]

end Quiet

/-- Braces are followed through one part of the lines after the other. -/
lemma braces_append (opened : List Brace) (k k1 : List Line) :
    braces opened (k ++ k1) = (braces opened k).bind fun opened1 => braces opened1 k1 := by
  fun_induction braces opened k <;> simp_all [braces]

/-- Lines that have been kept, or have got a quiet line in front of an `else`; the second argument
is what has been put in. -/
inductive Patched : List Line → List Line → List Line → Prop
  /-- Nothing has changed. -/
  | same (k : List Line) : Patched k [] k
  /-- A line has been put in. -/
  | stored (pre : List Line) (line : Line) (hline : line.isQuiet = true) (behind : List Line) :
      Patched (pre ++ .openElse :: behind) [line] (pre ++ line :: .openElse :: behind)

/-- Nothing else has been put in. -/
lemma Patched.perm {k new k1 : List Line} (h : Patched k new k1) : k1.Perm (k ++ new) := by
  cases h with
  | same => rw [append_nil]
  | stored pre new _ behind => exact perm_middle.trans (perm_append_singleton _ _).symm

@[simp] lemma map_snd_nest (depth : Nat) (k : List Line) : (nest depth k).map Prod.snd = k := by
  fun_induction nest depth k <;> simp_all

end C

open C (Quiet Patched)

/-- Whether an instruction is one by which control leaves for another place. -/
def Opcode.isExit : Opcode → Bool
  | .br | .brIf | .brTable | .returnOp => true
  | _ => false

namespace Rebuild

variable {env : Surroundings} {i : Instruction} {r r1 : Rebuild} {es : List Line}
  {depth : Nat} {c : Construct}

/-! ## The lines of a state -/

/-- The lines of the innermost scope. -/
def body (r : Rebuild) : List Line := Stmt.flattenAll r.scope.code.toList

/-- The lines in front of the innermost scope. -/
def stem (cs : List Construct) : List Line := (trunk cs).map Prod.snd

/-- The lines of a state. -/
def lines (r : Rebuild) : List Line := r.listing.map Prod.snd

lemma lines_eq (r : Rebuild) : r.lines = stem r.constructs ++ r.body := by
  simp [lines, listing, stem, body]

lemma stem_cons (c : Construct) (outer : List Construct) :
    stem (c :: outer) = stem outer ++ (Stmt.flattenAll c.enclosing.code.toList ++ opening c) := by
  simp [stem, trunk]

/-! ## Statements -/

lemma body_emit {s : Stmt} (hs : s.flatten = [.run s]) : (r.emit s).body = r.body ++ [.run s] := by
  simp [body, emit, hs]

@[simp] lemma body_resultTemp (depth : Nat) (c : Construct) (t : ValueType) :
    (r.resultTemp depth c t).2.body = r.body := by
  rw [body, scope_resultTemp, body]

/-- A value goes into a result temporary. -/
lemma body_carryTo (depth : Nat) (c : Construct) (t : ValueType) (v : Pending)
    (values : List Pending) :
    (carryTo depth c t v (r.withValues values)).body =
      r.body ++ carryingTo depth c t v (r.withValues values) := by
  rw [carryTo, body_emit rfl, body_resultTemp]
  rfl

/-- The lines of the innermost scope, behind those that are written. -/
lemma body_of_writes (h : Writes r es r1) : r1.body = r.body ++ es := by
  obtain ⟨ss, hgrows, hlines⟩ := h
  rw [body, hgrows.code, Stmt.flattenAll_append, hlines, body]

/-- The lines that evaluate operands are quiet. -/
@[simp] lemma quiet_spilling (marked : Nat → Pending → Bool) (h : Hazard) :
    Quiet (r.spilling marked h) := by
  rw [spilling]
  generalize marksOf marked h r.scope.values = marks
  induction marks with
  | nil => simp [evaluations]
  | cons m vs ih =>
    rw [evaluations, map_append, C.quiet_append]
    refine ⟨ih, ?_⟩
    split <;> simp [isQuiet, isExit]

@[simp] lemma quiet_settling (h : Hazard) : Quiet (r.settling h) := quiet_spilling _ h

@[simp] lemma quiet_sequencing (n : Nat) : Quiet (r.sequencing n) := by
  unfold sequencing
  dsimp only
  split
  · exact quiet_spilling _ _
  · simp

@[simp] lemma quiet_discarding (v : Pending) : Quiet (r.discarding v) := by
  unfold discarding
  split
  · simp [settlingFor, isQuiet, isExit]
  · simp

lemma quiet_trappingIndirect (operands : List Pending) : Quiet (trappingIndirect operands) := by
  intro line hl
  simp only [trappingIndirect, mem_append, mem_map, mem_singleton] at hl
  rcases hl with ⟨v, -, rfl⟩ | rfl <;> rfl

/-! ## Instructions that are not part of a construct -/

/-- An instruction by which control does not leave writes quiet lines only. -/
lemma quiet_of_acts (h : Acts env i r es r1) (hop : i.op.isExit = false) : Quiet es := by
  cases h with
  | br hi | brIf hi | brTable hi | returnOp hi => simp [hi, Opcode.isExit] at hop
  | unreachable | callPlain | setLocal | teeLocal | setGlobal | store =>
    simp [settlingFor, isQuiet, isExit]
  | callIndirect | callIndirectPlain => simp [quiet_trappingIndirect]
  | _ => simp

/-- An exit that leads to the construct at a depth, by its label, or out of the function. -/
inductive Heads (depth : Nat) (cs : List Construct) (line : Line) : Prop
  /-- It returns. -/
  | body (hdepth : depth = cs.length) (hline : line.isReturn = true)
  /-- It jumps. -/
  | construct {c : Construct} {l : Nat} (hc : cs[depth]? = some c) (hlabel : c.label = some l)
      (hline : line.jump? = some l)

/-- The last one of lines is an exit, and the others are quiet. -/
def EndsIn (line : Line) (k : List Line) : Prop :=
  ∃ quiet, k = quiet ++ [line] ∧ Quiet quiet ∧ line.isExit = true

lemma endsIn_singleton (h : line.isExit = true) : EndsIn line [line] :=
  ⟨[], rfl, C.quiet_nil, h⟩

lemma EndsIn.append {es1 : List Line} (h : EndsIn line es1) (hes : Quiet es) :
    EndsIn line (es ++ es1) := by
  obtain ⟨quiet, rfl, hall, hl⟩ := h
  exact ⟨es ++ quiet, (append_assoc ..).symm, C.quiet_append.mpr ⟨hes, hall⟩, hl⟩

/-- A return. -/
lemma exists_exit_of_leaves (h : Leaves env r es r1) : r1.constructs = r.constructs ∧
      ∃ line, EndsIn line es ∧ line.isReturn = true := by
  cases h with
  | value | plain =>
    refine ⟨by simp [kill, withValues, emit], _,
      (endsIn_singleton ?_).append (quiet_settling _), ?_⟩
    · rfl
    · rfl

/-- A construct has the label that it got. -/
lemma heads_labelOf {c' : Construct} (hc : r.constructs[depth]? = some c')
    (hlabel : c'.label = c.label) (hl : line.jump? = some (r.labelOf depth c).1) :
    Heads depth (r.labelOf depth c).2.constructs line := by
  have heq : r.labelOf depth c = r.labelOf depth c' := by simp only [labelOf, hlabel]
  rw [heq] at hl ⊢
  exact .construct (getElem?_labelOf hc) rfl hl

/-- A branch. -/
lemma exists_exit_of_branches (h : Branches env depth r es r1) :
    ∃ line, EndsIn line es ∧ Heads depth r1.constructs line := by
  cases h with
  | leave hd h =>
    obtain ⟨hcs, line, hends, hl⟩ := exists_exit_of_leaves h
    exact ⟨line, hends, .body (by rw [hd, hcs]) hl⟩
  | @value c t v vs hc =>
    have hc2 := getElem?_leavingWith v vs hc
    refine ⟨_, .append (.append (endsIn_singleton rfl) ?_) (quiet_settling _),
      heads_labelOf (getElem?_resultTemp t hc2 rfl) rfl rfl⟩
    simp [carryingTo, isQuiet, isExit]
  | @plain c hc =>
    refine ⟨_, (endsIn_singleton rfl).append (quiet_settling _), heads_labelOf ?_ rfl rfl⟩
    rw [settle_constructs]
    exact hc

/-- A conditional branch. -/
lemma exists_exit_of_branchesIf {cond : Pending} (h : BranchesIf env depth cond r es r1) :
    ∃ line, EndsIn line es ∧ Heads depth r1.constructs line := by
  cases h with
  | leaveWith hd | leave hd => exact ⟨_, endsIn_singleton rfl, .body hd rfl⟩
  | @value c t v vs hc =>
    refine ⟨_, endsIn_singleton rfl, ?_⟩
    have htemp := getElem?_resultTemp (c := c) t (getElem?_labelOf hc) rfl
    exact .construct htemp rfl rfl
  | plain hc => exact ⟨_, endsIn_singleton rfl, heads_labelOf hc rfl rfl⟩

/-- **An instruction by which control leaves writes one exit**, behind quiet lines. If it is a
branch, the exit leads to where the branch does. -/
theorem exists_exit_of_acts (h : Acts env i r es r1) (hop : i.op.isExit = true) :
    ∃ line depth, EndsIn line es ∧ Heads depth r1.constructs line ∧
      ∀ d, i.branchDepth? = some d → d = depth := by
  cases h with
  | br hi himm h =>
    obtain ⟨line, hends, hheads⟩ := exists_exit_of_branches h
    exact ⟨line, _, hends, hheads, by simp [Instruction.branchDepth?, hi, himm]⟩
  | brIf hi himm _ h =>
    obtain ⟨line, hends, hheads⟩ := exists_exit_of_branchesIf h
    exact ⟨line, _, hends.append (quiet_settling _), hheads,
      by simp [Instruction.branchDepth?, hi, himm]⟩
  | brTable hi himm _ h =>
    obtain ⟨line, hends, hheads⟩ := exists_exit_of_branches h
    exact ⟨line, _, hends.append (quiet_discarding _), hheads,
      by simp [Instruction.branchDepth?, hi, himm]⟩
  | returnOp hi h =>
    obtain ⟨-, line, hends, hl⟩ := exists_exit_of_leaves h
    exact ⟨line, _, hends, .body rfl hl, by simp [Instruction.branchDepth?, hi]⟩
  | _ hi => simp [hi, Opcode.isExit] at hop

/-- A branch that gives a loop its label gives it the one it has. -/
lemma stem_of_aims {labels labels1 : Nat} {cs cs1 : List Construct}
    (h : Aims depth cs labels cs1 labels1)
    (hloop : ∀ c ∈ cs, c.kind = .loop → c.label.isSome = true) : stem cs1 = stem cs := by
  cases h with
  | body => rfl
  | @construct c label _ temp hc hlabel =>
    have hopening : opening { c with label := some label, temp } = opening c := ?_
    · exact congrArg (List.map Prod.snd) (trunk_modify hc ⟨rfl, rfl, rfl, hopening⟩)
    simp only [opening]
    cases hk : c.kind with
    | loop =>
      obtain ⟨l, hl⟩ := Option.isSome_iff_exists.mp (hloop c (mem_of_getElem? hc) hk)
      rw [hl] at hlabel
      simp_all
    | block | ifArm | elseArm => rfl

/-- An instruction that is no part of a construct keeps the kinds of the open constructs. -/
lemma map_kind_of_acts (h : Acts env i r es r1) :
    r1.constructs.map Construct.kind = r.constructs.map Construct.kind := by
  obtain ⟨ss, hgrows, -⟩ := writes_of_acts h
  exact hgrows.map_constructs fun _ _ hk _ => hk

/-- The lines in front of the innermost scope stay. -/
lemma stem_of_acts (htidy : r.Tidy env) (h : Acts env i r es r1) :
    stem r1.constructs = stem r.constructs := by
  rcases constructs_of_acts h with ⟨-, hcs, -⟩ | ⟨depth, -, haims⟩
  · rw [hcs]
  · exact stem_of_aims haims fun c hc hk => ((htidy.constructs c hc).loop hk).1

/-- **The lines behind an instruction** that is no part of a construct. -/
theorem lines_of_acts (htidy : r.Tidy env) (h : Acts env i r es r1) : r1.lines = r.lines ++ es := by
  rw [lines_eq, lines_eq, stem_of_acts htidy h, body_of_writes (writes_of_acts h), append_assoc]

/-! ## Constructs -/

/-- The instruction that starts a kind of construct. -/
def opener : ConstructKind → Opcode
  | .block => .block
  | .loop => .loop
  | .ifArm _ | .elseArm .. => .ifOp

/-- What the start of a construct leads to. -/
structure Opens (op : Opcode) (c : Construct) (r : Rebuild) (es : List Line) (r1 : Rebuild) :
    Prop where
  /-- The construct is open. -/
  constructs : r1.constructs = c :: r.constructs
  /-- Behind quiet lines, it has been opened. -/
  written : ∃ quiet, Quiet quiet ∧ es = quiet ++ opening c
  /-- These lines are new. -/
  lines : r1.lines = r.lines ++ es
  /-- The instruction starts constructs of its kind. -/
  opener : opener c.kind = op
  /-- It is not in its second arm. -/
  first : ConstructKind.isElse c.kind = false
  /-- It is a loop, which has the next label, or has no label. -/
  label : (c.kind = .loop ∧ c.label = some (r.labels + 1) ∧
    r1.labels = r.labels + 1) ∨ (c.kind ≠ .loop ∧ c.label = none ∧ r1.labels = r.labels)

/-- **The lines behind the start of a construct.** -/
theorem lines_of_enters {result : Option ValueType} {op : Opcode} (h : Enters r result op es r1) :
    ∃ c, Opens op c r es r1 := by
  have hopens (r0 : Rebuild) (c : Construct) (henclosing : c.enclosing = r0.spillAll.scope)
      (hbody : r0.body = r.body) (hr1 : r1.body = []) (hcs : r1.constructs = c :: r.constructs) :
      r1.lines = r.lines ++ r0.spillingAllFor (opening c) := by
    have hspill : Stmt.flattenAll r0.spillAll.scope.code.toList =
        r.body ++ r0.spilling (fun _ _ => true) .none := by
      rw [← hbody]
      exact body_of_writes (writes_spill _ _)
    rw [lines_eq, hcs, stem_cons, hr1, henclosing, hspill, lines_eq]
    simp [spillingAllFor]
  cases h with
  | block =>
    have hcs : (r.spillAll.openConstruct .block result none).constructs =
        ⟨.block, result, none, none, r.spillAll.scope⟩ :: r.constructs := by
      simp [openConstruct, spillAll]
    exact ⟨_, hcs, ⟨_, quiet_spilling _ _, rfl⟩, hopens r _ rfl rfl rfl hcs, rfl, rfl,
      .inr ⟨by simp, rfl, spill_labels _ _⟩⟩
  | loop =>
    have hcs : (openLoop result r.spillAll).constructs =
        ⟨.loop, result, some (r.spillAll.labels + 1), none, r.spillAll.scope⟩ :: r.constructs := by
      simp [openLoop, openConstruct, spillAll]
    exact ⟨_, hcs, ⟨_, quiet_spilling _ _, rfl⟩, hopens r _ rfl rfl rfl hcs, rfl, rfl,
      .inl (by simp [openLoop, openConstruct, spillAll])⟩
  | @ifOp cond vs =>
    have hcs : ((r.withValues vs).spillAll.openConstruct (.ifArm cond) result none).constructs =
        ⟨.ifArm cond, result, none, none, (r.withValues vs).spillAll.scope⟩ :: r.constructs := by
      simp [openConstruct, spillAll, withValues]
    exact ⟨_, hcs, ⟨_, quiet_spilling _ _, rfl⟩, hopens (r.withValues vs) _ rfl rfl rfl hcs, rfl,
      rfl, .inr ⟨by simp, rfl, spill_labels _ _⟩⟩

/-- **The lines behind the change between arms.** -/
theorem lines_of_switches (h : Switches r es r1) :
    ∃ c c1 outer quiet, r.constructs = c :: outer ∧ r1.constructs = c1 :: outer ∧
      c.kind ≠ .loop ∧ c1.kind ≠ .loop ∧ c1.label = c.label ∧ Quiet quiet ∧
      es = quiet ++ [.openElse] ∧ r1.lines = r.lines ++ es := by
  obtain ⟨c, outer, cond, hcs, hkind, h⟩ := h
  -- the first arm becomes part of the lines in front, and the second one is empty
  have helse (thenValue : Option Pending) (temp : Option Nat) (live : Bool) (r0 : Rebuild)
      {quiet : List Line} (hbody : r0.body = r.body ++ quiet) :
      (toElse c outer cond thenValue temp live r0).lines = r.lines ++ (quiet ++ [.openElse]) := by
    have hfirst : Stmt.flattenAll r0.scope.code.toList = r.body ++ quiet := hbody
    rw [lines_eq, lines_eq, hcs]
    simp [toElse, stem_cons, opening, hkind, hfirst, body]
  cases h with
  | @keep v =>
    exact ⟨c, _, outer, [], hcs, rfl, by simp [hkind], by simp, rfl, C.quiet_nil, rfl,
      helse (some v) none true r (append_nil _).symm⟩
  | @store v t =>
    exact ⟨c, _, outer, carryingTo 0 c t v (r.withValues []), hcs, rfl, by simp [hkind], by simp,
      rfl, by simp [carryingTo, isQuiet, isExit], rfl,
      helse none _ true _ (body_carryTo _ _ _ _ _)⟩
  | plain =>
    exact ⟨c, _, outer, [], hcs, rfl, by simp [hkind], by simp, rfl, C.quiet_nil, rfl,
      helse none c.temp r.reach.isLive r (append_nil _).symm⟩

/-- The lines of a construct that is closed. -/
lemma lines_leaveConstruct (c : Construct) (outer : List Construct) (reachable : Bool)
    (r : Rebuild) :
    (leaveConstruct c outer reachable r).lines = stem (c :: outer) ++ r.body ++ closingLines c := by
  rw [lines_eq, stem_cons]
  simp only [leaveConstruct, emit, body, statementOf, closingLines, opening]
  cases c.kind <;> simp [Stmt.flatten]

/-- The value of the first arm is put into a temporary in front of the `else`. -/
lemma patched_carrying (temp : Nat) (c : Construct) (outer : List Construct) (k : List Line) :
    Patched (stem (c :: outer) ++ k) (storingThen temp c.kind)
      (stem (carrying temp c :: outer) ++ k) := by
  rw [stem_cons, stem_cons]
  simp only [carrying, opening]
  cases hk : c.kind with
  | block | loop | ifArm => exact .same _
  | elseArm cond code value live =>
    cases value with
    | none => exact .same _
    | some v =>
      have hstored := Patched.stored (stem outer ++ (Stmt.flattenAll c.enclosing.code.toList ++
          .openIf cond.expr :: Stmt.flattenAll code.toList))
        (.run (.assign (.temp temp) v.expr)) rfl k
      simpa [storeThenValue, storingThen, Stmt.flatten] using hstored

/-- The lines that close a construct do not depend on its result. -/
@[simp] lemma closingLines_carrying (temp : Nat) (c : Construct) :
    closingLines (carrying temp c) = closingLines c := by
  simp only [closingLines, carrying]
  cases c.kind with
  | block | loop | ifArm => rfl
  | elseArm cond code value live => cases value <;> rfl

/-- What the end of a construct does to the lines. -/
inductive Ends (c : Construct) (r : Rebuild) (es : List Line) (r1 : Rebuild) : Prop
  /-- The lines of two arms that only compute a value are taken back. -/
  | folded {cond : Pending} {code : Array Stmt} {value : Option Pending} {live : Bool}
      (hkind : c.kind = .elseArm cond code value live) (hlabel : c.label = none)
      (hlines : r.lines = r1.lines ++ [.openIf cond.expr, .openElse]) (hes : es = [])
  /-- The construct is closed. -/
  | closed {new k quiet : List Line} (hpatched : Patched r.lines new k) (hquiet : Quiet quiet)
      (hlines : r1.lines = k ++ (quiet ++ closingLines c))
      (hes : es = new ++ (quiet ++ closingLines c))

lemma Ends.push (h : Ends c r es r1) (v : Pending) : Ends c r es (r1.push v) := by
  cases h with
  | folded hk hlabel hls hes => exact .folded hk hlabel hls hes
  | closed hpatched hquiet hls hes => exact .closed hpatched hquiet hls hes

/-- **The lines behind the end of a construct.** -/
theorem lines_of_closes (htidy : r.Tidy env) (h : Closes r es r1) :
    ∃ c, r.constructs = c :: r1.constructs ∧ Ends c r es r1 := by
  obtain ⟨c, outer, hcs, h⟩ := h
  have hleave (reachable : Bool) : Ends c r (closingLines c)
    (leaveConstruct c outer reachable r) := by
    refine .closed (.same _) C.quiet_nil ?_ rfl
    rw [lines_leaveConstruct, lines_eq, hcs, nil_append]
  have hcarry (temp : Nat) (reachable : Bool) (r0 : Rebuild) (es : List Line)
      (hbody : r0.body = r.body ++ es) (hquiet : Quiet es) :
      Ends c r (storingThen temp c.kind ++ (es ++ closingLines c))
        (leaveConstruct (carrying temp c) outer reachable r0) := by
    have hpatched := patched_carrying temp c outer r.body
    rw [← hcs, ← lines_eq] at hpatched
    refine .closed hpatched hquiet ?_ rfl
    rw [lines_leaveConstruct, closingLines_carrying, hbody]
    simp
  cases h with
  | folded hkind _ _ _ hcode hlabel =>
    refine ⟨c, hcs, .folded hkind hlabel ?_ rfl⟩
    obtain ⟨hthen, -⟩ := htidy.kept (by simp [hcs]) hkind
    rw [lines_eq, lines_eq, hcs, stem_cons]
    simp [opening, hkind, hthen, body, hcode, push]
  | plain | unreached => exact ⟨c, hcs, hleave _⟩
  | @direct v => exact ⟨c, hcs, (hleave _).push v⟩
  | store =>
    refine ⟨c, hcs, (hcarry _ true _ _ ?_ ?_).push _⟩
    · exact body_carryTo _ _ _ _ _
    · simp [carryingTo, isQuiet, isExit]
  | carried => exact ⟨c, hcs, (hcarry _ true _ [] (by simp) C.quiet_nil).push _⟩
  | carriedUnreached => exact ⟨c, hcs, hcarry _ false _ [] (by simp) C.quiet_nil⟩

/-- A construct that is closed adds lines. -/
lemma Ends.perm (h : Ends c r es r1) (hes : es ≠ []) : r1.lines.Perm (r.lines ++ es) := by
  cases h with
  | folded _ _ _ hnone => exact absurd hnone hes
  | closed hpatched _ hls hlines' =>
    rw [hls, hlines', ← append_assoc r.lines]
    exact hpatched.perm.append_right _

/-- **The lines behind an instruction**: what it writes is added, unless it takes lines back. -/
theorem lines_of_steps (htidy : r.Tidy env) (h : Steps env i r es r1) :
    r1.lines.Perm (r.lines ++ es) ∨ r1.lines <+: r.lines := by
  cases h with
  | acts _ _ ha => exact .inl (.of_eq (lines_of_acts htidy ha))
  | enters _ _ he =>
    obtain ⟨c, hopens⟩ := lines_of_enters he
    exact .inl (.of_eq hopens.lines)
  | switches _ _ hs =>
    obtain ⟨c, c1, outer, quiet, -, -, -, -, -, -, -, hls⟩ := lines_of_switches hs
    exact .inl (.of_eq hls)
  | closes _ _ hc =>
    obtain ⟨c, -, hends⟩ := lines_of_closes htidy hc
    by_cases hes : es = []
    · cases hends with
      | folded _ _ hls => exact .inr ⟨_, hls.symm⟩
      | closed _ _ _ hes' => simp [hes, closingLines] at hes'
    · exact .inl (hends.perm hes)
  | skips => exact .inr prefix_rfl

end Rebuild

end WasmToC

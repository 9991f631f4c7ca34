import WasmToC.Proofs.Printing

/-!
# Where branches land

A walk along the lines of a body comes out of the construct a number of levels out when it passes
the brace that opens or closes it. The exit that is written for a branch is looked for from its own
place: a walk back finds the label of a loop in front of the brace that opens it, and a walk ahead
finds the label of any other construct behind the brace that closes it.

When the exit is written, the lines behind it are still missing. What is known until then is how
many levels out the construct is at the end of the lines so far, and that it has the label.

## Main definitions

* `C.outOf`, `C.ahead`, `C.back` — walking along lines.
* `Rebuild.Awaits` — what a walk ahead finds, or will find.
* `Rebuild.Exit.Spot` — where an exit stands, and where it leads to.

## Main results

* `Rebuild.Exit.Spot.steps`, `Rebuild.Exit.Spot.run` — instructions that follow leave
  the exit where it is, and it leads to the same place.
* `Rebuild.exists_spot` — the exit of a branch.
-/

namespace WasmToC

open List Option C.Line
open C (Line Stmt Brace Quiet Patched)

variable {line : Line}

/-! ## Walking along lines -/

namespace C

/-- Whether a line opens a construct. -/
def Line.opens : Line → Bool
  | .openBlock | .openIf _ => true
  | _ => false

/-- Whether a line closes a construct. -/
def Line.closes : Line → Bool
  | .close => true
  | _ => false

/-- A walk along lines, out of the construct a number of levels out: the lines behind the one by
which it comes out of it, or how many levels out the construct still is at the end of the lines. -/
def outOf (enters leaves : Line → Bool) : (levels : Nat) → List Line → Nat ⊕ List Line
  | levels, [] => .inl levels
  | levels, line :: k =>
    if enters line then outOf enters leaves (levels + 1) k
    else if leaves line then
      match levels with
      | 0 => .inr k
      | levels + 1 => outOf enters leaves levels k
    else outOf enters leaves levels k

/-- A walk ahead. -/
def ahead (levels : Nat) (k : List Line) : Nat ⊕ List Line := outOf opens closes levels k

/-- A walk back, from the last line on. -/
def back (levels : Nat) (k : List Line) : Nat ⊕ List Line :=
  outOf closes opens levels k.reverse

lemma outOf_enters {enters leaves : Line → Bool} (h : enters line = true) (levels : Nat)
    (k : List Line) :
    outOf enters leaves levels (line :: k) = outOf enters leaves (levels + 1) k := by
  cases levels <;> simp [outOf, h]

lemma outOf_append (enters leaves : Line → Bool) (levels : Nat) (k k1 : List Line) :
    outOf enters leaves levels (k ++ k1) =
      (outOf enters leaves levels k).elim (fun n => outOf enters leaves n k1)
        fun rest => .inr (rest ++ k1) := by
  fun_induction outOf enters leaves levels k <;> simp_all [outOf]

lemma ahead_append (levels : Nat) (k k1 : List Line) : ahead levels (k ++ k1) =
      (ahead levels k).elim (fun n => ahead n k1) fun rest => .inr (rest ++ k1) :=
  outOf_append _ _ levels k k1

lemma back_append (levels : Nat) (k k1 : List Line) : back levels (k ++ k1) =
      (back levels k1).elim (fun n => back n k) fun rest => .inr (rest ++ k.reverse) := by
  rw [back, reverse_append, outOf_append]
  rfl

/-- Lines that a walk passes without coming out of anything. -/
structure Level (k : List Line) : Prop where
  /-- A walk ahead. -/
  ahead : ∀ levels, ahead levels k = .inl levels
  /-- A walk back. -/
  back : ∀ levels, back levels k = .inl levels

namespace Level

variable {k k1 : List Line}

lemma nil : Level [] := ⟨fun _ => rfl, fun _ => rfl⟩

lemma append (h : Level k) (h1 : Level k1) : Level (k ++ k1) where
  ahead levels := by simp [ahead_append, h.ahead, h1.ahead]
  back levels := by simp [back_append, h.back, h1.back]

/-- A line that is no brace, or the braces between two arms. -/
lemma singleton (hopens : line.opens = false) (hcloses : line.closes = false) : Level [line] where
  ahead levels := by simp [C.ahead, outOf, hopens, hcloses]
  back levels := by simp [C.back, outOf, hopens, hcloses]

lemma cons (line : Line) (hopens : line.opens = false) (hcloses : line.closes = false)
    (h : Level k) : Level (line :: k) := (singleton hopens hcloses).append h

/-- Lines between the braces of a construct. -/
lemma wrap (line : Line) (hopens : line.opens = true) (h : Level k) :
    Level (line :: k ++ [.close]) where
  ahead levels := by
    have hinside : outOf opens closes (levels + 1) k = .inl (levels + 1) :=
      h.ahead (levels + 1)
    rw [C.ahead, cons_append, outOf_enters hopens, outOf_append, hinside]
    rfl
  back levels := by
    have hinside : outOf closes opens (levels + 1) k.reverse = .inl (levels + 1) :=
      h.back (levels + 1)
    have hcloses : line.closes = false := by cases line <;> simp_all [opens, closes]
    have hwalk : (line :: k ++ [close]).reverse = close :: (k.reverse ++ [line]) := by
      simp
    rw [C.back, hwalk, outOf_enters rfl, outOf_append, hinside]
    simp [outOf, hopens, hcloses]

lemma of_quiet (h : Quiet k) : Level k := by
  induction k with
  | nil => exact nil
  | cons line k ih =>
    obtain ⟨hl, hk⟩ := quiet_cons.mp h
    obtain ⟨s, rfl, -⟩ := exists_of_isQuiet hl
    exact cons _ rfl rfl (ih hk)

end Level

lemma Nested.level {ls : List Line} (h : Nested ls) : Level ls := by
  induction h with
  | nil => exact .nil
  | label | run => exact .singleton rfl rfl
  | append _ _ h h' => exact h.append h'
  | block _ h => exact .wrap .openBlock rfl h
  | onlyIf cond _ h => exact .wrap (.openIf cond) rfl h
  | ifElse cond _ _ h h' =>
    have harms := h.append (Level.cons .openElse rfl rfl h')
    simpa using Level.wrap (.openIf cond) rfl harms

lemma level_flattenAll (ss : List Stmt) : Level (Stmt.flattenAll ss) :=
  (nested_flattenAll ss).level

end C

namespace Rebuild

variable {env : Surroundings} {i : Instruction} {r r1 : Rebuild} {es : List Line}
  {d : Nat} {c : Construct}

/-! ## Braces and loops of a state -/

/-- The brace that opens the current arm of a construct. -/
def brace (c : Construct) : Brace :=
  match c.kind with
  | .block | .loop => .block
  | .ifArm _ => .arm
  | .elseArm .. => .otherwise

/-- The brace that is open behind the lines that open a construct. -/
lemma braces_opening (c : Construct) (opened : List Brace) :
    C.braces opened (opening c) = some (brace c :: opened) := by
  simp only [opening, brace]
  cases c.kind with
  | block | loop | ifArm => rfl
  | elseArm cond code value live =>
    have harm := C.braces_flattenAll (.arm :: opened) [.openElse] code.toList
    change C.braces (.arm :: opened) (Stmt.flattenAll code.toList ++ [.openElse]) = _
    rw [harm]
    rfl

/-- **The open braces are those of the open constructs.** -/
theorem braces_lines (r : Rebuild) : C.braces [] r.lines = some (r.constructs.map brace) := by
  have hflat (opened : List Brace) (ss : List Stmt) :
      C.braces opened (Stmt.flattenAll ss) = some opened := by
    have h := C.braces_flattenAll opened [] ss
    rwa [append_nil] at h
  have hstem : ∀ cs : List Construct, C.braces [] (stem cs) = some (cs.map brace) := by
    intro cs
    induction cs with
    | nil => rfl
    | cons c outer ih =>
      rw [stem_cons, C.braces_append, ih, bind_some, C.braces_append, hflat,
        bind_some, braces_opening, map_cons]
  rw [lines_eq, C.braces_append, hstem, bind_some, body, hflat]

/-- A walk back comes out of the innermost construct at the lines that open it. -/
lemma back_opening_succ (levels : Nat) (c : Construct) :
    C.back (levels + 1) (opening c) = .inl levels := by
  simp only [opening]
  cases c.kind with
  | block | loop | ifArm => rfl
  | elseArm cond code value live =>
    have harm := (C.level_flattenAll code.toList).append (.cons .openElse rfl rfl .nil)
    change C.back (levels + 1)
      ([.openIf cond.expr] ++ (Stmt.flattenAll code.toList ++ [.openElse])) = _
    rw [C.back_append, harm.back]
    rfl

/-- **A walk back finds the label of a loop in front of the brace that opens it.** -/
theorem back_stem {cs : List Construct} {l : Nat} (hc : cs[d]? = some c)
    (hkind : c.kind = .loop) (hlabel : c.label = some l) :
    ∃ rest, C.back d (stem cs) = .inr (.label l :: rest) := by
  induction cs generalizing d with
  | nil => cases hc
  | cons b outer ih =>
    rw [stem_cons, C.back_append, C.back_append]
    cases d with
    | zero =>
      obtain rfl : b = c := by simpa using hc
      have hopening : C.back 0 (opening b) = .inr [.label l] := by
        simp only [opening, hkind, hlabel]
        rfl
      rw [hopening]
      exact ⟨_, rfl⟩
    | succ d =>
      obtain ⟨rest, hr⟩ := ih hc
      rw [back_opening_succ, Sum.elim_inl, (C.level_flattenAll _).back, Sum.elim_inl]
      exact ⟨rest, hr⟩

/-! ## Walking ahead to a construct that is still open -/

/-- What a walk ahead finds: it ends inside a construct that is no loop and has a label, or it has
come out of it and the label is defined there. -/
inductive Awaits (l : Nat) (cs : List Construct) : Nat ⊕ List Line → Prop
  /-- The construct is still open. -/
  | inside {levels : Nat} {c : Construct} (hc : cs[levels]? = some c) (hkind : c.kind ≠ .loop)
      (hlabel : c.label = some l) : Awaits l cs (.inl levels)
  /-- The construct has been closed. -/
  | past (rest : List Line) : Awaits l cs (.inr (.label l :: rest))

variable {cs cs1 : List Construct} {l levels : Nat} {k k1 : List Line}

/-- A walk goes on behind the lines that it has passed. -/
lemma Awaits.append (h : Awaits l cs (C.ahead levels k))
    (hmore : ∀ n, Awaits l cs (.inl n) → Awaits l cs1 (C.ahead n k1)) :
    Awaits l cs1 (C.ahead levels (k ++ k1)) := by
  rw [C.ahead_append]
  generalize C.ahead levels k = found at h
  cases h with
  | inside hc hk hlabel => exact hmore _ (.inside hc hk hlabel)
  | past rest => exact .past (rest ++ k1)

/-- Instructions that are no part of a construct keep what is awaited. -/
lemma Awaits.acts (h : Awaits l r.constructs (.inl levels)) (ha : Acts env i r es r1) :
    Awaits l r1.constructs (.inl levels) := by
  cases h with
  | inside hc hk hlabel =>
    obtain ⟨ss, hg, -⟩ := writes_of_acts ha
    obtain ⟨c1, hc1, hgrows⟩ := hg.construct _ _ hc
    exact .inside hc1 (hgrows.kind ▸ hk) (hgrows.label l hlabel)

/-- A walk is not disturbed by a quiet line in front of an `else`. -/
lemma Awaits.insert (hl : line.isQuiet = true)
    (h : Awaits l cs (C.ahead levels (k ++ .openElse :: k1))) :
    Awaits l cs (C.ahead levels (k ++ line :: .openElse :: k1)) := by
  rw [C.ahead_append] at h ⊢
  cases hk : C.ahead levels k with
  | inl n =>
    have hquiet : C.ahead n [line] = .inl n := (C.Level.of_quiet (by simpa using hl)).ahead n
    rw [hk, Sum.elim_inl] at h
    rw [Sum.elim_inl, ← singleton_append, C.ahead_append, hquiet]
    exact h
  | inr rest =>
    rw [hk, Sum.elim_inr] at h
    rw [Sum.elim_inr]
    cases rest with
    | nil => cases h
    | cons first rest =>
      cases h
      exact .past _

/-- A walk that has not passed the braces of a conditional. -/
lemma Awaits.unfold {cond : C.Expr}
    (h : Awaits l (c :: cs) (C.ahead levels (k ++ [.openIf cond, .openElse]))) :
    Awaits l cs (C.ahead levels k) := by
  rw [C.ahead_append] at h
  cases hk : C.ahead levels k with
  | inl n =>
    rw [hk] at h
    cases h with
    | inside hc hkind hl => exact .inside hc hkind hl
  | inr rest =>
    rw [hk, Sum.elim_inr] at h
    cases rest with
    | nil => cases h
    | cons first rest =>
      cases h
      exact .past _

/-- A walk back is not disturbed by a quiet line in front of an `else`. -/
lemma back_insert {rest : List Line} (hl : line.isQuiet = true)
    (h : C.back levels (k ++ .openElse :: k1) = .inr (.label l :: rest)) :
    ∃ rest, C.back levels (k ++ line :: .openElse :: k1) = .inr (.label l :: rest) := by
  have hquiet (n : Nat) : C.back n [line] = .inl n :=
    (C.Level.of_quiet (by simpa using hl)).back n
  have helse (n : Nat) : C.back n [.openElse] = .inl n := rfl
  rw [← singleton_append, C.back_append, C.back_append] at h
  change ∃ rest, C.back levels (k ++ ([line] ++ ([.openElse] ++ k1))) = .inr (.label l :: rest)
  rw [C.back_append, C.back_append, C.back_append]
  cases hk : C.back levels k1 with
  | inl n =>
    rw [hk, Sum.elim_inl, helse, Sum.elim_inl] at h
    rw [Sum.elim_inl, helse, Sum.elim_inl, hquiet, Sum.elim_inl]
    exact ⟨rest, h⟩
  | inr found =>
    rw [hk, Sum.elim_inr, Sum.elim_inr] at h
    cases found with
    | nil => cases h
    | cons first found =>
      cases h
      exact ⟨_, rfl⟩

/-! ## The place of an exit -/

/-- Where an exit leads to. -/
inductive Aim where
  /-- Out of the function. -/
  | body
  /-- To the start of a loop, which has a label. -/
  | loop (l : Nat)
  /-- To the end of another construct, which has a label. -/
  | construct (l : Nat)

/-- The exit that is written for a branch. -/
structure Exit where
  /-- The line. -/
  line : Line
  /-- How many levels out it leads. -/
  levels : Nat
  /-- The number of exits in front of it. -/
  number : Nat
  /-- The braces that are open where it stands, innermost first. -/
  opened : List Brace
  /-- Where it leads to. -/
  aim : Aim

namespace Exit

/-- An exit that leads to its place, as far as the lines around it tell. -/
inductive Leads (x : Exit) (cs : List Construct) (pre post : List Line) : Prop
  /-- It leads out of the function. -/
  | body (haim : x.aim = .body)
  /-- It leads to a loop, and the label stands in front of that. -/
  | loop {l : Nat} {rest : List Line} (haim : x.aim = .loop l)
      (hback : C.back x.levels pre = .inr (.label l :: rest))
  /-- It leads to another construct, behind which the label stands or will stand. -/
  | construct {l : Nat} (haim : x.aim = .construct l) (hahead : Awaits l cs (C.ahead x.levels post))

/-- An exit between the lines around it. -/
structure Stands (x : Exit) (cs : List Construct) (pre post : List Line) : Prop where
  /-- The exits in front of it are counted. -/
  number : pre.countP isExit = x.number
  /-- The open braces are known. -/
  opened : C.braces [] pre = some x.opened
  /-- It leads to its place. -/
  leads : x.Leads cs pre post

/-- The place of an exit among lines. -/
def Spot (x : Exit) (k : List Line) (cs : List Construct) : Prop :=
  ∃ pre post, k = pre ++ x.line :: post ∧ x.Stands cs pre post

variable {x : Exit}

/-- An exit stands where it stood if the lines behind it still bring the label. -/
lemma Stands.behind {pre post post1 : List Line} (h : x.Stands cs pre post)
    (hmore : ∀ l, Awaits l cs (C.ahead x.levels post) → Awaits l cs1 (C.ahead x.levels post1)) :
    x.Stands cs1 pre post1 := by
  refine ⟨h.number, h.opened, ?_⟩
  cases h.leads with
  | body haim => exact .body haim
  | loop haim hback => exact .loop haim hback
  | construct haim hahead => exact .construct haim (hmore _ hahead)

/-- Lines are added behind an exit. -/
lemma Spot.append (h : x.Spot k cs)
    (hmore : ∀ l n, Awaits l cs (.inl n) → Awaits l cs1 (C.ahead n k1)) :
    x.Spot (k ++ k1) cs1 := by
  obtain ⟨pre, post, rfl, hs⟩ := h
  exact ⟨pre, post ++ k1, by simp, hs.behind fun l hahead => hahead.append (hmore l)⟩

/-- A line is put in front of an `else`. -/
lemma Spot.patch {new : List Line} (h : x.Spot k cs) (hexit : x.line.isExit = true)
    (hpatched : Patched k new k1) : x.Spot k1 cs := by
  cases hpatched with
  | same => exact h
  | stored before line hl behind =>
    obtain ⟨pre, post, hk, hstands⟩ := h
    obtain ⟨s, hs, hquiet⟩ := exists_of_isQuiet hl
    rcases append_eq_append_iff.mp hk with ⟨bs, rfl, hbs⟩ | ⟨bs, rfl, hbs⟩
    · -- the exit stands behind the `else`
      cases bs with
      | nil =>
        obtain ⟨helse, -⟩ := List.cons.inj hbs
        rw [← helse] at hexit
        cases hexit
      | cons first bs =>
        obtain ⟨rfl, rfl⟩ := List.cons.inj hbs
        refine ⟨before ++ line :: .openElse :: bs, post, by simp, ?_, ?_, ?_⟩
        · rw [← hstands.number]
          simp [hquiet]
        · rw [← hstands.opened, C.braces_append, C.braces_append, hs]
          rfl
        · cases hstands.leads with
          | body haim => exact .body haim
          | loop haim hback =>
            obtain ⟨rest, hr⟩ := back_insert hl hback
            exact .loop haim hr
          | construct haim hahead => exact .construct haim hahead
    · -- the exit stands in front of the `else`
      cases bs with
      | nil =>
        obtain ⟨helse, -⟩ := List.cons.inj hbs
        rw [helse] at hexit
        cases hexit
      | cons first bs =>
        obtain ⟨rfl, rfl⟩ := List.cons.inj hbs
        exact ⟨pre, bs ++ line :: .openElse :: behind, by simp,
          hstands.behind fun _ hahead => hahead.insert hl⟩

/-- The lines of two arms are taken back. -/
lemma Spot.fold {cond : C.Expr} (hexit : x.line.isExit = true)
    (h : x.Spot (k ++ [.openIf cond, .openElse]) (c :: cs)) : x.Spot k cs := by
  obtain ⟨pre, post, hk, hs⟩ := h
  have hne (line : Line) (hl : line = .openIf cond ∨ line = .openElse) : x.line ≠ line := by
    rintro rfl
    rcases hl with hl | hl <;> rw [hl] at hexit <;> cases hexit
  -- the exit is none of the lines that are taken back, so that they are the last ones behind it
  obtain ⟨post, rfl⟩ : ∃ more, post = more ++ [.openIf cond, .openElse] := by
    rcases append_eq_append_iff.mp hk with ⟨bs, -, hbs⟩ | ⟨bs, -, hbs⟩
    · match bs with
      | [] => exact absurd (List.cons.inj hbs).1.symm (hne _ (.inl rfl))
      | [_] => exact absurd (List.cons.inj (List.cons.inj hbs).2).1.symm (hne _ (.inr rfl))
      | _ :: _ :: _ => simp at hbs
    · cases bs with
      | nil => exact absurd (List.cons.inj hbs).1 (hne _ (.inl rfl))
      | cons first bs => exact ⟨bs, (List.cons.inj hbs).2⟩
  obtain rfl : k = pre ++ x.line :: post := by
    refine append_cancel_right (hk.trans ?_)
    simp
  exact ⟨pre, post, rfl, hs.behind fun _ hahead => hahead.unfold⟩

end Exit

/-! ## Instructions that follow -/

/-- A walk passes an exit. -/
lemma level_of_isExit (h : line.isExit = true) : C.Level [line] := by
  cases line with
  | run s => exact .singleton rfl rfl
  | label | openBlock | openIf | openElse | close => cases h

/-- A walk passes the lines of an instruction that is no part of a construct. -/
lemma level_of_acts (h : Acts env i r es r1) : C.Level es := by
  cases hop : i.op.isExit with
  | false => exact .of_quiet (quiet_of_acts h hop)
  | true =>
    obtain ⟨line, _, ⟨quiet, hlines, hquiet, hexit⟩, -⟩ := exists_exit_of_acts h hop
    rw [hlines]
    exact (C.Level.of_quiet hquiet).append (level_of_isExit hexit)

/-- A walk ahead enters a construct by the lines that open it. -/
lemma ahead_opening (hf : ConstructKind.isElse c.kind = false) (n : Nat) :
    C.ahead n (opening c) = .inl (n + 1) := by
  simp only [opening]
  cases hk : c.kind with
  | block | loop | ifArm => rfl
  | elseArm =>
    rw [hk] at hf
    cases hf

/-- A walk ahead leaves a construct by the lines that close it. -/
lemma Awaits.close {outer : List Construct} (h : Awaits l (c :: outer) (.inl levels)) :
    Awaits l outer (C.ahead levels (closingLines c)) := by
  cases h with
  | inside hc hkind hlabel =>
    cases levels with
    | zero =>
      obtain rfl : c = _ := by simpa using hc
      have hclosing : closingLines c = [.close, .label l] := by
        rw [closingLines, hlabel]
        cases hk : c.kind with
        | loop => exact absurd hk hkind
        | block | ifArm | elseArm => rfl
      rw [hclosing]
      exact .past []
    | succ n =>
      have hclosing : C.ahead (n + 1) (closingLines c) = .inl n := by
        rw [closingLines]
        cases c.kind with
        | loop => rfl
        | block | ifArm | elseArm => exact (C.nested_labelLine c.label).level.ahead n
      rw [hclosing]
      exact .inside hc hkind hlabel

/-- **Every instruction that follows leaves an exit in its place.** -/
theorem Exit.Spot.steps {x : Exit} (h : x.Spot r.lines r.constructs) (hexit : x.line.isExit = true)
    (htidy : r.Tidy env) (hstep : Steps env i r es r1) :
    x.Spot r1.lines r1.constructs := by
  cases hstep with
  | acts _ _ ha =>
    rw [lines_of_acts htidy ha]
    refine h.append fun l n hawaits => ?_
    rw [(level_of_acts ha).ahead]
    exact hawaits.acts ha
  | enters _ _ he =>
    obtain ⟨c, hopens⟩ := lines_of_enters he
    obtain ⟨quiet, hquiet, rfl⟩ := hopens.written
    rw [hopens.lines, hopens.constructs]
    refine h.append fun l n hawaits => ?_
    rw [C.ahead_append, (C.Level.of_quiet hquiet).ahead, Sum.elim_inl, ahead_opening hopens.first]
    cases hawaits with
    | inside hc hkind hlabel => exact .inside hc hkind hlabel
  | switches _ _ hs =>
    obtain ⟨c, c1, outer, quiet, hcs, hcs1, hkind, hkind1, hlabel1, hquiet, rfl, hls⟩ :=
      lines_of_switches hs
    rw [hls, hcs1]
    rw [hcs] at h
    refine h.append fun l n hawaits => ?_
    have hlevel := (C.Level.of_quiet hquiet).append (.cons .openElse rfl rfl .nil)
    rw [hlevel.ahead]
    cases hawaits with
    | inside hc hk hlabel =>
      cases n with
      | zero =>
        obtain rfl : c = _ := by simpa using hc
        exact .inside rfl hkind1 (hlabel1.trans hlabel)
      | succ n => exact .inside hc hk hlabel
  | closes _ _ hc =>
    obtain ⟨c, hcs, hends⟩ := lines_of_closes htidy hc
    rw [hcs] at h
    cases hends with
    | folded _ _ hls =>
      rw [hls] at h
      exact h.fold hexit
    | closed hpatched hquiet hls =>
      rw [hls]
      refine (h.patch hexit hpatched).append fun l n hawaits => ?_
      rw [C.ahead_append, (C.Level.of_quiet hquiet).ahead]
      exact hawaits.close
  | skips => exact h

/-- **All the code that follows leaves an exit in its place.** -/
theorem Exit.Spot.run {x : Exit} {code : List Instruction} (h : x.Spot r.lines r.constructs)
    (hexit : x.line.isExit = true) (htidy : r.Tidy env)
    (hrun : (run env code r).outcome = .ok r1) : x.Spot r1.lines r1.constructs := by
  refine (run_keeps (P := fun r => r.Tidy env ∧ x.Spot r.lines r.constructs) ?_ hrun ⟨htidy, h⟩).2
  rintro i r es r1 hss ⟨htidy, h⟩
  exact ⟨htidy.steps hss, h.steps hexit htidy hss⟩

/-! ## The exit of a branch -/

/-- An exit that leads to the construct a number of levels out, or out of the function. -/
inductive Exit.Targets (x : Exit) (cs : List Construct) : Prop
  /-- It returns. -/
  | body (hlevels : x.levels = cs.length) (haim : x.aim = .body) (hline : x.line.isReturn = true)
  /-- It jumps to the start of a loop. -/
  | loop {c : Construct} {l : Nat} (hc : cs[x.levels]? = some c) (hkind : c.kind = .loop)
      (haim : x.aim = .loop l) (hline : x.line.jump? = some l)
  /-- It jumps to the end of another construct. -/
  | construct {c : Construct} {l : Nat} (hc : cs[x.levels]? = some c) (hkind : c.kind ≠ .loop)
      (haim : x.aim = .construct l) (hline : x.line.jump? = some l)

/-- A branch is an instruction by which control leaves. -/
lemma isExit_of_branchDepth? (h : i.branchDepth? = some d) :
    i.op.isExit = true ∧ isPlain i.op = true := by
  unfold Instruction.branchDepth? at h
  split at h
  · rename_i hop
    simp [hop, Opcode.isExit, isPlain]
  · rename_i hop
    simp [hop, Opcode.isExit, isPlain]
  · rename_i hop
    simp [hop, Opcode.isExit, isPlain]
  · cases h

/-- **The exit of a branch.** It comes behind all lines so far, and leads to where the branch
does.

**Proof sketch.** The lines that the branch writes are quiet, but for the last one. Nothing is
behind that yet, so that a walk ahead ends where it starts, as many levels inside the construct as
the branch says. If the construct is a loop, the lines in front have its label. -/
theorem exists_spot (htidy : r.Tidy env) (hl : r.reach = .live)
    (hdepth : i.branchDepth? = some d) (hstep : r.step env i = .ok r1) :
    ∃ x : Exit, x.line.isExit = true ∧ x.levels = d ∧
      x.number = r.lines.countP isExit ∧ x.opened = r.constructs.map brace ∧
      Heads d r1.constructs x.line ∧ x.Targets r.constructs ∧
      x.Spot r1.lines r1.constructs := by
  obtain ⟨hop, hplain⟩ := isExit_of_branchDepth? hdepth
  rw [step, hl] at hstep
  obtain ⟨es, ha⟩ := acts_of_stepLive hplain hstep
  obtain ⟨line, _, ⟨quiet, hes, hquiet, hexit⟩, hheads, heq⟩ := exists_exit_of_acts ha hop
  obtain rfl := heq d hdepth
  have hlines : r1.lines = (r.lines ++ quiet) ++ line :: [] := by
    rw [lines_of_acts htidy ha, hes, append_assoc]
  have hnumber : (r.lines ++ quiet).countP isExit = r.lines.countP isExit := by
    simp [countP_eq_length_filter, hquiet.filter_isExit]
  have hopened : C.braces [] (r.lines ++ quiet) = some (r.constructs.map brace) := by
    rw [C.braces_append, braces_lines, bind_some, hquiet.braces_eq]
  have hmap := map_kind_of_acts ha
  have hspot (aim : Aim) (hleads : (⟨line, d, r.lines.countP isExit,
      r.constructs.map brace, aim⟩ : Exit).Leads r1.constructs (r.lines ++ quiet) []) :
      (⟨line, d, r.lines.countP isExit, r.constructs.map brace, aim⟩ : Exit).Spot r1.lines
        r1.constructs :=
    ⟨_, _, hlines, hnumber, hopened, hleads⟩
  cases hheads with
  | body hd hline =>
    have hlen : r1.constructs.length = r.constructs.length := by
      simpa using congrArg List.length hmap
    exact ⟨_, hexit, rfl, rfl, rfl, .body hd hline, .body (hd.trans hlen) rfl hline,
      hspot .body (.body rfl)⟩
  | @construct c l hc hlabel hline =>
    obtain ⟨c0, hc0, hkind0⟩ : ∃ c0, r.constructs[d]? = some c0 ∧ c0.kind = c.kind := by
      have hget := congrArg (·[d]?) hmap
      simp only [getElem?_map, hc, map_some] at hget
      obtain ⟨c0, hc0, hk⟩ := map_eq_some_iff.mp hget.symm
      exact ⟨c0, hc0, hk⟩
    by_cases hk : c.kind = .loop
    · obtain ⟨rest, hback⟩ := back_stem hc hk hlabel
      have hwalk : C.back d (r.lines ++ quiet) = .inr (.label l :: rest) := by
        have hlevel := (C.level_flattenAll r.scope.code.toList).append (.of_quiet hquiet)
        rw [lines_eq, append_assoc, C.back_append, body, hlevel.back, ← stem_of_acts htidy ha]
        exact hback
      exact ⟨_, hexit, rfl, rfl, rfl, .construct hc hlabel hline,
        .loop hc0 (hkind0.trans hk) rfl hline, hspot (.loop l) (.loop rfl hwalk)⟩
    · exact ⟨_, hexit, rfl, rfl, rfl, .construct hc hlabel hline,
        .construct hc0 (hkind0 ▸ hk) rfl hline,
        hspot (.construct l) (.construct rfl (.inside hc hk hlabel))⟩

/-! ## Counting exits -/

/-- The number of instructions that can be reached and by which control leaves. -/
def exits (env : Surroundings) : List Instruction → Rebuild → Nat
  | [], _ => 0
  | i :: rest, r =>
    (if r.reach.isLive && i.op.isExit then 1 else 0) +
      match r.step env i with
      | .ok r1 => exits env rest r1
      | .error _ => 0

/-- A line in front of an `else` is no exit. -/
lemma filter_isExit_of_patched {new : List Line} (h : Patched k new k1) :
    k1.filter isExit = k.filter isExit := by
  cases h with
  | same => rfl
  | stored pre line hl behind =>
    obtain ⟨s, -, hquiet⟩ := exists_of_isQuiet hl
    simp [hquiet]

/-- **An instruction writes one exit**, if it can be reached and control leaves by it. -/
theorem exits_of_steps (htidy : r.Tidy env) (hstep : Steps env i r es r1) :
    ∃ new, r1.lines.filter isExit = r.lines.filter isExit ++ new ∧
      new.length = (if r.reach.isLive && i.op.isExit then 1 else 0) ∧
      ∀ line ∈ new, ∃ d, Heads d r1.constructs line := by
  -- where control does not leave, there is none
  have hnone (hop : i.op.isExit = false) (hlines : r1.lines.filter isExit = r.lines.filter isExit) :
      ∃ new, r1.lines.filter isExit = r.lines.filter isExit ++ new ∧
        new.length = (if r.reach.isLive && i.op.isExit then 1 else 0) ∧
        ∀ line ∈ new, ∃ d, Heads d r1.constructs line :=
    ⟨[], by simp [hlines], by simp [hop], by simp⟩
  cases hstep with
  | acts hl _ ha =>
    have hlines := lines_of_acts htidy ha
    cases hop : i.op.isExit with
    | false => exact hop ▸ hnone hop (by simp [hlines, (quiet_of_acts ha hop).filter_isExit])
    | true =>
      obtain ⟨line, d, ⟨quiet, hes, hquiet, hexit⟩, hheads, -⟩ := exists_exit_of_acts ha hop
      refine ⟨[line], ?_, by simp [hl, Reach.isLive], by simpa using ⟨d, hheads⟩⟩
      simp [hlines, hes, hquiet.filter_isExit, hexit]
  | enters _ _ he =>
    obtain ⟨c, hopens⟩ := lines_of_enters he
    obtain ⟨quiet, hquiet, rfl⟩ := hopens.written
    have hopening : (opening c).filter isExit = [] := by
      have hfirst := hopens.first
      simp only [opening]
      cases hk : c.kind with
      | block | loop | ifArm => rfl
      | elseArm =>
        rw [hk] at hfirst
        cases hfirst
    refine hnone ?_ (by simp [hopens.lines, hquiet.filter_isExit, hopening])
    have hopens := he.opensConstruct
    revert hopens
    cases i.op <;> simp [Opcode.opensConstruct, Opcode.isExit]
  | switches hop _ hs =>
    obtain ⟨c, c1, outer, quiet, -, -, -, -, -, hquiet, rfl, hlines⟩ := lines_of_switches hs
    exact hnone (by simp [hop, Opcode.isExit]) (by simp [hlines, hquiet.filter_isExit, isExit])
  | closes hop _ hc =>
    refine hnone (by simp [hop, Opcode.isExit]) ?_
    obtain ⟨c, hcs, hends⟩ := lines_of_closes htidy hc
    cases hends with
    | folded _ _ hlines => simp [hlines, isExit]
    | closed hpatched hquiet hlines =>
      have hclosing : (closingLines c).filter isExit = [] := by
        rw [closingLines]
        cases c.kind <;> cases c.label <;> rfl
      simp [hlines, filter_isExit_of_patched hpatched, hquiet.filter_isExit, hclosing]
  | skips hd => exact ⟨[], by simp [lines, listing], by simp [hd, Reach.isLive], by simp⟩

/-- **The exits among the lines are those of the instructions so far.** -/
theorem countP_isExit_of_run {code : List Instruction} (htidy : r.Tidy env)
    (hrun : (run env code r).outcome = .ok r1) :
    r1.lines.countP isExit = r.lines.countP isExit + exits env code r := by
  induction code generalizing r with
  | nil =>
    rw [run, Traced.outcome_pure, Except.ok.injEq] at hrun
    rw [← hrun, exits, Nat.add_zero]
  | cons i rest ih =>
    obtain ⟨r2, hstep, hr⟩ := run_cons_eq_ok.mp hrun
    obtain ⟨es, hss⟩ := steps_of_step hstep
    obtain ⟨new, hlines, hnew, -⟩ := exits_of_steps htidy hss
    rw [ih (htidy.steps hss) hr, exits, hstep, ← hnew, countP_eq_length_filter, hlines,
      length_append, countP_eq_length_filter, Nat.add_assoc]

end Rebuild

end WasmToC

import Mathlib.Data.List.Induction
import WasmToC.Proofs.Bodies
import WasmToC.Proofs.Landing

/-!
# The control flow of a body

The braces of a body are balanced, no label is defined twice, and every jump leads to a label that
is defined. The exit that is written for a branch leads to the construct that the branch leads to.
A construct that is no loop has a label only if a branch leads to it.

## Main definitions

* `Reaches` — an instruction of a body that can be reached.
* `WrittenFor`, `Lands` — the exit that is written for a branch, and where it leads.
* `Skeleton` — the control flow of a body.

## Main results

* `Rebuild.explained_of_run` — every label comes from a loop or from a branch.
* `Reaches.lands` — every branch has its exit.
* `skeleton_of_functionText` — the control flow of every function that is translated.
-/

namespace WasmToC

open List
open C (Line Stmt Quiet Patched)
open Rebuild (Heads Exit)

/-! ## Instructions that can be reached -/

/-- An instruction of a body that can be reached, and the state in front of it. -/
structure Reaches (env : Surroundings) (code before : List Instruction) (i : Instruction)
    (r : Rebuild) : Prop where
  /-- It is an instruction of the body. -/
  here : ∃ after, code = before ++ i :: after
  /-- The instructions before it lead to the state. -/
  run : (Rebuild.run env before {}).outcome = .ok r
  /-- The next instruction can be reached. -/
  live : r.reach = .live

/-- Why there is a label. -/
inductive Origin (env : Surroundings) (code : List Instruction) (l : Nat) : Prop
  /-- It is the label of a loop. -/
  | loop {before : List Instruction} {i : Instruction} {r r1 : Rebuild} {c : Construct}
      (hreaches : Reaches env code before i r) (hop : i.op = .loop)
      (hstep : r.step env i = .ok r1) (hc : r1.constructs[0]? = some c)
      (hlabel : c.label = some l)
  /-- It is the label that another construct has since a branch to it. -/
  | branch {before : List Instruction} {i : Instruction} {r r1 : Rebuild} {d : Nat}
      {c c1 : Construct} (hreaches : Reaches env code before i r)
      (hdepth : i.branchDepth? = some d) (hc : r.constructs[d]? = some c)
      (hkind : c.kind ≠ .loop) (hstep : r.step env i = .ok r1)
      (hc1 : r1.constructs[d]? = some c1) (hlabel : c1.label = some l)

namespace Rebuild

variable {env : Surroundings} {code before : List Instruction} {i : Instruction}
  {r r1 : Rebuild} {es : List Line}

/-! ## Labels -/

/-- The label that the end of an open construct will define. -/
def awaited (c : Construct) : Option Nat :=
  match c.kind with
  | .loop => none
  | _ => c.label

/-- The labels of a state: those that its lines define, and those that the ends of its open
constructs will define. -/
def allLabels (r : Rebuild) : List Nat := C.labelsOf r.lines ++ r.constructs.filterMap awaited

lemma awaited_of_ne {c : Construct} (h : c.kind ≠ .loop) : awaited c = c.label := by
  unfold awaited
  split
  · exact absurd ‹_› h
  · rfl

lemma labelsOf_closingLines (c : Construct) : C.labelsOf (closingLines c) = (awaited c).toList := by
  unfold closingLines awaited
  cases c.kind <;> simp [C.labelsOf_cons, Line.label?]

/-- An instruction that is no part of a construct defines no label. -/
lemma labelsOf_of_acts (h : Acts env i r es r1) : C.labelsOf es = [] := by
  cases hop : i.op.isExit with
  | false => exact (quiet_of_acts h hop).labelsOf_eq
  | true =>
    obtain ⟨line, _, ⟨quiet, hlines, hquiet, hexit⟩, -⟩ := exists_exit_of_acts h hop
    have hline : C.labelsOf [line] = [] := by
      cases line with
      | run s => rfl
      | label | openBlock | openIf | openElse | close => cases hexit
    rw [hlines, C.labelsOf_append, hquiet.labelsOf_eq, hline, nil_append]

/-- A line in front of an `else` defines no label. -/
lemma labelsOf_of_patched {k new k1 : List Line} (h : Patched k new k1) :
    C.labelsOf k1 = C.labelsOf k := by
  cases h with
  | same => rfl
  | stored pre line hl behind =>
    obtain ⟨s, rfl, -⟩ := Line.exists_of_isQuiet hl
    simp [C.labelsOf_cons, Line.label?]

/-- The label of an open loop is defined in front of it. -/
lemma mem_labelsOf_stem {cs : List Construct} {c : Construct} {l : Nat} (hc : c ∈ cs)
    (hkind : c.kind = .loop) (hlabel : c.label = some l) : l ∈ C.labelsOf (stem cs) := by
  induction cs with
  | nil => cases hc
  | cons b outer ih =>
    rw [stem_cons, C.labelsOf_append, C.labelsOf_append]
    rcases mem_cons.mp hc with rfl | hc
    · simp [opening, hkind, hlabel]
    · exact mem_append_left _ (ih hc)

/-- The labels of open constructs are labels of the state. -/
lemma mem_allLabels {c : Construct} {l : Nat} (hc : c ∈ r.constructs) (hlabel : c.label = some l) :
    l ∈ r.allLabels := by
  by_cases hk : c.kind = .loop
  · refine mem_append_left _ ?_
    rw [lines_eq, C.labelsOf_append]
    exact mem_append_left _ (mem_labelsOf_stem hc hk hlabel)
  · exact mem_append_right _ (mem_filterMap.mpr ⟨c, hc, (awaited_of_ne hk).trans hlabel⟩)

/-- What an instruction does to the labels of a state. -/
inductive Labels (env : Surroundings) (code : List Instruction) (r r1 : Rebuild) : Prop
  /-- It keeps them. -/
  | kept (hlabels : r1.labels = r.labels) (hall : r1.allLabels = r.allLabels)
  /-- It adds the next one. -/
  | added (horigin : Origin env code (r.labels + 1)) (hlabels : r1.labels = r.labels + 1)
      (hall : r1.allLabels.Perm ((r.labels + 1) :: r.allLabels))

section Step

variable (hhere : ∃ after, code = before ++ i :: after)
  (hrun : (run env before {}).outcome = .ok r) (hstep : r.step env i = .ok r1)
include hhere hrun hstep

/-- A construct without a label gets one where a branch leads to it. -/
lemma Labels.of_acts (htidy : r.Tidy env) (hl : r.reach = .live)
    (ha : Acts env i r es r1) : Labels env code r r1 := by
  have hlines : C.labelsOf r1.lines = C.labelsOf r.lines := by
    rw [lines_of_acts htidy ha, C.labelsOf_append, labelsOf_of_acts ha, append_nil]
  rcases constructs_of_acts ha with ⟨-, hcs, hlabels⟩ | ⟨d, hdepth, haims⟩
  · exact .kept hlabels (by rw [allLabels, hlines, hcs, allLabels])
  generalize hcs : r1.constructs = cs1 at haims
  generalize hlabels : r1.labels = labels1 at haims
  cases haims with
  | body => exact .kept hlabels (by rw [allLabels, hlines, hcs, allLabels])
  | @construct c label _ temp hc hlabel =>
    rcases hlabel with ⟨hlabel, rfl⟩ | ⟨hnone, rfl, rfl⟩
    · refine .kept hlabels ?_
      rw [allLabels, hlines, hcs, filterMap_modify, allLabels]
      intro b hb
      obtain rfl : c = b := by simpa using hc.symm.trans hb
      simp [awaited, hlabel]
    · have hk : c.kind ≠ .loop := by
        intro hk
        have hsome := ((htidy.constructs c (mem_of_getElem? hc)).loop hk).1
        simp [hnone] at hsome
      have hc1 : r1.constructs[d]? = some { c with label := some (r.labels + 1), temp } := by
        rw [hcs, getElem?_modify_of hc, if_pos rfl]
      refine .added (.branch ⟨hhere, hrun, hl⟩ hdepth hc hk hstep hc1 rfl) hlabels ?_
      rw [allLabels, hlines, hcs]
      refine (List.Perm.append_left _ (perm_filterMap_modify hc ?_ ?_)).trans perm_middle
      · exact (awaited_of_ne hk).trans hnone
      · exact awaited_of_ne (c := { c with label := some (r.labels + 1), temp }) hk

/-- A loop defines its label. -/
lemma Labels.of_enters {res : Option ValueType} (hl : r.reach = .live)
    (he : Enters r res i.op es r1) : Labels env code r r1 := by
  obtain ⟨c, hopens⟩ := lines_of_enters he
  obtain ⟨quiet, hquiet, rfl⟩ := hopens.written
  have hall : r1.allLabels = C.labelsOf r.lines ++
      (C.labelsOf (opening c) ++ (c :: r.constructs).filterMap awaited) := by
    rw [allLabels, hopens.lines, hopens.constructs]
    simp [hquiet.labelsOf_eq]
  rcases hopens.label with ⟨hkind, hlabel, hlabels⟩ | ⟨hkind, hlabel, hlabels⟩
  · have hop : opener .loop = i.op := hkind ▸ hopens.opener
    refine .added (.loop ⟨hhere, hrun, hl⟩ hop.symm hstep ?_ hlabel) hlabels ?_
    · rw [hopens.constructs]
      rfl
    · have hnone : awaited c = none := by simp [awaited, hkind]
      rw [hall, filterMap_cons_none hnone]
      simp only [opening, hkind, hlabel]
      exact perm_middle
  · have hopening : C.labelsOf (opening c) = [] := by
      have hfirst := hopens.first
      rw [opening]
      cases hk : c.kind with
      | loop => exact absurd hk hkind
      | block | ifArm => rfl
      | elseArm =>
        rw [hk] at hfirst
        cases hfirst
    refine .kept hlabels ?_
    rw [hall, hopening, filterMap_cons_none ((awaited_of_ne hkind).trans hlabel)]
    rfl

/-- **Every instruction keeps the labels, or adds the next one.** -/
theorem Labels.of_step (htidy : r.Tidy env) : Labels env code r r1 := by
  obtain ⟨es, hss⟩ := steps_of_step hstep
  cases hss with
  | acts hl _ ha => exact Labels.of_acts hhere hrun hstep htidy hl ha
  | enters hl _ he => exact Labels.of_enters hhere hrun hstep hl he
  | switches _ _ hs =>
    refine .kept (labels_of_switches hs) ?_
    obtain ⟨c, c1, outer, quiet, hcs, hcs1, hkind, hkind1, hlabel, hquiet, rfl, hlines⟩ :=
      lines_of_switches hs
    rw [allLabels, allLabels, hlines, hcs, hcs1, filterMap_cons, filterMap_cons,
      awaited_of_ne hkind, awaited_of_ne hkind1, hlabel]
    simp [hquiet.labelsOf_eq, C.labelsOf_cons, Line.label?]
  | closes _ _ hc =>
    refine .kept (labels_of_closes hc) ?_
    obtain ⟨c, hcs, hends⟩ := lines_of_closes htidy hc
    have hopen : r.constructs.filterMap awaited =
        (awaited c).toList ++ r1.constructs.filterMap awaited := by
      rw [hcs, filterMap_cons]
      cases awaited c <;> rfl
    rw [allLabels, allLabels, hopen]
    cases hends with
    | folded _ hlabel hlines =>
      have hnone : awaited c = none := by
        unfold awaited
        split <;> simp [hlabel]
      simp [hlines, hnone, C.labelsOf_cons, Line.label?]
    | closed hpatched hquiet hlines =>
      simp [hlines, labelsOf_of_patched hpatched, hquiet.labelsOf_eq, labelsOf_closingLines]
  | skips => exact .kept rfl rfl

end Step

/-- The labels of a state are distinct, each has its origin in the code, and jumps lead to them. -/
structure Explained (env : Surroundings) (code : List Instruction) (r : Rebuild) : Prop where
  /-- No label is there twice. -/
  nodup : r.allLabels.Nodup
  /-- Labels that are not there yet are greater. -/
  le : ∀ l ∈ r.allLabels, l ≤ r.labels
  /-- A label comes from a loop or from a branch. -/
  origin : ∀ l ∈ r.allLabels, Origin env code l
  /-- A jump leads to a label. -/
  jumps : ∀ l ∈ C.jumpsOf r.lines, l ∈ r.allLabels

lemma isExit_of_jump? {line : Line} {l : Nat} (h : line.jump? = some l) : line.isExit = true := by
  unfold Line.jump? at h
  split at h <;> first | rfl | cases h

/-- **Every instruction keeps labels explained.** -/
theorem Explained.step (h : r.Explained env code) (htidy : r.Tidy env)
    (hhere : ∃ after, code = before ++ i :: after)
    (hrun : (run env before {}).outcome = .ok r) (hstep : r.step env i = .ok r1) :
    r1.Explained env code := by
  have hmem {l : Nat} (hl : l ∈ r.allLabels) : l ∈ r1.allLabels := by
    cases Labels.of_step hhere hrun hstep htidy with
    | kept _ hall => exact hall ▸ hl
    | added _ _ hall => exact hall.mem_iff.mpr (mem_cons_of_mem _ hl)
  have hjumps : ∀ l ∈ C.jumpsOf r1.lines, l ∈ r1.allLabels := by
    intro l hl
    obtain ⟨line, hline, hjump⟩ := mem_filterMap.mp hl
    obtain ⟨es, hss⟩ := steps_of_step hstep
    obtain ⟨new, hlines, -, hheads⟩ := exits_of_steps htidy hss
    have hexit := mem_filter.mpr ⟨hline, isExit_of_jump? hjump⟩
    rw [hlines] at hexit
    rcases mem_append.mp hexit with hold | hnew
    · exact hmem (h.jumps l (mem_filterMap.mpr ⟨line, mem_of_mem_filter hold, hjump⟩))
    · obtain ⟨d, hheads⟩ := hheads line hnew
      cases hheads with
      | body _ hreturn =>
        unfold Line.isReturn at hreturn
        split at hreturn <;> simp_all [Line.jump?]
      | construct hc hlabel hline =>
        obtain rfl : l = _ := by simpa using hjump.symm.trans hline
        exact mem_allLabels (mem_of_getElem? hc) hlabel
  cases Labels.of_step hhere hrun hstep htidy with
  | kept hlabels hall =>
    exact ⟨hall ▸ h.nodup, by rw [hall, hlabels]; exact h.le, by rw [hall]; exact h.origin, hjumps⟩
  | added horigin _ hall =>
    refine ⟨hall.nodup_iff.mpr (nodup_cons.mpr ⟨fun hl => ?_, h.nodup⟩), fun l hl => ?_,
      fun l hl => ?_, hjumps⟩
    · exact absurd (h.le _ hl) (by omega)
    · rcases mem_cons.mp (hall.mem_iff.mp hl) with rfl | hl
      · omega
      · have hle := h.le l hl
        omega
    · rcases mem_cons.mp (hall.mem_iff.mp hl) with rfl | hl
      · exact horigin
      · exact h.origin l hl

/-- **Every label comes from a loop or from a branch**, and there is none twice. -/
theorem explained_of_run {after : List Instruction} (hcode : code = before ++ after)
    (hrun : (run env before {}).outcome = .ok r) : r.Explained env code := by
  induction before using List.reverseRecOn generalizing after r with
  | nil =>
    cases hrun
    have hnone : allLabels {} = [] := rfl
    exact ⟨by simp [hnone], by simp [hnone], by simp [hnone], nofun⟩
  | append_singleton before i ih =>
    obtain ⟨r2, hbefore, hlast⟩ := run_append_eq_ok.mp hrun
    obtain ⟨r3, hstep, hnil⟩ := run_cons_eq_ok.mp hlast
    obtain rfl : r3 = r := by simpa [run] using hnil
    have hcode' : code = before ++ i :: after := by simpa using hcode
    exact (ih hcode' hbefore).step (tidy_empty.run hbefore) ⟨after, hcode'⟩ hbefore hstep

end Rebuild

/-! ## Branches -/

/-- The exit that is written for an instruction, and the lines in front of it: there are as many
exits in front of it as instructions before by which control leaves, and the open braces are those
of the open constructs. -/
structure WrittenFor (env : Surroundings) (before : List Instruction) (r : Rebuild)
    (pre : List Line) (line : Line) : Prop where
  /-- The line is an exit. -/
  exit : line.isExit = true
  /-- The exits in front of it are counted. -/
  number : pre.countP Line.isExit = Rebuild.exits env before {}
  /-- The open braces are those of the open constructs. -/
  opened : C.braces [] pre = some (r.constructs.map Rebuild.brace)

/-- Where an exit leads to, among the lines in front of it and behind it: to the construct a number
of levels out. -/
inductive Lands (levels : Nat) (cs : List Construct) (pre : List Line) (line : Line)
    (post : List Line) : Prop
  /-- There is none, and the function returns. -/
  | body (hlevels : levels = cs.length) (hline : line.isReturn = true)
  /-- It is a loop, and the label is defined right in front of the brace that opens it. -/
  | loop {c : Construct} {l : Nat} {rest : List Line} (hc : cs[levels]? = some c)
      (hkind : c.kind = .loop) (hline : line.jump? = some l)
      (hback : C.back levels pre = .inr (.label l :: rest))
  /-- It is another construct, and the label is defined right behind the brace that closes it. -/
  | construct {c : Construct} {l : Nat} {rest : List Line} (hc : cs[levels]? = some c)
      (hkind : c.kind ≠ .loop) (hline : line.jump? = some l)
      (hahead : C.ahead levels post = .inr (.label l :: rest))

/-- An exit lands where it leads to, once no construct is open. -/
lemma Rebuild.Exit.Stands.lands {x : Exit} {cs : List Construct} {pre post : List Line}
    (h : x.Stands [] pre post) (htargets : x.Targets cs) :
    Lands x.levels cs pre x.line post := by
  cases htargets with
  | body hlevels _ hl => exact .body hlevels hl
  | loop hc hk haim hl =>
    cases h.leads with
    | body haim' | construct haim' => cases haim.symm.trans haim'
    | loop haim' hback =>
      cases haim.symm.trans haim'
      exact .loop hc hk hl hback
  | construct hc hk haim hl =>
    cases h.leads with
    | body haim' | loop haim' => cases haim.symm.trans haim'
    | construct haim' hahead =>
      cases haim.symm.trans haim'
      generalize hfound : C.ahead x.levels post = found at hahead
      cases hahead with
      | inside hnone => cases hnone
      | past rest => exact .construct hc hk hl hfound

/-- An instruction of a body that has been read has been read, and so have those behind it. -/
lemma Reaches.exists_step {env : Surroundings} {code before : List Instruction}
    {i : Instruction} {r r1 : Rebuild} (h : Reaches env code before i r)
    (hrun : (Rebuild.run env code {}).outcome = .ok r1) :
    ∃ r2 after, r.step env i = .ok r2 ∧ (Rebuild.run env after r2).outcome = .ok r1 := by
  obtain ⟨after, rfl⟩ := h.here
  obtain ⟨r', hbefore, hr⟩ := Rebuild.run_append_eq_ok.mp hrun
  obtain rfl : r = r' := by simpa using h.run.symm.trans hbefore
  obtain ⟨r2, hstep, hafter⟩ := Rebuild.run_cons_eq_ok.mp hr
  exact ⟨r2, after, hstep, hafter⟩

/-- **Every branch that can be reached has its exit**, which leads to where the branch does. -/
theorem Reaches.lands {env : Surroundings} {code before : List Instruction} {i : Instruction}
    {r r1 r2 : Rebuild} {d : Nat} (h : Reaches env code before i r)
    (hd : i.branchDepth? = some d) (hrun : (Rebuild.run env code {}).outcome = .ok r1)
    (hstep : r.step env i = .ok r2) :
    ∃ line, Heads d r2.constructs line ∧ ∀ more, r1.constructs = [] →
      ∃ pre post, r1.lines ++ more = pre ++ line :: post ∧ WrittenFor env before r pre line ∧
        Lands d r.constructs pre line post := by
  obtain ⟨_, after, hstep', hafter⟩ := h.exists_step hrun
  obtain rfl := Except.ok.inj (hstep.symm.trans hstep')
  have htidy : r.Tidy env := Rebuild.tidy_empty.run h.run
  obtain ⟨es, hss⟩ := Rebuild.steps_of_step hstep
  obtain ⟨x, hexit, rfl, hnumber, hopened, hheads, htargets, hspot⟩ :=
    Rebuild.exists_spot htidy h.live hd hstep
  refine ⟨x.line, hheads, fun more hcs => ?_⟩
  have hlast := hspot.run hexit (htidy.steps hss) hafter
  rw [hcs] at hlast
  have hmore : x.Spot (r1.lines ++ more) [] := hlast.append fun l n hawaits => by
    cases hawaits with
    | inside hnone => cases hnone
  obtain ⟨pre, post, hlines, hs⟩ := hmore
  have hcount := Rebuild.countP_isExit_of_run Rebuild.tidy_empty h.run
  refine ⟨pre, post, hlines, ⟨hexit, ?_, hs.opened.trans (by rw [hopened])⟩, hs.lands htargets⟩
  rw [hs.number, hnumber, hcount]
  simp [Rebuild.lines_eq, Rebuild.stem, Rebuild.trunk, Rebuild.body]

/-! ## Whole functions -/

/-- The control flow of the lines for a body. -/
structure Skeleton (env : Surroundings) (code : List Instruction) (k : List Line) : Prop where
  /-- Braces are balanced and properly nested. -/
  braces : C.braces [] k = some []
  /-- No label is defined twice. -/
  nodup : (C.labelsOf k).Nodup
  /-- Every jump leads to one label that is defined. -/
  defined : ∀ l ∈ C.jumpsOf k, (C.labelsOf k).count l = 1
  /-- Every branch that can be reached has its exit, which leads to where the branch does. -/
  lands : ∀ before i r d, Reaches env code before i r → i.branchDepth? = some d →
    ∃ pre line post, k = pre ++ line :: post ∧ WrittenFor env before r pre line ∧
      Lands d r.constructs pre line post
  /-- Every label is that of a loop, or a branch that can be reached leads to it. -/
  needed : ∀ l ∈ C.labelsOf k, (∃ before i r r1 c, Reaches env code before i r ∧ i.op = .loop ∧
      r.step env i = .ok r1 ∧ r1.constructs[0]? = some c ∧ c.label = some l) ∨
    ∃ before i r d c pre line post, Reaches env code before i r ∧
      i.branchDepth? = some d ∧ r.constructs[d]? = some c ∧ c.kind ≠ .loop ∧
      k = pre ++ line :: post ∧ WrittenFor env before r pre line ∧ line.jump? = some l

section Rebuilt

variable {m : Module} {pos : Nat} {f : C.FunctionDef} {fn : Function} {t : FuncType}
  {r r1 : Rebuild} (h : Rebuilt m pos f fn t r r1)
include h

/-- The lines of a function are those of its instructions, and perhaps a return. -/
lemma Rebuilt.bodyLines_eq :
    r.constructs = [] ∧ ∃ more, f.bodyLines = r.lines ++ more ∧ C.labelsOf more = [] ∧
      C.jumpsOf more = [] := by
  have hcs : r.constructs = [] := eq_nil_of_length_eq_zero h.passes.length_constructs
  have hls : r.lines = r.body := by
    rw [Rebuild.lines_eq, hcs]
    rfl
  have hbody : f.bodyLines = r1.body := congrArg Stmt.flattenAll h.body
  refine ⟨hcs, ?_⟩
  rw [hbody, hls]
  cases h.finishes with
  | unreached | plain => exact ⟨[], by simp, rfl, rfl⟩
  | value => exact ⟨_, Rebuild.body_emit rfl, rfl, rfl⟩

/-- The labels of a function are explained when its instructions have been read. -/
lemma Rebuilt.explained : r.Explained (surroundings m (m.importedFunctions + pos) fn t) fn.code ∧
      C.labelsOf f.bodyLines = r.allLabels := by
  obtain ⟨hcs, more, hlines, hmore, -⟩ := h.bodyLines_eq
  refine ⟨Rebuild.explained_of_run (append_nil fn.code).symm h.run, ?_⟩
  rw [hlines, C.labelsOf_append, hmore, Rebuild.allLabels, hcs]
  rfl

/-- **No label is defined twice.** -/
theorem Rebuilt.nodup_labels : (C.labelsOf f.bodyLines).Nodup := by
  obtain ⟨hexplained, hlabels⟩ := h.explained
  exact hlabels ▸ hexplained.nodup

/-- **The control flow of a function that has been rebuilt.** -/
theorem Rebuilt.skeleton :
    Skeleton (surroundings m (m.importedFunctions + pos) fn t) fn.code f.bodyLines := by
  obtain ⟨hcs, more, hlines, -, hjumps⟩ := h.bodyLines_eq
  obtain ⟨hexplained, hlabels⟩ := h.explained
  refine ⟨?_, h.nodup_labels, fun l hl => ?_, ?_, fun l hl => ?_⟩
  · have hbraces := C.braces_flattenAll [] [] f.body
    rwa [append_nil] at hbraces
  · rw [hlines, C.jumpsOf_append, hjumps, append_nil] at hl
    have hle : (C.labelsOf f.bodyLines).count l ≤ 1 := nodup_iff_count.mp h.nodup_labels l
    have hpos := count_pos_iff.mpr (hlabels ▸ hexplained.jumps l hl)
    omega
  · intro before i r' d hreaches hdepth
    obtain ⟨r2, _, hstep, -⟩ := hreaches.exists_step h.run
    obtain ⟨line, -, hplace⟩ := hreaches.lands hdepth h.run hstep
    obtain ⟨pre, post, hpre, hwritten, hlands⟩ := hplace more hcs
    exact ⟨pre, line, post, hlines.trans hpre, hwritten, hlands⟩
  · cases hexplained.origin l (hlabels ▸ hl) with
    | loop hreaches hop hstep hc hlabel =>
      exact .inl ⟨_, _, _, _, _, hreaches, hop, hstep, hc, hlabel⟩
    | @branch before i r' r2 d c c1 hreaches hdepth hc hkind hstep hc1 hlabel =>
      obtain ⟨line, hheads, hplace⟩ := hreaches.lands hdepth h.run hstep
      obtain ⟨pre, post, hpre, hwritten, -⟩ := hplace more hcs
      have hline : line.jump? = some l := by
        cases hheads with
        | body hd => simp [hd] at hc1
        | construct hc2 hl2 hline =>
          obtain rfl : _ = c1 := by simpa using hc2.symm.trans hc1
          exact hline.trans (hl2.symm.trans hlabel)
      exact .inr ⟨before, i, r', d, c, pre, line, post, hreaches, hdepth, hc, hkind,
        hlines.trans hpre, hwritten, hline⟩

end Rebuilt

end WasmToC

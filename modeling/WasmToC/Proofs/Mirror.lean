import Mathlib.Data.List.Perm.Subperm
import WasmToC.Proofs.Completeness
import WasmToC.Proofs.Interference

/-!
# Lines and trees

The state of reconstruction, seen as the state of writing line by line.

## Main definitions

* `Follows` — two computations that come to related results or to the same error.
* `Rebuild.listing`, `Rebuild.labelsFor` — the lines and labels of a state of
  reconstruction.
* `Relabels` — what a change of the label or temporary of a construct keeps.
* `Mirrors` — a state of writing that shows what a state of reconstruction holds.
-/

namespace WasmToC

open List
open C (Line Stmt)

variable {i : Nat} {s : Stmt}

/-! ## Computations that follow each other -/

/-- Two computations that come to related results or to the same error, unless the second one may
stop and does so. -/
inductive Follows {α β : Type} (stops : Prop) (R : α → β → Prop) :
    Except Failure α → Except Failure β → Prop
  /-- Both have a result. -/
  | ok {a : α} {b : β} (h : R a b) : Follows stops R (.ok a) (.ok b)
  /-- Both refuse for the same reason. -/
  | error (e : Error) : Follows stops R (.error (.error e)) (.error (.error e))
  /-- The second one stops. -/
  | stop {x : Except Failure α} (h : stops) : Follows stops R x (.error .abort)

namespace Follows

variable {α β γ δ : Type} {stops : Prop} {R : α → β → Prop} {S : γ → δ → Prop}
  {y : Except Failure β} {g : β → Except Failure δ}

/-- Sequences follow each other if their parts do. -/
lemma bind {x : Except Failure α} {f : α → Except Failure γ} (h : Follows stops R x y)
    (hfg : ∀ a b, R a b → Follows stops S (f a) (g b)) : Follows stops S (x >>= f) (y >>= g) := by
  cases h with
  | ok h => exact hfg _ _ h
  | error e => exact .error e
  | stop h => exact .stop h

/-- A part that succeeds can be left out on the side of the writer. -/
lemma bind_right {x : Except Failure γ} {b : β} (hy : y = .ok b) (h : Follows stops S x (g b)) :
    Follows stops S x (y >>= g) := by
  rw [hy]
  exact h

/-- The result of the first one is what it came to. -/
lemma with_eq {x : Except Failure α} (h : Follows stops R x y) :
    Follows stops (fun a b => x = .ok a ∧ R a b) x y := by
  cases h with
  | ok h => exact .ok ⟨rfl, h⟩
  | error e => exact .error e
  | stop h => exact .stop h

lemma ok_right {a : α} {b : β} (hy : y = .ok b) (h : R a b) : Follows stops R (.ok a) y := by
  rw [hy]
  exact .ok h

lemma refuse (site : Site) (fault : BodyFault) :
    Follows stops R (site.refuse fault) (site.refuse fault) :=
  .error _

lemma need {part : Option γ} (site : Site) (fault : BodyFault) :
    Follows stops (fun a b => part = some a ∧ a = b) (site.need part fault)
      (site.need part fault) := by
  cases part with
  | none => exact .error _
  | some a => exact .ok ⟨rfl, rfl⟩

/-- An instruction that takes a part of its immediate. -/
lemma of_need {part : Option α} (site : Site) (fault : BodyFault) {f : α → Except Failure γ}
    {g : α → Except Failure δ} (h : ∀ a, Follows stops S (f a) (g a)) :
    Follows stops S (site.need part fault >>= f) (site.need part fault >>= g) := by
  refine (need site fault).bind ?_
  rintro a _ ⟨-, rfl⟩
  exact h a

end Follows

/-! ## Checked access -/

namespace Checked

variable {α : Type}

lemma get_ok {l : List α} {a : α} (h : l[i]? = some a) : get l i = .ok a := by
  rw [get, h]

lemma set_ok {l : List α} (h : i < l.length) (a : α) : set l i a = .ok (l.set i a) :=
  if_pos h

lemma insert_ok {l : List α} (h : i ≤ l.length) (a : α) : insert l i a = .ok (l.insertIdx i a) :=
  if_pos h

lemma slice_ok {l : List α} {start : Nat} (h : start ≤ l.length) :
    slice l start = .ok (l.drop start) :=
  if_pos h

lemma sub_ok {a b : Nat} (h : b ≤ a) : sub a b = .ok (a - b) := if_pos h

/-- All operands that a template takes are there if enough are given. -/
lemma operands_ok {args : List α} {t : C.Template} (h : t.arity ≤ args.length) :
    ∃ taken, operands args t = .ok taken := by
  induction t with
  | nil => exact ⟨[], rfl⟩
  | cons piece rest ih =>
    cases piece with
    | char c => exact ih h
    | hole i =>
      rw [C.Template.arity] at h
      obtain ⟨others, hothers⟩ := ih (by omega)
      have hi : args[i]? = some args[i] := getElem?_eq_getElem (by omega)
      refine ⟨args[i] :: others, ?_⟩
      rw [operands, get_ok hi, hothers]
      rfl

end Checked

/-! ## Lines with their indentation -/

namespace C

/-- Lines with their indentation, the first of which stands at a given depth. -/
def nest : (d : Nat) → List Line → List (Nat × Line)
  | _, [] => []
  | d, .label l :: k => (d, .label l) :: nest d k
  | d, .openBlock :: k => (d, .openBlock) :: nest (d + 1) k
  | d, .openIf cond :: k => (d, .openIf cond) :: nest (d + 1) k
  | d, .openElse :: k => (d - 1, .openElse) :: nest d k
  | d, .close :: k => (d - 1, .close) :: nest (d - 1) k
  | d, .run s :: k => (d, .run s) :: nest d k

/-- The depth behind lines. -/
def depthAfter : (d : Nat) → List Line → Nat
  | d, [] => d
  | d, .openBlock :: k => depthAfter (d + 1) k
  | d, .openIf _ :: k => depthAfter (d + 1) k
  | d, .close :: k => depthAfter (d - 1) k
  | d, .label _ :: k => depthAfter d k
  | d, .openElse :: k => depthAfter d k
  | d, .run _ :: k => depthAfter d k

lemma nest_append (d : Nat) (k k' : List Line) :
    nest d (k ++ k') = nest d k ++ nest (depthAfter d k) k' := by
  fun_induction nest d k <;> simp_all [nest, depthAfter]

lemma depthAfter_append (d : Nat) (k k' : List Line) :
    depthAfter d (k ++ k') = depthAfter (depthAfter d k) k' := by
  fun_induction depthAfter d k <;> simp_all [depthAfter]

@[simp] lemma length_nest (d : Nat) (k : List Line) : (nest d k).length = k.length := by
  fun_induction nest d k <;> simp_all

/-- The layout of lines is their text, each at its indentation. -/
lemma layout_eq (n : Naming) (d : Nat) (k : List Line) :
    layout n d k = (nest d k).flatMap fun p => p.2.text n p.1 := by
  fun_induction nest d k <;> simp_all [layout, Line.text, labelName, ifLine]

lemma Nested.depthAfter {ls : List Line} (h : Nested ls) (d : Nat) : depthAfter d ls = d := by
  induction h generalizing d with
  | nil | label | run => rfl
  | append _ _ h h' => rw [depthAfter_append, h, h']
  | block _ h | onlyIf _ _ h => simp [C.depthAfter, depthAfter_append, h]
  | ifElse _ _ _ h h' => simp [C.depthAfter, depthAfter_append, h, h']

lemma depthAfter_flattenAll (d : Nat) (ss : List Stmt) : depthAfter d (Stmt.flattenAll ss) = d :=
  (nested_flattenAll ss).depthAfter d

end C

/-! ## The lines and labels of a state -/

namespace Rebuild

/-- The operands that wait outside the innermost construct, last one first. -/
def outside (cs : List Construct) : List Pending := cs.flatMap fun c => c.enclosing.values

/-- The lines that open a construct, with its first arm where the second is open. -/
def opening (c : Construct) : List Line :=
  match c.kind with
  | .block => [.openBlock]
  | .loop => [.label (c.label.getD 0), .openBlock]
  | .ifArm cond => [.openIf cond.expr]
  | .elseArm cond thenCode _ _ =>
    .openIf cond.expr :: Stmt.flattenAll thenCode.toList ++ [.openElse]

/-- The lines in front of the innermost scope. -/
def trunk : List Construct → List (Nat × Line)
  | [] => []
  | c :: outer =>
    trunk outer ++ C.nest (outer.length + 1) (Stmt.flattenAll c.enclosing.code.toList ++ opening c)

/-- The lines of a state. -/
def listing (r : Rebuild) : List (Nat × Line) :=
  trunk r.constructs ++ C.nest (r.constructs.length + 1) (Stmt.flattenAll r.scope.code.toList)

/-- The number of lines in front of a construct. -/
def front (c : Construct) (outer : List Construct) : Nat :=
  (trunk outer).length + (Stmt.flattenAll c.enclosing.code.toList).length

/-- What the label of a construct stands for. -/
def labelKind (c : Construct) (outer : List Construct) : LabelKind :=
  match c.kind with
  | .block => .block
  | .loop => .loop
  | .ifArm cond => .ifArm cond (front c outer)
  | .elseArm cond thenCode thenValue thenLive =>
    .elseArm cond (front c outer)
      (front c outer + 1 + (Stmt.flattenAll thenCode.toList).length) thenValue thenLive

/-- The label of a construct. -/
def labelFor (c : Construct) (outer : List Construct) : Label where
  kind := labelKind c outer
  result := c.result
  id := c.label
  temp := c.temp
  base := (outside (c :: outer)).length

/-- The labels of open constructs and of the function body, innermost first. -/
def labelsFor (result : Option ValueType) : List Construct → List Label
  | [] => [{ kind := .body, result, base := 0 }]
  | c :: outer => labelFor c outer :: labelsFor result outer

/-- All operands, last one first. -/
def operands (r : Rebuild) : List Pending := r.scope.values ++ outside r.constructs

/-- The labels of constructs in code that cannot be reached. -/
def skipped (r : Rebuild) : List Label :=
  match r.reach with
  | .live => []
  | .dead nested =>
    List.replicate nested { kind := .dead, result := none, base := r.operands.length }

end Rebuild

open Rebuild

/-- Entries that have been written since an earlier state, all of them by one instruction. -/
structure Writes (op : Opcode) (past : Writer) (lines : List (Nat × Line))
    (journal written : List Entry) : Prop where
  /-- They are on record. -/
  journal : journal = past.journal ++ written
  /-- All lines are old or on record. -/
  lines : (lines.map Prod.snd).Subperm (past.lines.map Prod.snd ++ written.map Entry.line)
  /-- The instruction is on record. -/
  instruction : ∀ e ∈ written, e.op = op
  /-- Nothing that has been written disturbs an operand that waited, indirect calls apart. -/
  safe : op ≠ .callIndirect → ∀ e ∈ written, e.IsSafe

/-- The turn of one instruction. -/
structure Turn where
  /-- The result type of the function. -/
  result : Option ValueType
  /-- The instruction. -/
  op : Opcode
  /-- The state of writing before it. -/
  past : Writer

/-- A state of writing that shows what a state of reconstruction holds, operands apart. -/
structure Shows (T : Turn) (r : Rebuild) (w : Writer) : Prop where
  /-- Labels are those of the open constructs. -/
  labels : w.labels = (labelsFor T.result r.constructs).reverse ++ r.skipped
  /-- Lines are those of the statements. -/
  lines : w.lines = r.listing
  /-- Temporaries are the same. -/
  temps : w.temps = r.temps
  /-- So are the numbers of labels. -/
  nextLabel : w.nextLabel = r.labels
  /-- Indentation is the number of open constructs. -/
  depth : w.depth = r.constructs.length + 1
  /-- Both can reach the next instruction, or none. -/
  dead : w.dead = !r.reach.isLive
  /-- What the instruction has written is known. -/
  writes : ∃ written, Writes T.op T.past w.lines w.journal written
  /-- The instruction at work is known. -/
  op : w.op = T.op

/-- A state of writing that shows what a state of reconstruction holds. -/
structure Mirrors (T : Turn) (r : Rebuild) (w : Writer) : Prop extends Shows T r w where
  /-- Operands are the same. -/
  stack : w.stack = r.operands.reverse

/-- A state that shows another one in which the next instruction can be reached, with what is known
of its operands. -/
structure Active (T : Turn) (r : Rebuild) (w : Writer) : Prop extends Mirrors T r w where
  /-- The next instruction can be reached. -/
  live : r.reach = .live
  /-- Footprints cover their expressions. -/
  sound : ∀ v ∈ r.scope.values, v.Sound
  /-- What waits outside is stable. -/
  stable : ∀ v ∈ outside r.constructs, v.uses.isStable = true

variable {T : Turn} {result : Option ValueType} {r r1 : Rebuild} {w : Writer}

/-! ## Labels -/

lemma skipped_of_flat (h : r.Flat) : r.skipped = [] := by
  rcases h with h | h <;> rw [skipped, h]
  rfl

@[simp] lemma length_labelsFor (cs : List Construct) :
    (labelsFor result cs).length = cs.length + 1 := by
  induction cs with
  | nil => rfl
  | cons c outer ih => rw [labelsFor, length_cons, ih, length_cons]

/-- The label of the construct at a depth. -/
lemma getElem?_labelsFor {cs : List Construct} {d : Nat} {c : Construct} (hc : cs[d]? = some c) :
    (labelsFor result cs)[d]? = some (labelFor c (cs.drop (d + 1))) := by
  induction cs generalizing d with
  | nil => simp at hc
  | cons b outer ih =>
    cases d with
    | zero =>
      cases hc
      rfl
    | succ d => exact ih hc

/-- The outermost label is that of the function body. -/
lemma getElem?_labelsFor_length (cs : List Construct) :
    (labelsFor result cs)[cs.length]? = some { kind := .body, result, base := 0 } := by
  induction cs with
  | nil => rfl
  | cons c outer ih => exact ih

/-- A list that is changed at an index, from its other end. -/
lemma set_reverse {α : Type} {l : List α} (hi : i < l.length) (a : α) :
    l.reverse.set (l.length - 1 - i) a = (l.set i a).reverse := by
  refine ext_getElem (by simp) fun j hj hj' => ?_
  rw [length_set, length_reverse] at hj
  rw [getElem_set, getElem_reverse, getElem_reverse, getElem_set]
  simp only [length_set]
  by_cases hij : i = l.length - 1 - j
  · rw [if_pos hij, if_pos (by omega)]
  · rw [if_neg hij, if_neg (by omega)]

/-- What a change of the label or temporary of a construct keeps. -/
structure Relabels (c c' : Construct) : Prop where
  /-- What stands in front of it. -/
  enclosing : c'.enclosing = c.enclosing
  /-- Its kind. -/
  kind : c'.kind = c.kind
  /-- Its result type. -/
  result : c'.result = c.result
  /-- The lines that open it. -/
  opening : opening c' = opening c

section Modify

variable {cs : List Construct} {d : Nat} {c : Construct} {f : Construct → Construct}

/-- What waits outside does not depend on labels and temporaries. -/
lemma outside_modify (hc : cs[d]? = some c) (henclosing : (f c).enclosing = c.enclosing) :
    outside (cs.modify d f) = outside cs := by
  induction cs generalizing d with
  | nil => simp at hc
  | cons b outer ih =>
    cases d with
    | zero =>
      obtain rfl : b = c := by simpa using hc
      simp [outside, henclosing]
    | succ d =>
      simp only [modify_succ_cons, outside, flatMap_cons]
      exact congrArg _ (ih hc)

/-- Nor do the lines in front of the innermost scope. -/
lemma trunk_modify (hc : cs[d]? = some c) (hf : Relabels c (f c)) :
    trunk (cs.modify d f) = trunk cs := by
  induction cs generalizing d with
  | nil => simp at hc
  | cons b outer ih =>
    cases d with
    | zero =>
      obtain rfl : b = c := by simpa using hc
      simp [trunk, hf.enclosing, hf.opening]
    | succ d =>
      rw [modify_succ_cons, trunk, trunk, ih hc, length_modify]

/-- A change of the label or temporary of a construct is one of its label. -/
lemma labelsFor_modify (hc : cs[d]? = some c) (hf : Relabels c (f c)) :
    labelsFor result (cs.modify d f) = (labelsFor result cs).set d
        { labelFor c (cs.drop (d + 1)) with id := (f c).label, temp := (f c).temp } := by
  induction cs generalizing d with
  | nil => simp at hc
  | cons b outer ih =>
    cases d with
    | zero =>
      obtain rfl : b = c := by simpa using hc
      simp [labelsFor, labelFor, labelKind, front, outside, hf.enclosing, hf.kind, hf.result]
    | succ d =>
      rw [getElem?_cons_succ] at hc
      have hhead : labelFor b (outer.modify d f) = labelFor b outer := by
        have hfront : front b (outer.modify d f) = front b outer := by
          rw [front, trunk_modify hc hf, front]
        have houtside : outside (b :: outer.modify d f) = outside (b :: outer) := by
          rw [outside, flatMap_cons, ← outside, outside_modify hc hf.enclosing]
          rfl
        rw [labelFor, labelFor, labelKind, labelKind, hfront, houtside]
      rw [modify_succ_cons, labelsFor, labelsFor, hhead, ih hc]
      rfl

end Modify

lemma Shows.labels_eq (h : Shows T r w) (hflat : r.Flat) :
    w.labels = (labelsFor T.result r.constructs).reverse := by
  rw [h.labels, skipped_of_flat hflat, append_nil]

/-- Labels stay where constructs do. -/
lemma Shows.labels_of_constructs (h : Shows T r w) (hflat : r.Flat) (hflat1 : r1.Flat)
    (hcs : r1.constructs = r.constructs) :
    w.labels = (labelsFor T.result r1.constructs).reverse ++ r1.skipped := by
  rw [h.labels_eq hflat, skipped_of_flat hflat1, append_nil, hcs]

/-- The label that a depth leads to. -/
lemma Shows.getElem?_labels (h : Shows T r w) (hflat : r.Flat) {d : Nat}
    (hd : d ≤ r.constructs.length) :
    w.labels[r.constructs.length - d]? = (labelsFor T.result r.constructs)[d]? := by
  have hlt : r.constructs.length - d < (labelsFor T.result r.constructs).length := by
    rw [length_labelsFor]
    omega
  rw [h.labels_eq hflat, getElem?_reverse hlt, length_labelsFor]
  congr 1
  omega

lemma Shows.length_labels (h : Shows T r w) (hflat : r.Flat) :
    w.labels.length = r.constructs.length + 1 := by
  rw [h.labels_eq hflat, length_reverse, length_labelsFor]

/-- Changing the label that a depth leads to. -/
lemma Shows.set_labels (h : Shows T r w) (hflat : r.Flat) {d : Nat}
    (hd : d ≤ r.constructs.length) (l : Label) :
    w.labels.set (r.constructs.length - d) l =
      ((labelsFor T.result r.constructs).set d l).reverse := by
  have hlt : d < (labelsFor T.result r.constructs).length := by
    rw [length_labelsFor]
    omega
  rw [h.labels_eq hflat, ← set_reverse hlt, length_labelsFor]
  rfl

/-- The number of operands that wait outside the innermost construct. -/
lemma Shows.base_eq (h : Shows T r w) (hflat : r.Flat) :
    w.base = (outside r.constructs).length := by
  rw [Writer.base, h.labels_eq hflat, getLast?_reverse]
  cases r.constructs with
  | nil => rfl
  | cons c outer => rfl

lemma Active.flat (h : Active T r w) : r.Flat := .inl h.live

/-! ## Small changes of a state -/

lemma listing_emit (hs : s.flatten = [.run s]) :
    (r.emit s).listing = r.listing ++ [(r.constructs.length + 1, .run s)] := by
  simp [listing, Rebuild.emit, C.nest_append, C.depthAfter_flattenAll, hs, C.nest]

section Writes

variable {op : Opcode} {past : Writer} {lines : List (Nat × Line)} {journal : List Entry}

/-- Lines are written. -/
lemma writes_append (h : ∃ written, Writes op past lines journal written) {new : List Entry}
    (hop : ∀ e ∈ new, e.op = op) (hsafe : op ≠ .callIndirect → ∀ e ∈ new, e.IsSafe)
    {lines' : List (Nat × Line)}
    (hls : (lines'.map Prod.snd).Subperm (lines.map Prod.snd ++ new.map Entry.line)) :
    ∃ written, Writes op past lines' (journal ++ new) written := by
  obtain ⟨written, h⟩ := h
  refine ⟨written ++ new, ?_, ?_, fun e he => ?_, fun hne e he => ?_⟩
  · rw [h.journal, append_assoc]
  · rw [map_append, ← append_assoc]
    exact hls.trans (h.lines.append (List.Subperm.refl _))
  · rcases mem_append.mp he with he | he
    · exact h.instruction e he
    · exact hop e he
  · rcases mem_append.mp he with he | he
    · exact h.safe hne e he
    · exact hsafe hne e he

/-- Lines are written at the end. -/
lemma writes_lines (h : ∃ written, Writes op past lines journal written) {op' : Opcode}
    (hop : op' = op) (d : Nat) (vs : List Pending) {new : List Line}
    (hsafe : op ≠ .callIndirect → ∀ line ∈ new, Entry.IsSafe ⟨op, vs, line⟩) :
    ∃ written, Writes op past (lines ++ new.map fun line => (d, line))
      (journal ++ new.map fun line => ⟨op', vs, line⟩) written := by
  subst hop
  refine writes_append h (fun e he => ?_) (fun hne e he => ?_) ?_
  · obtain ⟨line, -, rfl⟩ := mem_map.mp he
    rfl
  · obtain ⟨line, hline, rfl⟩ := mem_map.mp he
    exact hsafe hne line hline
  · simp only [map_append, map_map, Function.comp_def]
    exact List.Subperm.refl _

lemma writes_take (h : ∃ written, Writes op past lines journal written) (n : Nat) :
    ∃ written, Writes op past (lines.take n) journal written := by
  obtain ⟨written, h⟩ := h
  exact ⟨written, { h with
    lines := ((take_sublist n lines).map Prod.snd).subperm.trans h.lines }⟩

end Writes

/-- Writing a line shows the statement of it. -/
lemma Shows.emitBelow (h : Shows T r w) (hs : s.flatten = [.run s]) {height : Nat}
    (hsafe : T.op ≠ .callIndirect → Entry.IsSafe ⟨T.op, w.stack.take height, .run s⟩) :
    Shows T (r.emit s) (w.emitBelow height (.run s)) where
  __ := h
  lines := by
    rw [listing_emit hs, ← h.lines, ← h.depth]
    rfl
  writes := by
    have hsafe : T.op ≠ .callIndirect → ∀ line ∈ [Line.run s],
        Entry.IsSafe ⟨T.op, w.stack.take height, line⟩ := by simpa using hsafe
    exact writes_lines h.writes h.op w.depth _ hsafe

lemma Shows.withStack (h : Shows T r w) (stack : List Pending) : Shows T r { w with stack } :=
  { h with }

lemma Shows.newTemp (h : Shows T r w) (t : ValueType) : Shows T (r.newTemp t).2 (w.newTemp t).2 :=
  { h with temps := by rw [Writer.newTemp, Rebuild.newTemp, h.temps] }

lemma Shows.newTemp_fst (h : Shows T r w) (t : ValueType) : (w.newTemp t).1 = (r.newTemp t).1 := by
  rw [Writer.newTemp, Rebuild.newTemp, h.temps]

/-- Pushing an operand. -/
lemma Mirrors.push (h : Mirrors T r w) (hflat : r.Flat) (v : Pending) :
    Mirrors T (r.push v) (w.push v) where
  __ := h
  labels := h.labels_of_constructs hflat hflat rfl
  stack := by simp [Writer.push, Rebuild.push, Rebuild.operands, h.stack]

lemma Active.push (h : Active T r w) (v : Pending) : Mirrors T (r.push v) (w.push v) :=
  h.toMirrors.push h.flat v

/-- Taking operands away. -/
lemma Active.withValues (h : Active T r w) {values : List Pending}
    (hsub : ∀ v ∈ values, v ∈ r.scope.values) {stack : List Pending}
    (hstack : stack = (values ++ outside r.constructs).reverse) :
    Active T (r.withValues values) { w with stack } where
  __ := h
  labels := h.labels_of_constructs h.flat h.flat rfl
  stack := hstack
  sound v hv := h.sound v (hsub v hv)

/-- The rest cannot be reached. -/
lemma Active.kill (h : Active T r w) : Mirrors T r.kill w.kill where
  __ := h
  labels := h.labels_of_constructs h.flat (.inr rfl) rfl
  dead := rfl
  stack := by
    have hbase := h.base_eq h.flat
    simp only [Writer.kill, hbase, h.stack, Rebuild.operands, Rebuild.kill, Rebuild.withValues,
      reverse_append, nil_append]
    rw [← length_reverse, take_left']
    rfl

/-- Writing a statement shows it. -/
lemma Mirrors.write (h : Mirrors T r w) (hs : s.flatten = [.run s])
    (hsafe : T.op ≠ .callIndirect → Entry.IsSafe ⟨T.op, r.operands.reverse, .run s⟩) :
    Mirrors T (r.emit s) (w.write s) where
  toShows := by
    refine h.toShows.emitBelow hs ?_
    rwa [take_length, h.stack]
  stack := h.stack

lemma Active.write (h : Active T r w) (hs : s.flatten = [.run s])
    (hsafe : T.op ≠ .callIndirect → Entry.IsSafe ⟨T.op, r.operands.reverse, .run s⟩) :
    Active T (r.emit s) (w.write s) :=
  { h with toMirrors := h.toMirrors.write hs hsafe }

end WasmToC

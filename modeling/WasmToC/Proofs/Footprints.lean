import WasmToC.Proofs.Calls
import WasmToC.Proofs.Scoping

/-!
# Footprints and texts

The footprint of a pending expression is all that later instructions look at, to tell whether it may
still wait. It can be read off the text: the text of each part stands in that of the whole with no
word next to it, so a local is in the footprint if and only if its name is a word of the text.

## Main definitions

* `C.Stands` — a text that stands in another one, apart from the words around it.

## Main results

* `C.Expr.Built.stands` — the parts of an expression stand in its text.
* `footprints_exact` — the footprint of everything that waits is exact.
-/

namespace WasmToC

open List

namespace C

/-! ## Texts in texts -/

/-- A text that stands in another one, apart from the words around it. -/
def Stands (part whole : String) : Prop :=
  ∃ pre post, whole = pre ++ part ++ post ∧ closes pre = true ∧ opens post = true

/-- A text starts as its first part does. -/
lemma opens_append {a : String} (hne : a ≠ "") (ha : opens a = true) (b : String) :
    opens (a ++ b) = true := by
  rw [opens] at ha ⊢
  cases hlist : a.toList with
  | nil => exact absurd hlist (by simpa using hne)
  | cons c rest => simpa [String.toList_append, hlist] using ha

namespace Stands

variable {part text whole : String} {texts : List String}

lemma refl (text : String) : Stands text text := ⟨"", "", by simp, rfl, rfl⟩

lemma trans (h : Stands part text) (h' : Stands text whole) : Stands part whole := by
  obtain ⟨b, a, rfl, hb, ha⟩ := h
  obtain ⟨b', a', rfl, hb', ha'⟩ := h'
  refine ⟨b' ++ b, a ++ a', by simp only [String.append_assoc], ?_, ?_⟩
  · by_cases hne : b = ""
    · simpa [hne] using hb'
    · exact closes_append b' hne hb
  · by_cases hne : a = ""
    · simpa [hne] using ha'
    · exact opens_append hne ha a'

/-- The words of a text are words wherever it stands. -/
lemma mem_words (h : Stands part whole) {w : String} (hw : w ∈ words part) : w ∈ words whole := by
  obtain ⟨pre, post, rfl, hb, ha⟩ := h
  rw [words_append_of_opens _ ha, words_append_of_closes hb]
  exact mem_append_left _ (mem_append_right _ hw)

lemma operand (text : String) : Stands text (operand text) := by
  unfold C.operand
  split
  · exact refl text
  · exact ⟨"(", ")", rfl, rfl, rfl⟩

lemma commas (h : text ∈ texts) : Stands text (", ".intercalate texts) := by
  induction texts with
  | nil => cases h
  | cons first texts ih =>
    cases texts with
    | nil => simpa using mem_singleton.mp h ▸ refl text
    | cons next texts =>
      rw [String.intercalate_cons_cons]
      rcases mem_cons.mp h with rfl | h
      · exact ⟨"", ", " ++ ", ".intercalate (next :: texts), by simp [String.append_assoc], rfl,
          opens_append (by decide) rfl _⟩
      · exact (ih h).trans ⟨first ++ ", ", "", by simp, closes_append _ (by decide) rfl, rfl⟩

lemma call (name : String) (h : text ∈ texts) : Stands text (callText name texts) :=
  (commas h).trans ⟨name ++ "(", ")", rfl, closes_append _ (by decide) rfl, rfl⟩

lemma choose (cond yes no : String) : Stands cond (chooseText cond yes no) ∧
    Stands yes (chooseText cond yes no) ∧ Stands no (chooseText cond yes no) := by
  refine ⟨(operand cond).trans ⟨"(", " ? " ++ (C.operand yes ++ " : " ++ C.operand no ++ ")"), ?_,
      rfl, opens_append (by decide) rfl _⟩,
    (operand yes).trans ⟨"(" ++ C.operand cond ++ " ? ", " : " ++ (C.operand no ++ ")"), ?_,
      closes_append _ (by decide) rfl, opens_append (by decide) rfl _⟩,
    (operand no).trans ⟨"(" ++ C.operand cond ++ " ? " ++ C.operand yes ++ " : ", ")", ?_,
      closes_append _ (by decide) rfl, rfl⟩⟩ <;>
    simp only [chooseText, String.append_assoc]

/-- What stands behind an operand does not start with a word. -/
lemma opens_fill {t : Template} (ht : t.opensGap = true) (texts : List String) :
    opens (t.fill texts) = true := by
  cases t with
  | nil => rfl
  | cons piece rest =>
    cases piece with
    | char c => simpa [opens, Template.toList_fill_char, Template.opensGap] using ht
    | hole i => cases ht

/-- An operand stands where a template shows it.

**Proof sketch.** Induction on the template: what stands in front of it ends with a word only if its
last character does, and an operand comes behind no word. -/
theorem fill {t : Template} {i : Nat} (hi : i ∈ t.holes) (inWord : Bool) (pre : String)
    (hpre : inWord = false → closes pre = true) (ht : t.isIsolated inWord = true) :
    Stands (Template.filled texts i) (pre ++ t.fill texts) := by
  induction t generalizing inWord pre with
  | nil => cases hi
  | cons piece rest ih =>
    cases piece with
    | char c =>
      have hfill : pre ++ Template.fill texts (.char c :: rest) =
          pre ++ String.singleton c ++ Template.fill texts rest := by
        rw [← String.toList_inj]
        simp [Template.toList_fill_char]
      rw [hfill]
      refine ih hi _ _ (fun hc => closes_append pre (b := String.singleton c) (by simp) ?_) ht
      simp [closes, hc]
    | hole j =>
      simp only [Template.isIsolated, Bool.and_eq_true, Bool.not_eq_true'] at ht
      obtain ⟨⟨hword, hgap⟩, hr⟩ := ht
      have hfill : pre ++ Template.fill texts (.hole j :: rest) =
          pre ++ Template.filled texts j ++ Template.fill texts rest := by
        rw [← String.toList_inj]
        simp [Template.toList_fill_hole]
      rw [hfill]
      rcases mem_cons.mp hi with rfl | hi
      · exact ⟨pre, Template.fill texts rest, rfl, hpre hword, opens_fill hgap texts⟩
      · refine ih hi true _ (by simp) ?_
        cases rest with
        | nil => rfl
        | cons piece rest => cases piece <;> first | exact hr | cases hgap

lemma numeric {op : Numeric} (hn : texts.length = op.shape.arity) (h : text ∈ texts) :
    Stands text ((template op).fill texts) := by
  obtain ⟨i, hi, rfl⟩ := getElem_of_mem h
  have hhole : i ∈ (template op).holes := by rw [holes_template, mem_range]; omega
  have hs : Stands _ ("" ++ (template op).fill texts) :=
    fill hhole false "" (fun _ => rfl) (isIsolated_template op).1
  rw [Template.filled, getElem?_eq_getElem hi, String.empty_append] at hs
  exact (operand _).trans hs

end Stands

namespace Expr

variable {e a : Expr} {n : Naming}

/-- The text of an operand stands in that of the expression. -/
lemma IsApplied.stands (h : e.IsApplied) (ha : a ∈ e.operands) : Stands (a.text n) (e.text n) := by
  have hmem {args : List Expr} (ha : a ∈ args) : a.text n ∈ texts n args :=
    texts_eq_map n args ▸ mem_map_of_mem ha
  cases e with
  | const | zero | var | temp | global | memorySize => cases ha
  | memoryGrow delta => exact .call _ (hmem ha)
  | load op addr off =>
    obtain rfl := mem_singleton.mp ha
    exact .call _ mem_cons_self
  | call f args => exact .call _ (hmem ha)
  | numeric op args => exact .numeric (by simpa [texts_eq_map] using h.1) (hmem ha)
  | choose cond yes no =>
    have hchoose := Stands.choose (cond.text n) (yes.text n) (no.text n)
    simp only [operands, mem_cons, not_mem_nil, or_false] at ha
    rcases ha with rfl | rfl | rfl
    · exact hchoose.1
    · exact hchoose.2.1
    · exact hchoose.2.2

/-- **The parts of an expression stand in its text.** -/
theorem Built.stands (h : e.Built) : ∀ part ∈ e.parts, Stands (part.text n) (e.text n) := by
  induction h with
  | intro happlied _ ih =>
    refine forall_parts.mpr ⟨.refl _, fun a ha part hpart => ?_⟩
    exact (ih a ha part hpart).trans (happlied.stands ha)

end Expr

namespace Expr

lemma isGlobal_iff {e : Expr} : e.isGlobal = true ↔ ∃ i, e = .global i := by
  cases e <;> simp [isGlobal]

lemma isMemory_iff {e : Expr} : e.isMemory = true ↔
    e = .memorySize ∨ ∃ op addr off, e = .load op addr off := by
  cases e <;> simp [isMemory]

lemma isEffect_iff {e : Expr} : e.isEffect = true ↔
    (∃ f args, e = .call f args) ∨ ∃ delta, e = .memoryGrow delta := by
  cases e <;> simp [isEffect]

end Expr

lemma words_localName (params i : Nat) : words (localName params i) = [localName params i] := by
  refine words_eq_singleton (fun c hc => ?_) fun h => ?_
  · rw [toList_localName] at hc
    rcases mem_cons.mp hc with rfl | hc
    · split <;> rfl
    · exact isWordChar_of_mem_toDigits hc
  · simpa [toList_localName] using congrArg String.toList h

lemma isVariable_localName (params i : Nat) : isVariable (localName params i).toList = true := by
  have hdigits : (Nat.toDigits 10 i).all Char.isDigit = true :=
    all_eq_true.mpr fun c hc => Nat.isDigit_of_mem_toDigits (by decide) (by decide) hc
  rw [toList_localName]
  split <;> simp [isVariable, hdigits]

/-- A word that is the name of a local comes from a part that is this local. -/
lemma Expr.var_mem_parts {m : Module} {o : Options} {params i : Nat} {e : Expr}
    (h : localName params i ∈ words (e.text ⟨Symbols.ofModule m o, params⟩)) :
    .var i ∈ e.parts := by
  have hspelled : Spelled (fun w => isVariable w.toList = true →
      (∃ j, .var j ∈ e.parts ∧ w = localName params j) ∨ ∃ t, w = tempName t)
      (e.text ⟨Symbols.ofModule m o, params⟩) := by
    have hallotted := Symbols.allotted_ofModule m o
    refine e.spelled_text fun part hpart => ?_
    cases part with
    | var j => exact fun _ => .inl ⟨j, hpart, rfl⟩
    | temp t => exact fun _ => .inr ⟨t, rfl⟩
    | global j =>
      refine .identifier (hallotted.isIdentifier_global j) fun hvariable => ?_
      simp [not_isVariable_of_underscore (hallotted.underscore_mem_global j)] at hvariable
    | call f =>
      refine .identifier (hallotted.isIdentifier_function f) fun hvariable => ?_
      simp [not_isVariable_of_underscore (hallotted.underscore_mem_function f)] at hvariable
    | _ => trivial
  have hvariable := isVariable_localName params i
  rcases hspelled _ h with ⟨-, hcommon⟩ | hword
  · simp [hvariable] at hcommon
  · rcases hword hvariable with ⟨j, hj, heq⟩ | ⟨t, heq⟩
    · exact localName_inj heq ▸ hj
    · exact absurd heq (localName_ne_tempName params i t)

end C

open C

/-- **The footprint of everything that waits is exact.** Let a body be read up to any point, in any
surroundings. The footprint of an operand, of a condition or of the value of a first arm has each
local once, and just those whose names are words of the text. It says that globals are read, that
memory is read, or that there are effects, if and only if a part of the expression is a global, a
load or the memory size, or a call or growing of the memory; and the text of every part stands in
that of the whole. A temporary is stable, and so is what was put into one.

**Proof sketch.** Footprints are joined as expressions are put together (`Footprint.Of`), and all
operands along the run are sound. -/
theorem footprints_exact {env : Surroundings} {code : List Instruction} {r : Rebuild}
    (hrun : (Rebuild.run env code {}).outcome = .ok r) (o : Options) (params : Nat) :
    (∀ v ∈ r.pendings, let n : Naming := ⟨Symbols.ofModule env.inModule o, params⟩
      v.uses.locals.Nodup ∧
      (∀ i, i ∈ v.uses.locals ↔ localName params i ∈ words (v.expr.text n)) ∧
      (v.uses.readsGlobals = true ↔ ∃ i, .global i ∈ v.expr.parts) ∧
      (v.uses.readsMemory = true ↔ .memorySize ∈ v.expr.parts ∨
        ∃ op addr off, .load op addr off ∈ v.expr.parts) ∧
      (v.uses.effects = true ↔ (∃ f args, .call f args ∈ v.expr.parts) ∨
        ∃ delta, .memoryGrow delta ∈ v.expr.parts) ∧
      (∀ part ∈ v.expr.parts, Stands (part.text n) (v.expr.text n)) ∧
      ∀ t, v.expr = .temp t → v.uses.isStable = true) ∧
    ∀ marked hazard i u v, r.scope.values[i]? = some u → marked i u = true →
      (r.spill marked hazard).scope.values[i]? = some v → v.uses.isStable = true := by
  have hbuilt := Rebuild.allBuilt_of_run hrun
  refine ⟨fun v hv => ?_, fun _ _ _ _ _ hu hm => Rebuild.isStable_of_getElem?_spill hu hm⟩
  have huses := (hbuilt.tidy.admits v hv).sound.uses
  have hstands {n : Naming} := (hbuilt.pendings v hv).stands (n := n)
  refine ⟨huses.nodup, fun i => ?_, ?_, ?_, ?_, hstands, fun t ht => ?_⟩
  · refine (huses.locals i).trans ⟨fun h => (hstands _ h).mem_words ?_, Expr.var_mem_parts⟩
    rw [Expr.text, words_localName]
    exact mem_cons_self
  · rw [huses.globals, any_eq_true]
    simp only [Expr.isGlobal_iff]
    grind
  · rw [huses.memory, any_eq_true]
    simp only [Expr.isMemory_iff]
    grind
  · rw [huses.effects, any_eq_true]
    simp only [Expr.isEffect_iff]
    grind
  · rw [ht] at huses
    have hnone : v.uses.locals = [] :=
      eq_nil_iff_forall_not_mem.mpr fun i hi => by simpa [Expr.parts] using (huses.locals i).mp hi
    rw [Footprint.isStable_iff, Footprint.dependsOnState, Footprint.readsState, huses.globals,
      huses.memory, huses.effects]
    exact ⟨hnone, rfl⟩

/-- A function with a parameter, in a module with a global. -/
def besideGlobal : Surroundings where
  inModule := { globals := [⟨⟨.i32, true⟩, ⟨.const .i32, .value (.i32 0)⟩⟩] }
  index := 0
  type := ⟨[.i32], some .i32⟩
  locals := [.i32]

/-- The parameter is added to itself and to the global. -/
theorem footprints_exact_besideGlobal : ∃ (r : Rebuild) (v : Pending), (Rebuild.run besideGlobal
      [⟨.getLocal, .index 0⟩, ⟨.getLocal, .index 0⟩, ⟨.numeric .i32Add, .none⟩,
      ⟨.getGlobal, .index 0⟩, ⟨.numeric .i32Add, .none⟩] {}).outcome = .ok r ∧
    r.pendings = [v] ∧ v.uses.locals = [0] ∧ ∃ i, .global i ∈ v.expr.parts := by
  obtain ⟨h, -⟩ := footprints_exact (show (Rebuild.run besideGlobal [⟨.getLocal, .index 0⟩,
    ⟨.getLocal, .index 0⟩, ⟨.numeric .i32Add, .none⟩, ⟨.getGlobal, .index 0⟩,
    ⟨.numeric .i32Add, .none⟩] {}).outcome = .ok _ from rfl) {} 1
  exact ⟨_, _, rfl, rfl, rfl, (h _ mem_cons_self).2.2.1.mp rfl⟩

end WasmToC

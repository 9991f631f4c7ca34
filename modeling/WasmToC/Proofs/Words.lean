import WasmToC.Proofs.Mentions

/-!
# The words of emitted text

A word is a longest run of letters, digits and underscores. Where two texts meet at a character
that can stand in no word, the words of both together are those of the first and those of the
second. This is how all emitted text is put together, so its words can be read off its parts.

## Main definitions

* `C.words` — the words of a text.
* `C.Ordinary` — the words that name no function, global or table of a module: numerals,
  locals, temporaries and labels, words of the language, and names of the standard library and of
  the support header.
* `C.Spelled` — a text whose words are common ones, or may be used.

## Main results

* `C.Spelled.numeric` — a numeric instruction with its operands.
-/

namespace WasmToC.C

open List

/-! ## Words -/

/-- The words after a run of word characters has come to its end. -/
def endRun (run : List Char) (others : List (List Char)) : List (List Char) :=
  if run.isEmpty then others else run :: others

/-- The run of word characters that a text starts with, and the words behind it. -/
def runs : List Char → List Char × List (List Char)
  | [] => ([], [])
  | c :: rest =>
    if isWordChar c then (c :: (runs rest).1, (runs rest).2)
    else ([], endRun (runs rest).1 (runs rest).2)

/-- The words of a list of characters. -/
def wordsOf (text : List Char) : List (List Char) := endRun (runs text).1 (runs text).2

/-- The words of a text: its longest runs of letters, digits and underscores. -/
def words (text : String) : List String := (wordsOf text.toList).map String.ofList

@[simp] lemma wordsOf_nil : wordsOf [] = [] := rfl

lemma endRun_append (run : List Char) (others more : List (List Char)) :
    endRun run (others ++ more) = endRun run others ++ more := by
  unfold endRun
  split <;> rfl

section Gap

variable {c : Char} (hc : isWordChar c = false)
include hc

lemma wordsOf_gap (text : List Char) : wordsOf (c :: text) = wordsOf text := by
  simp [wordsOf, runs, hc, endRun]

lemma runs_append_gap (pre post : List Char) :
    runs (pre ++ c :: post) = ((runs pre).1, (runs pre).2 ++ wordsOf post) := by
  induction pre with
  | nil => simp [runs, hc, wordsOf]
  | cons d pre ih =>
    simp only [cons_append, runs, ih]
    split
    · rfl
    · rw [endRun_append]

/-- **A gap separates the words** in front of it from those behind it. -/
theorem wordsOf_append_gap (pre post : List Char) :
    wordsOf (pre ++ c :: post) = wordsOf pre ++ wordsOf post := by
  rw [wordsOf, runs_append_gap hc, endRun_append]
  rfl

end Gap

/-- A run of word characters is one word. -/
lemma wordsOf_run {run : List Char} (hrun : ∀ c ∈ run, isWordChar c = true) (hne : run ≠ []) :
    wordsOf run = [run] := by
  have hruns : runs run = (run, []) := by
    clear hne
    induction run with
    | nil => rfl
    | cons c run ih =>
      obtain ⟨hc, hr⟩ := forall_mem_cons.mp hrun
      simp [runs, hc, ih hr]
  simp [wordsOf, hruns, endRun, hne]

/-! ## Texts that meet at a gap -/

/-- Whether a text does not start with a word. -/
def opens (text : String) : Bool := text.toList.head?.all fun c => !isWordChar c

/-- Whether a text does not end with a word. -/
def closes (text : String) : Bool := text.toList.getLast?.all fun c => !isWordChar c

/-- The words of two texts, when those of their characters are apart. -/
lemma words_append {a b : String}
    (h : wordsOf (a.toList ++ b.toList) = wordsOf a.toList ++ wordsOf b.toList) :
    words (a ++ b) = words a ++ words b := by
  rw [words, String.toList_append, h, map_append, words, words]

lemma words_append_of_opens (a : String) {b : String} (hb : opens b = true) :
    words (a ++ b) = words a ++ words b := by
  refine words_append ?_
  rw [opens] at hb
  cases hlist : b.toList with
  | nil => simp
  | cons c rest =>
    have hc : isWordChar c = false := by simpa [hlist] using hb
    rw [wordsOf_append_gap hc, wordsOf_gap hc]

lemma words_append_of_closes {a : String} (ha : closes a = true) (b : String) :
    words (a ++ b) = words a ++ words b := by
  refine words_append ?_
  rw [closes] at ha
  rcases eq_nil_or_concat a.toList with hlist | ⟨front, c, hlist⟩
  · simp [hlist]
  · have hc : isWordChar c = false := by simpa [hlist] using ha
    rw [hlist, concat_eq_append, append_assoc, singleton_append,
      wordsOf_append_gap hc, wordsOf_append_gap hc, wordsOf_nil, append_nil]

lemma closes_append (a : String) {b : String} (hne : b ≠ "") (hb : closes b = true) :
    closes (a ++ b) = true := by
  rw [closes] at hb ⊢
  rcases eq_nil_or_concat b.toList with hlist | ⟨front, c, hlist⟩
  · exact absurd hlist (by simpa using hne)
  · simpa [String.toList_append, hlist] using hb

lemma words_eq_singleton {w : String} (hw : ∀ c ∈ w.toList, isWordChar c = true) (hne : w ≠ "") :
    words w = [w] := by
  rw [words, wordsOf_run hw (by simpa using hne)]
  simp

/-! ## Ordinary words -/

/-- The words of the language, and the names of the standard library and of the support header, that
emitted code uses whatever its instructions are. -/
def vocabulary : List String := [
  "void", "float", "double", "static", "const", "if", "else", "goto", "return",
  "int32_t", "int64_t", "uint32_t", "INT32_MIN", "INT64_MIN", "INT64_C", "UINT64_C",
  "wasm_rt_f32_bits", "wasm_rt_f64_bits",
  "wasm_rt_memory_init", "wasm_rt_memory_base", "wasm_rt_memory_size", "wasm_rt_memory_grow",
  "wasm_rt_table_init", "wasm_rt_funcref", "elements",
  "wasm_rt_trap", "WASM_RT_TRAP_UNREACHABLE", "WASM_RT_TRAP_INDIRECT_CALL"]

/-- The characters of a template, with a blank in place of each operand. -/
def Template.frame (t : Template) : List Char :=
  t.map fun
    | .char c => c
    | .hole _ => ' '

/-- A word that names no function, global or table of a module. -/
inductive Ordinary : String → Prop
  /-- A numeral: it starts with a digit. -/
  | numeral {w : String} (h : w.toList.head?.any Char.isDigit = true) : Ordinary w
  /-- A parameter or local. -/
  | variable (params i : Nat) : Ordinary (localName params i)
  /-- A temporary. -/
  | temporary (i : Nat) : Ordinary (tempName i)
  /-- A label. -/
  | label (l : Nat) : Ordinary (labelName l)
  /-- A word that does not depend on the instructions. -/
  | fixed {w : String} (h : w ∈ vocabulary) : Ordinary w
  /-- A word in the spelling of a numeric instruction. -/
  | numeric {w : List Char} (op : Numeric) (h : w ∈ wordsOf (template op).frame) :
      Ordinary (String.ofList w)
  /-- The support function of a load. -/
  | load (op : Load) : Ordinary (supportName op.name)
  /-- The support function of a store. -/
  | store (op : Store) : Ordinary (supportName op.name)

/-- Whether a word is spelled like a variable: `p`, `l` or `t`, with a number. -/
def isVariable : List Char → Bool
  | [] => false
  | c :: digits => (c = 'p' || c = 'l' || c = 't') && !digits.isEmpty && digits.all Char.isDigit

/-- An ordinary word that is not spelled like a variable. -/
def Common (w : String) : Prop := Ordinary w ∧ isVariable w.toList = false

/-- A text whose words are common ones, or may be used. -/
def Spelled (P : String → Prop) (text : String) : Prop := ∀ w ∈ words text, Common w ∨ P w

lemma common_of_mem_vocabulary {w : String} (h : w ∈ vocabulary) : Common w := by
  have hall : ∀ w ∈ vocabulary, isVariable w.toList = false := by decide +kernel
  exact ⟨.fixed h, hall w h⟩

/-- Whether characters can stand in no word. -/
def isGap (cs : List Char) : Bool := cs.all fun c => !isWordChar c

namespace Spelled

variable {P : String → Prop} {a b text : String} {cs : List Char}

lemma empty : Spelled P "" := by
  intro w hw
  cases hw

lemma append (ha : Spelled P a) (hb : Spelled P b)
    (hgap : closes a = true ∨ opens b = true) : Spelled P (a ++ b) := by
  have hwords : words (a ++ b) = words a ++ words b :=
    hgap.elim (fun h => words_append_of_closes h b) fun h => words_append_of_opens a h
  intro w hw
  rw [hwords] at hw
  exact (mem_append.mp hw).elim (ha w) (hb w)

/-- A word that is common or may be used. -/
lemma word (hw : ∀ c ∈ text.toList, isWordChar c = true) (h : Common text ∨ P text) :
    Spelled P text := by
  intro w hmem
  by_cases hne : text = ""
  · subst hne
    cases hmem
  · rw [words_eq_singleton hw hne, mem_singleton] at hmem
    rwa [hmem]

/-- A text that is given with its words. -/
lemma ofWords (ws : List String) (hws : (wordsOf cs).map String.ofList = ws)
    (h : ∀ w ∈ ws, Common w) : Spelled P (String.ofList cs) := by
  intro w hw
  rw [words, String.toList_ofList, hws] at hw
  exact .inl (h w hw)

/-- A text that does not depend on the instructions. -/
lemma fixed (h : (wordsOf cs).all (String.ofList · ∈ vocabulary) = true) :
    Spelled P (String.ofList cs) := by
  refine ofWords _ rfl fun w hw => common_of_mem_vocabulary ?_
  obtain ⟨v, hv, rfl⟩ := mem_map.mp hw
  simpa using all_eq_true.mp h v hv

/-! Texts of common words around others. -/

lemma lead (ha : Spelled P (String.ofList cs))
    (hcs : cs.getLast?.all (fun c => !isWordChar c) = true) (hb : Spelled P b) :
    Spelled P (String.ofList cs ++ b) :=
  ha.append hb (.inl (by rwa [closes, String.toList_ofList]))

lemma gap (hcs : isGap cs = true) : Spelled P (String.ofList cs) := by
  have hnone : ∀ cs : List Char, isGap cs = true → wordsOf cs = [] := by
    intro cs hcs
    induction cs with
    | nil => rfl
    | cons c cs ih =>
      simp only [isGap, all_cons, Bool.and_eq_true, Bool.not_eq_true'] at hcs
      rw [wordsOf_gap hcs.1, ih hcs.2]
  exact fixed (by rw [hnone cs hcs]; rfl)

lemma opens_gap (hcs : isGap cs = true) : opens (String.ofList cs) = true := by
  rw [opens, String.toList_ofList]
  cases cs with
  | nil => rfl
  | cons c cs => exact (Bool.and_eq_true_iff.mp hcs).1

lemma closes_gap (hcs : isGap cs = true) : closes (String.ofList cs) = true := by
  rw [closes, String.toList_ofList]
  cases hlast : cs.getLast? with
  | none => rfl
  | some c => exact all_eq_true.mp hcs c (mem_of_getLast? hlast)

lemma behind (hcs : isGap cs = true) (h : Spelled P a) : Spelled P (String.ofList cs ++ a) :=
  (gap hcs).append h (.inl (closes_gap hcs))

lemma before (h : Spelled P a) (hcs : isGap cs = true) : Spelled P (a ++ String.ofList cs) :=
  h.append (gap hcs) (.inr (opens_gap hcs))

/-- A gap between two texts. -/
lemma between {c : Char} (ha : Spelled P a) (hcs : isGap (c :: cs) = true)
    (hb : Spelled P b) : Spelled P (a ++ String.ofList (c :: cs) ++ b) :=
  (ha.before hcs).append hb (.inl (closes_append a (by simp) (closes_gap hcs)))

/-- Texts in a list, with a comma between each two. -/
lemma commas {texts : List String} (h : ∀ text ∈ texts, Spelled P text) :
    Spelled P (", ".intercalate texts) := by
  induction texts with
  | nil => exact empty
  | cons text texts ih =>
    obtain ⟨htext, hr⟩ := forall_mem_cons.mp h
    cases texts with
    | nil => simpa using htext
    | cons next texts =>
      rw [String.intercalate_cons_cons]
      exact between htext rfl (ih hr)

/-- Parentheses around an operand add no words. -/
lemma operand (h : Spelled P text) : Spelled P (operand text) := by
  unfold C.operand
  split
  · exact h
  · exact (h.behind rfl).before rfl

end Spelled

/-! ## Templates -/

namespace Template

/-- Whether a template starts with a gap, if with anything. -/
def opensGap : Template → Bool
  | [] => true
  | .char c :: _ => !isWordChar c
  | .hole _ :: _ => false

/-- Whether no operand of a template stands next to a word or to another operand. The template
itself stands behind a word if `inWord`. -/
def isIsolated : (inWord : Bool) → Template → Bool
  | _, [] => true
  | _, .char c :: rest => isIsolated (isWordChar c) rest
  | inWord, .hole _ :: rest => !inWord && opensGap rest && isIsolated false rest

/-- The operand at a position, as it stands in a template. -/
def filled (operands : List String) (i : Nat) : String := ((operands[i]?).map operand).getD ""

lemma toList_fill_char (operands : List String) (c : Char) (rest : Template) :
    (fill operands (.char c :: rest)).toList = c :: (fill operands rest).toList := by
  simp [fill, String.toList_join]

lemma toList_fill_hole (operands : List String) (i : Nat) (rest : Template) :
    (fill operands (.hole i :: rest)).toList =
      (filled operands i).toList ++ (fill operands rest).toList := by
  simp [fill, filled, String.toList_join]

/-- What stands behind an operand is separated from it. -/
lemma wordsOf_append_fill {t : Template} (ht : opensGap t = true) (pre : List Char)
    (operands : List String) :
    wordsOf (pre ++ (fill operands t).toList) =
      wordsOf pre ++ wordsOf (fill operands t).toList := by
  match t with
  | [] => simp [fill]
  | .char c :: rest =>
    have hc : isWordChar c = false := by simpa [opensGap] using ht
    rw [toList_fill_char, wordsOf_append_gap hc, wordsOf_gap hc]

/-- **The words of a template with its operands** are words of the template or of an operand.

**Proof sketch.** Induction on the template, with the run of word characters in front of it as a
parameter: a word character makes the run longer, any other one ends it, and an operand stands
behind an empty run only. -/
theorem mem_wordsOf_fill {operands : List String} {t : Template} (run : List Char)
    (ht : isIsolated (!run.isEmpty) t = true) {w : List Char}
    (hw : w ∈ wordsOf (run ++ (fill operands t).toList)) :
    w ∈ wordsOf (run ++ frame t) ∨ ∃ i, w ∈ wordsOf (filled operands i).toList := by
  induction t generalizing run with
  | nil => exact .inl (by simpa [fill, frame] using hw)
  | cons piece rest ih =>
    cases piece with
    | char c =>
      rw [isIsolated] at ht
      rw [toList_fill_char] at hw
      by_cases hc : isWordChar c = true
      · rw [hc] at ht
        have hne : (!(run ++ [c]).isEmpty) = true := by cases run <;> rfl
        have hlonger := ih (run ++ [c]) (by rw [hne]; exact ht) (by simpa using hw)
        simpa [frame] using hlonger
      · have hc : isWordChar c = false := by simpa using hc
        rw [hc] at ht
        rw [wordsOf_append_gap hc] at hw
        have hframe :
            wordsOf (run ++ frame (.char c :: rest)) = wordsOf run ++ wordsOf (frame rest) :=
          wordsOf_append_gap hc run _
        rw [hframe]
        rcases mem_append.mp hw with hw | hw
        · exact .inl (mem_append_left _ hw)
        · exact (ih [] ht hw).imp_left (mem_append_right _)
    | hole i =>
      simp only [isIsolated, Bool.and_eq_true, Bool.not_eq_true', Bool.not_eq_false'] at ht
      obtain ⟨⟨hrun, hgap⟩, hr⟩ := ht
      obtain rfl : run = [] := by simpa using hrun
      rw [nil_append, toList_fill_hole, wordsOf_append_fill hgap] at hw
      have hframe : wordsOf ([] ++ frame (.hole i :: rest)) = wordsOf (frame rest) :=
        wordsOf_gap rfl _
      rw [hframe]
      rcases mem_append.mp hw with hw | hw
      · exact .inr ⟨i, hw⟩
      · exact ih [] hr hw

end Template

/-- No operand of a numeric instruction stands next to a word, and no word in its spelling is
spelled like a variable. -/
lemma isIsolated_template (op : Numeric) : (template op).isIsolated false = true ∧
    (wordsOf (template op).frame).any isVariable = false := by
  have hchars {cs : List Char} (h : (Template.parse cs).isIsolated false = true ∧
      (wordsOf (Template.parse cs).frame).any isVariable = false) :
      (Template.parse (String.ofList cs).toList).isIsolated false = true ∧
        (wordsOf (Template.parse (String.ofList cs).toList).frame).any isVariable = false := by
    rwa [String.toList_ofList]
  cases op <;> exact hchars ⟨rfl, rfl⟩

/-- A numeric instruction with its operands. -/
lemma Spelled.numeric {P : String → Prop} {operands : List String} (op : Numeric)
    (h : ∀ text ∈ operands, Spelled P text) : Spelled P ((template op).fill operands) := by
  obtain ⟨hisolated, hvariable⟩ := isIsolated_template op
  intro w hw
  obtain ⟨cs, hcs, rfl⟩ := mem_map.mp hw
  rw [← nil_append ((template op).fill operands).toList] at hcs
  rcases Template.mem_wordsOf_fill [] hisolated hcs with hcs | ⟨i, hcs⟩
  · refine .inl ⟨.numeric op hcs, ?_⟩
    rw [String.toList_ofList]
    simpa using any_eq_false.mp hvariable cs hcs
  · have hfilled : Spelled P (Template.filled operands i) := by
      rw [Template.filled]
      cases hi : operands[i]? with
      | none => exact .empty
      | some text => exact (h text (mem_of_getElem? hi)).operand
    exact hfilled _ (mem_map_of_mem hcs)

end WasmToC.C

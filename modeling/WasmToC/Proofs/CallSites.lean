import WasmToC.Proofs.Calls
import WasmToC.Proofs.Words

/-!
# The places of calls

Where a function calls another one, or grows the memory, its text shows the call once. To speak of
these places, the text is written a second time, with a mark in front of every call: without the
marks it is the same text, and behind each mark stands the call that the mark names. The marks are
as many as the instructions that can be reached and make a call, and there is one for each of them.

## Main definitions

* `C.Token`, `C.Marked` — a text with marks in it.
* `C.Expr.marked`, `C.layoutMarked`, `C.FunctionDef.marked` — the texts of
  expressions, lines and functions, with every call marked.
* `CallsOnce` — the calls of a body and their places.

## Main results

* `C.Expr.marks_text`, `C.marks_layout`, `C.FunctionDef.marks_text` — a marked text is the text
  with its calls marked.
* `C.Marked.Honest.sites` — no two marks are in one place, and each names what stands there.
* `callsOnce_of_functionText` — each call that can be reached is shown at exactly one place.
-/

namespace WasmToC

open List

namespace C

/-! ## Marked texts -/

/-- A character, or the mark in front of a call. -/
inductive Token where
  /-- A character. -/
  | char (c : Char)
  /-- The place where a call starts. -/
  | start (call : Expr)

/-- A text in which calls are marked. -/
abbrev Marked := List Token

namespace Marked

/-- A text without calls. -/
def plain (text : String) : Marked := text.toList.map .char

/-- The text without the marks. -/
def chars : Marked → List Char
  | [] => []
  | .char c :: x => c :: chars x
  | .start _ :: x => chars x

/-- The calls that are marked, from left to right. -/
def calls : Marked → List Expr
  | [] => []
  | .char _ :: x => calls x
  | .start e :: x => e :: calls x

/-- The places of the marks, as numbers of characters from the start of the text, which itself
stands behind `off` others. -/
def sites : (off : Nat) → Marked → List (Nat × Expr)
  | _, [] => []
  | off, .char _ :: x => sites (off + 1) x
  | off, .start e :: x => (off, e) :: sites off x

/-- Whether the first token is a character. -/
def startsWithChar : Marked → Bool
  | .char _ :: _ => true
  | _ => false

/-- Behind every mark stands the text of the call that it names. -/
def Honest (n : Naming) : Marked → Prop
  | [] => True
  | .char _ :: x => Honest n x
  | .start e :: x => (e.text n).toList <+: chars x ∧ startsWithChar x = true ∧ Honest n x

@[simp] lemma chars_append (x y : Marked) : chars (x ++ y) = chars x ++ chars y := by
  induction x with
  | nil => rfl
  | cons token x ih => cases token <;> simp [chars, ih]

@[simp] lemma calls_append (x y : Marked) : calls (x ++ y) = calls x ++ calls y := by
  induction x with
  | nil => rfl
  | cons token x ih => cases token <;> simp [calls, ih]

lemma startsWithChar_append {x : Marked} (h : startsWithChar x = true) (y : Marked) :
    startsWithChar (x ++ y) = true := by
  cases x with
  | nil => cases h
  | cons token x => cases token <;> first | rfl | cases h

lemma Honest.append {n : Naming} {x y : Marked} (hx : Honest n x) (hy : Honest n y) :
    Honest n (x ++ y) := by
  induction x with
  | nil => exact hy
  | cons token x ih =>
    cases token with
    | char c => exact ih hx
    | start e =>
      obtain ⟨htext, hchar, hx⟩ := hx
      refine ⟨?_, startsWithChar_append hchar y, ih hx⟩
      show _ <+: chars (x ++ y)
      rw [chars_append]
      exact htext.trans (prefix_append _ _)

@[simp] lemma chars_plain (text : String) : chars (plain text) = text.toList := by
  unfold plain
  induction text.toList with
  | nil => rfl
  | cons c cs ih => rw [map_cons, chars, ih]

@[simp] lemma calls_plain (text : String) : calls (plain text) = [] := by
  unfold plain
  induction text.toList with
  | nil => rfl
  | cons c cs ih => rw [map_cons, calls, ih]

lemma honest_plain (n : Naming) (text : String) : Honest n (plain text) := by
  unfold plain
  induction text.toList with
  | nil => trivial
  | cons c cs ih => exact ih

lemma map_snd_sites (off : Nat) (x : Marked) : (sites off x).map Prod.snd = calls x := by
  induction x generalizing off with
  | nil => rfl
  | cons token x ih =>
    cases token with
    | char c => exact ih (off + 1)
    | start e => rw [sites, calls, map_cons, ih]

/-- A mark stands behind the start of the text, and behind its first character if that comes
first. -/
lemma le_of_mem_sites {off : Nat} {x : Marked} {site : Nat × Expr} (h : site ∈ sites off x) :
    off ≤ site.1 ∧ (startsWithChar x = true → off < site.1) := by
  induction x generalizing off with
  | nil => cases h
  | cons token x ih =>
    cases token with
    | char c =>
      have hle := (ih h).1
      exact ⟨by omega, fun _ => by omega⟩
    | start e =>
      rcases mem_cons.mp h with rfl | h
      · exact ⟨Nat.le_refl _, fun hchar => by cases hchar⟩
      · exact ⟨(ih h).1, fun hchar => by cases hchar⟩

/-- **No two marks are in one place, and each names what stands there.** -/
theorem Honest.sites {n : Naming} {x : Marked} (h : Honest n x) (off : Nat) :
    ((sites off x).map Prod.fst).Pairwise (· < ·) ∧ ∀ site ∈ Marked.sites off x,
        (site.2.text n).toList <+: (chars x).drop (site.1 - off) := by
  induction x generalizing off with
  | nil => exact ⟨.nil, fun _ hsite => absurd hsite not_mem_nil⟩
  | cons token x ih =>
    cases token with
    | char c =>
      obtain ⟨hsorted, htexts⟩ := ih h (off + 1)
      refine ⟨hsorted, fun site hsite => ?_⟩
      have hsite : site ∈ Marked.sites (off + 1) x := hsite
      have hle := (le_of_mem_sites hsite).1
      have hoffset : site.1 - off = site.1 - (off + 1) + 1 := by omega
      rw [hoffset, chars, drop_succ_cons]
      exact htexts site hsite
    | start e =>
      obtain ⟨htext, hchar, hr⟩ := h
      obtain ⟨hsorted, htexts⟩ := ih hr off
      constructor
      · refine pairwise_cons.mpr ⟨?_, hsorted⟩
        intro k hk
        obtain ⟨site, hsite, rfl⟩ := mem_map.mp hk
        exact (le_of_mem_sites hsite).2 hchar
      · intro site hsite
        rcases mem_cons.mp hsite with rfl | hsite
        · simpa [chars] using htext
        · exact htexts site hsite

end Marked

open Marked (plain)

/-! ## Operands, calls and templates -/

/-- A marked text made fit to stand next to any operator. -/
def operandMarked (x : Marked) : Marked :=
  if isTight x.chars then x else plain "(" ++ x ++ plain ")"

/-- A call of a function with given arguments. -/
def callMarked (name : String) (args : List Marked) : Marked :=
  plain (name ++ "(") ++ List.intercalate (plain ", ") args ++ plain ")"

/-- A choice by a condition. -/
def chooseMarked (cond yes no : Marked) : Marked :=
  plain "(" ++ operandMarked cond ++ plain " ? " ++ operandMarked yes ++ plain " : " ++
    operandMarked no ++ plain ")"

/-- A template with its operands. -/
def Template.mark (operands : List Marked) : Template → Marked
  | [] => []
  | .char c :: rest => .char c :: mark operands rest
  | .hole i :: rest => ((operands[i]?).map operandMarked).getD [] ++ mark operands rest

mutual

/-- The text of an expression, with every call marked. -/
def Expr.marked (n : Naming) : Expr → Marked
  | .memoryGrow delta =>
    .start (.memoryGrow delta) :: callMarked "wasm_rt_memory_grow" [delta.marked n]
  | .load op addr off =>
    callMarked (supportName op.name) [addr.marked n, plain s!"{off}u"]
  | .call f args =>
    .start (.call f args) :: callMarked (n.symbols.function f) (Expr.allMarked n args)
  | .numeric op args => (template op).mark (Expr.allMarked n args)
  | .choose cond yes no => chooseMarked (cond.marked n) (yes.marked n) (no.marked n)
  | .const v => plain ((Expr.const v).text n)
  | .zero t => plain ((Expr.zero t).text n)
  | .var i => plain ((Expr.var i).text n)
  | .temp i => plain ((Expr.temp i).text n)
  | .global i => plain ((Expr.global i).text n)
  | .memorySize => plain (Expr.memorySize.text n)

/-- The texts of several expressions, with every call marked. -/
def Expr.allMarked (n : Naming) : List Expr → List Marked
  | [] => []
  | e :: es => e.marked n :: Expr.allMarked n es

end

lemma Expr.allMarked_eq_map (n : Naming) (es : List Expr) :
    Expr.allMarked n es = es.map (Expr.marked n) := by
  induction es with
  | nil => rfl
  | cons e es ih => rw [Expr.allMarked, ih, map_cons]

/-! ## Marks of expressions -/

/-- A marked text is a given text, the marks in it are given calls, and they are where these calls
stand. -/
structure Marks (n : Naming) (text : String) (calls : List Expr) (x : Marked) : Prop where
  /-- Without the marks, it is the text. -/
  chars : x.chars = text.toList
  /-- The marks name the calls. -/
  calls : x.calls = calls
  /-- Each mark stands in front of the call that it names. -/
  honest : x.Honest n

namespace Marks

variable {n : Naming} {text text' : String} {calls calls' : List Expr} {x x' : Marked}
  {args : List (String × List Expr × Marked)}

lemma plain (text : String) : Marks n text [] (plain text) :=
  ⟨Marked.chars_plain text, Marked.calls_plain text, Marked.honest_plain n text⟩

lemma append (h : Marks n text calls x) (h' : Marks n text' calls' x') :
    Marks n (text ++ text') (calls ++ calls') (x ++ x') :=
  ⟨by rw [Marked.chars_append, h.chars, h'.chars, String.toList_append],
    by rw [Marked.calls_append, h.calls, h'.calls], h.honest.append h'.honest⟩

lemma behind (text : String) (h : Marks n text' calls x) :
    Marks n (text ++ text') calls (C.Marked.plain text ++ x) :=
  (plain text).append h

lemma before (h : Marks n text calls x) (text' : String) :
    Marks n (text ++ text') calls (x ++ C.Marked.plain text') := by
  have hboth := h.append (plain (n := n) text')
  rwa [append_nil] at hboth

lemma operand (h : Marks n text calls x) : Marks n (operand text) calls (operandMarked x) := by
  unfold C.operand operandMarked
  rw [h.chars]
  split
  · exact h
  · exact (h.behind "(").before ")"

/-- Texts in a list, with a comma between each two. -/
lemma commas (h : ∀ arg ∈ args, Marks n arg.1 arg.2.1 arg.2.2) :
    Marks n (", ".intercalate (args.map fun arg => arg.1)) (args.flatMap fun arg => arg.2.1)
      (List.intercalate (C.Marked.plain ", ") (args.map fun arg => arg.2.2)) := by
  induction args with
  | nil => exact plain ""
  | cons arg args ih =>
    obtain ⟨harg, hr⟩ := forall_mem_cons.mp h
    cases args with
    | nil => simpa using harg
    | cons next args =>
      have hboth := (harg.before ", ").append (ih hr)
      simpa [String.intercalate_cons_cons, List.intercalate] using hboth

/-- A call of a function, as far as its arguments are concerned. -/
lemma callText (name : String) (h : ∀ arg ∈ args, Marks n arg.1 arg.2.1 arg.2.2) :
    Marks n (callText name (args.map fun arg => arg.1)) (args.flatMap fun arg => arg.2.1)
      (callMarked name (args.map fun arg => arg.2.2)) :=
  ((commas h).behind (name ++ "(")).before ")"

lemma start {e : Expr} (h : Marks n (e.text n) calls x) (hchar : x.startsWithChar = true) :
    Marks n (e.text n) (e :: calls) (.start e :: x) :=
  ⟨h.chars, congrArg (e :: ·) h.calls, ⟨h.chars ▸ prefix_rfl, hchar, h.honest⟩⟩

/-- A choice by a condition. -/
lemma choose {c y no : String} {cs ys ns : List Expr} {xc xy xn : Marked} (hc : Marks n c cs xc)
    (hy : Marks n y ys xy) (hn : Marks n no ns xn) :
    Marks n (chooseText c y no) (cs ++ (ys ++ ns)) (chooseMarked xc xy xn) := by
  have hall := (((((hc.operand.behind "(").before " ? ").append hy.operand).before " : ").append
    hn.operand).before ")"
  rwa [append_assoc] at hall

/-- A template with its operands. -/
lemma fill (h : ∀ arg ∈ args, Marks n arg.1 arg.2.1 arg.2.2) (t : Template) :
    Marks n (t.fill (args.map fun arg => arg.1))
      (t.holes.flatMap fun i => ((args.map fun arg => arg.2.1)[i]?).getD [])
      (t.mark (args.map fun arg => arg.2.2)) := by
  induction t with
  | nil => exact plain ""
  | cons piece rest ih =>
    cases piece with
    | char c =>
      exact ⟨by rw [Template.toList_fill_char, ← ih.chars]; rfl, ih.calls, ih.honest⟩
    | hole i =>
      have hhole : Marks n (Template.filled (args.map fun arg => arg.1) i)
          (((args.map fun arg => arg.2.1)[i]?).getD [])
          ((((args.map fun arg => arg.2.2)[i]?).map operandMarked).getD []) := by
        simp only [Template.filled, getElem?_map]
        cases hi : args[i]? with
        | none => exact plain ""
        | some arg => exact (h arg (mem_of_getElem? hi)).operand
      have hboth := hhole.append ih
      exact ⟨by rw [Template.toList_fill_hole, ← String.toList_append, ← hboth.chars]; rfl,
        hboth.calls, hboth.honest⟩

end Marks

lemma startsWithChar_callMarked (name : String) (args : List Marked) :
    (callMarked name args).startsWithChar = true := by
  unfold callMarked Marked.plain
  rw [String.toList_append]
  cases name.toList <;> rfl

/-- An expression with its text, its calls and its marked text, as an argument. -/
def Expr.argument (n : Naming) (e : Expr) : String × List Expr × Marked :=
  (e.text n, e.calls, e.marked n)

/-- The arguments of a call or operator. -/
lemma Expr.map_argument (n : Naming) (args : List Expr) :
    (args.map (argument n)).map (fun p => p.1) = Expr.texts n args ∧
      (args.map (argument n)).map (fun p => p.2.1) = Expr.callsOf args ∧
      (args.map (argument n)).map (fun p => p.2.2) = Expr.allMarked n args := by
  rw [Expr.texts_eq_map, Expr.callsOf_eq_map, Expr.allMarked_eq_map]
  refine ⟨?_, ?_, ?_⟩ <;>
    rw [map_map] <;>
    rfl

/-- **A marked expression is its text, with its calls marked.** -/
theorem Expr.marks_text (n : Naming) (e : Expr) : Marks n (e.text n) e.calls (e.marked n) := by
  have hargs {args : List Expr} (ih : ∀ a ∈ args, Marks n (a.text n) a.calls (a.marked n)) :
      ∀ p ∈ args.map (argument n), Marks n p.1 p.2.1 p.2.2 := by
    intro p hp
    obtain ⟨a, ha, rfl⟩ := mem_map.mp hp
    exact ih a ha
  induction e using Expr.induct with
  | const | zero | var | temp | global | memorySize => exact .plain _
  | memoryGrow delta ih =>
    refine Marks.start ?_ (startsWithChar_callMarked _ _)
    have hcall := Marks.callText "wasm_rt_memory_grow" (hargs (forall_mem_singleton.mpr ih))
    rw [flatMap_def, (map_argument n [delta]).1, (map_argument n [delta]).2.1,
      (map_argument n [delta]).2.2] at hcall
    rw [← append_nil delta.calls]
    exact hcall
  | load op addr off ih =>
    have hload (text : String) : Marks n (callText (supportName op.name) [addr.text n, text])
        addr.calls (callMarked (supportName op.name) [addr.marked n, plain text]) := by
      have hboth : ∀ p ∈ [addr.argument n, (text, [], plain text)], Marks n p.1 p.2.1 p.2.2 :=
        forall_mem_cons.mpr ⟨ih, forall_mem_singleton.mpr (.plain text)⟩
      have hcall := Marks.callText (supportName op.name) hboth
      simp only [argument, map_cons, map_nil, flatMap_cons, flatMap_nil, append_nil] at hcall
      exact hcall
    rw [Expr.text, Expr.calls, Expr.marked]
    exact hload _
  | call f args ih =>
    refine Marks.start ?_ (startsWithChar_callMarked _ _)
    have hcall := Marks.callText (n.symbols.function f) (hargs ih)
    rwa [flatMap_def, (map_argument n args).1, (map_argument n args).2.1,
      (map_argument n args).2.2] at hcall
  | numeric op args ih =>
    have hfill := Marks.fill (hargs ih) (template op)
    rwa [(map_argument n args).1, (map_argument n args).2.1, (map_argument n args).2.2] at hfill
  | choose cond yes no ihc ihy ihn => exact ihc.choose ihy ihn

/-! ## Lines -/

/-- A marked line at a nesting depth. -/
def indentedMarked (d : Nat) (x : Marked) : Marked :=
  plain (String.ofList (List.replicate (2 * d) ' ')) ++ x

/-- An assignment. -/
def assignMarked (place : String) (value : Marked) : Marked :=
  plain (place ++ " = ") ++ value ++ plain ";"

/-- The return statement. -/
def leaveMarked (n : Naming) : Option Expr → Marked
  | some e => plain "return " ++ e.marked n ++ plain ";"
  | none => plain "return;"

/-- What happens where a conditional jump is taken. -/
def jumpMarked (n : Naming) (label : Nat) : Option (Nat × Expr) → Marked
  | some (t, value) =>
    plain "\x7b " ++ assignMarked (tempName t) (value.marked n) ++ plain " " ++
      plain (jumpText label) ++ plain " \x7d"
  | none => plain (jumpText label)

/-- What depends on a condition. -/
def ifMarked (n : Naming) (cond : Expr) (x : Marked) : Marked :=
  plain "if (" ++ cond.marked n ++ plain ") " ++ x

/-- The lines of a statement of one line, with every call marked. -/
def runMarked (n : Naming) (d : Nat) : Stmt → List Marked
  | .assign place value => [indentedMarked d (assignMarked (place.text n) (value.marked n))]
  | .discard value =>
    [indentedMarked d (plain "(void)" ++ operandMarked (value.marked n) ++ plain ";")]
  | .call f args => [indentedMarked d ((Expr.call f args).marked n ++ plain ";")]
  | .store op addr off value =>
    let args := [addr.marked n, plain s!"{off}u", value.marked n]
    [indentedMarked d (callMarked (supportName op.name) args ++ plain ";")]
  | .jumpIf cond carried label =>
    [indentedMarked d (ifMarked n cond (jumpMarked n label carried))]
  | .leave value => [indentedMarked d (leaveMarked n value)]
  | .leaveIf cond value => [indentedMarked d (ifMarked n cond (leaveMarked n value))]
  | s => (s.lines n d).map plain

/-- The text of lines, with every call marked. -/
def layoutMarked (n : Naming) : (d : Nat) → List Line → List Marked
  | _, [] => []
  | d, .label l :: k => plain (indented d (s!"L{l}" ++ ":;")) :: layoutMarked n d k
  | d, .openBlock :: k => plain (indented d "\x7b") :: layoutMarked n (d + 1) k
  | d, .openIf cond :: k =>
    indentedMarked d (plain "if (" ++ cond.marked n ++ plain ") \x7b") :: layoutMarked n (d + 1) k
  | d, .openElse :: k =>
    plain (indented (d - 1) "\x7d else \x7b") :: layoutMarked n d k
  | d, .close :: k => plain (indented (d - 1) "\x7d") :: layoutMarked n (d - 1) k
  | d, .run s :: k => runMarked n d s ++ layoutMarked n d k

/-- Lines one below the other. -/
def linesMarked (xs : List Marked) : Marked := xs.flatMap fun x => x ++ plain "\n"

/-- Marked lines are given lines, and the marks in them are given calls. -/
def MarksLines (n : Naming) (lines : List String) (calls : List Expr) (xs : List Marked) : Prop :=
  Marks n (String.join (lines.map fun line => line ++ "\n")) calls (linesMarked xs)

namespace MarksLines

variable {n : Naming} {lines lines' : List String} {calls calls' : List Expr} {xs xs' : List Marked}

lemma nil : MarksLines n [] [] [] := .plain ""

lemma append (h : MarksLines n lines calls xs) (h' : MarksLines n lines' calls' xs') :
    MarksLines n (lines ++ lines') (calls ++ calls') (xs ++ xs') := by
  have hboth := Marks.append h h'
  refine ⟨?_, ?_, ?_⟩
  · simpa [linesMarked, String.toList_join] using hboth.chars
  · simpa [linesMarked] using hboth.calls
  · simpa [linesMarked] using hboth.honest

lemma single {line : String} {x : Marked} (h : Marks n line calls x) :
    MarksLines n [line] calls [x] := by
  have hline := h.before "\n"
  refine ⟨?_, ?_, ?_⟩
  · simpa [linesMarked, String.toList_join] using hline.chars
  · simpa [linesMarked] using hline.calls
  · simpa [linesMarked] using hline.honest

lemma cons {line : String} {x : Marked} (h : Marks n line calls x)
    (h' : MarksLines n lines calls' xs) :
    MarksLines n (line :: lines) (calls ++ calls') (x :: xs) :=
  (single h).append h'

lemma plain (lines : List String) : MarksLines n lines [] (lines.map plain) := by
  induction lines with
  | nil => exact nil
  | cons line lines ih => exact cons (.plain line) ih

end MarksLines

namespace Marks

variable {n : Naming} {text : String} {calls : List Expr} {x : Marked}

lemma indented (h : Marks n text calls x) (d : Nat) :
    Marks n (indented d text) calls (indentedMarked d x) :=
  h.behind _

lemma assign (h : Marks n text calls x) (place : String) :
    Marks n (assignText place text) calls (assignMarked place x) :=
  (h.behind (place ++ " = ")).before ";"

/-- A condition in parentheses, and what depends on it. -/
lemma cond (h : Marks n text calls x) (cond : Expr) :
    Marks n ("if (" ++ cond.text n ++ ") " ++ text) (cond.calls ++ calls)
      (C.Marked.plain "if (" ++ cond.marked n ++ C.Marked.plain ") " ++ x) :=
  (((cond.marks_text n).behind "if (").before ") ").append h

lemma leave (n : Naming) (value : Option Expr) :
    Marks n (leaveText n value) (value.toList.flatMap Expr.calls) (leaveMarked n value) := by
  cases value with
  | none => exact plain _
  | some e =>
    rw [Option.toList_some, flatMap_singleton]
    exact ((e.marks_text n).behind "return ").before ";"

/-- A store. -/
lemma store (n : Naming) (op : Store) (addr value : Expr) (off : String) :
    Marks n (C.callText (supportName op.name) [addr.text n, off, value.text n])
      (addr.calls ++ value.calls)
      (callMarked (supportName op.name) [addr.marked n, C.Marked.plain off, value.marked n]) := by
  have ha : ∀ p ∈ [addr.argument n, (off, [], C.Marked.plain off), value.argument n],
      Marks n p.1 p.2.1 p.2.2 :=
    forall_mem_cons.mpr ⟨addr.marks_text n, forall_mem_cons.mpr
      ⟨plain off, forall_mem_singleton.mpr (value.marks_text n)⟩⟩
  have hcall := callText (supportName op.name) ha
  simp only [Expr.argument, map_cons, map_nil, flatMap_cons, flatMap_nil, append_nil,
    nil_append] at hcall
  exact hcall

end Marks

/-- The marked lines of a statement of one line are its lines, with its calls marked. -/
lemma marks_run (n : Naming) (d : Nat) (s : Stmt) :
    MarksLines n (s.lines n d) (Line.run s).calls (runMarked n d s) := by
  cases s with
  | assign place value =>
    rw [Line.calls_one rfl]
    exact .single (((value.marks_text n).assign (place.text n)).indented d)
  | discard value =>
    rw [Line.calls_one rfl]
    exact .single ((((value.marks_text n).operand.behind "(void)").before ";").indented d)
  | call f args =>
    rw [Line.calls_one rfl]
    exact .single ((((Expr.call f args).marks_text n).before ";").indented d)
  | store op addr off value =>
    rw [Line.calls_two rfl]
    exact .single (((Marks.store n op addr value _).before ";").indented d)
  | jumpIf cond carried label =>
    cases carried with
    | none =>
      rw [Line.calls_one rfl, ← append_nil cond.calls]
      exact .single (((Marks.plain (jumpText label)).cond cond).indented d)
    | some carried =>
      rw [Line.calls_two rfl]
      have hassign := (carried.2.marks_text n).assign (tempName carried.1)
      have haction := (((hassign.behind "\x7b ").before " ").before (jumpText label)).before " \x7d"
      exact .single ((haction.cond cond).indented d)
  | leave value => exact .single ((Marks.leave n value).indented d)
  | leaveIf cond value => exact .single (((Marks.leave n value).cond cond).indented d)
  | trap | jump | block | loop | onlyIf | ifElse => exact .plain _

/-- **Marked lines are the text of lines, with their calls marked.** -/
theorem marks_layout (n : Naming) (d : Nat) (k : List Line) :
    MarksLines n (layout n d k) (k.flatMap Line.calls) (layoutMarked n d k) := by
  induction k generalizing d with
  | nil => exact .nil
  | cons line k ih =>
    rw [flatMap_cons]
    cases line with
    | label | openBlock | openElse | close => exact .cons (.plain _) (ih _)
    | openIf cond =>
      rw [Line.calls_one rfl]
      exact .cons ((((cond.marks_text n).behind "if (").before ") \x7b").indented d) (ih _)
    | run s =>
      rw [layout, runLines_eq]
      exact (marks_run n d s).append (ih d)

/-! ## Functions -/

namespace FunctionDef

/-- The text of a function definition, with every call marked. -/
def marked (s : Symbols) (f : FunctionDef) : Marked :=
  linesMarked ((f.opening s).map plain ++ layoutMarked (f.naming s) 1 f.bodyLines ++ [plain "\x7d"])

/-- The places of the calls in the text of a function. -/
def callSites (s : Symbols) (f : FunctionDef) : List (Nat × Expr) := (f.marked s).sites 0

/-- **A marked function is its text, with the calls of its body marked.** -/
theorem marks_text (s : Symbols) (f : FunctionDef) :
    Marks (f.naming s) (f.text s) (f.bodyLines.flatMap Line.calls) (f.marked s) := by
  have hopening := MarksLines.plain (n := f.naming s) (f.opening s)
  have hbody := marks_layout (f.naming s) 1 f.bodyLines
  have hall := (hopening.append hbody).append (.plain ["\x7d"])
  rw [append_nil, nil_append] at hall
  rwa [text_eq]

end FunctionDef

end C

/-! ## Calls of functions -/

open C (Expr Stmt)

/-- **Calls are neither lost nor made twice**: what is known of the calls in a function's text, and
of the instructions of its body. -/
structure CallsOnce (env : Surroundings) (code : List Instruction) (s : C.Symbols)
    (f : C.FunctionDef) : Prop where
  /-- Every instruction is read, in order. -/
  visited : (Rebuild.visits env code {}).map Prod.snd = code
  /-- A `call` that can be reached issues a call of the function that it names. -/
  calls : ∀ visit ∈ Rebuild.visits env code {}, visit.1.reach = .live → visit.2.op = .call →
    ∃ callee args, visit.2.imm.index? = some callee ∧
      Rebuild.issued env visit.1 visit.2 = some (.call callee args)
  /-- A `grow_memory` that can be reached issues a growing of the memory. -/
  grows : ∀ visit ∈ Rebuild.visits env code {}, visit.1.reach = .live → visit.2.op = .growMemory →
      ∃ delta, Rebuild.issued env visit.1 visit.2 = some (.memoryGrow delta)
  /-- An instruction that cannot be reached issues no call. -/
  skips : ∀ visit ∈ Rebuild.visits env code {}, visit.1.reach ≠ .live →
    Rebuild.issued env visit.1 visit.2 = none
  /-- Neither does any other instruction. -/
  others : ∀ visit ∈ Rebuild.visits env code {}, visit.2.op ≠ .call →
    visit.2.op ≠ .growMemory → Rebuild.issued env visit.1 visit.2 = none
  /-- The calls are read off the text: without the marks, what is marked is the text. -/
  text : (f.marked s).chars = (f.text s).toList
  /-- The calls that the text shows are those that are issued, each once. -/
  once : ((f.callSites s).map Prod.snd).Perm (Rebuild.issuedBy env code {})
  /-- No two calls are shown at one place. -/
  apart : ((f.callSites s).map Prod.fst).Pairwise (· < ·)
  /-- At the place of a call stands its text. -/
  shown : ∀ site ∈ f.callSites s,
    (site.2.text (f.naming s)).toList <+: (f.text s).toList.drop site.1

/-- **Each call that can be reached is shown at exactly one place of the text**, and no other call
is.

**Proof sketch.** Each step moves the calls that are issued on, from operands into statements, and
neither adds nor loses one. Printing marks them where they are. -/
theorem callsOnce_of_functionText {m : Module} {s : C.Symbols} {pos : Nat} {text : String}
    (h : (functionText m s pos).outcome = .ok text) :
    ∃ fn t f, m.functions[pos]? = some fn ∧ m.types[fn.typeIndex]? = some t ∧
      (rebuildFunction m pos).outcome = .ok f ∧ text = f.text s ∧
      CallsOnce (surroundings m (m.importedFunctions + pos) fn t) fn.code s f := by
  obtain ⟨f, hf, htext⟩ := exists_function_of_text h
  obtain ⟨fn, t, r, r1, hrebuilt⟩ := exists_rebuilt hf
  have hmarks := C.FunctionDef.marks_text s f
  have hsites := hmarks.honest.sites 0
  refine ⟨fn, t, f, hrebuilt.function, hrebuilt.signature, hf, htext, ?_⟩
  constructor
  case visited => exact Rebuild.map_snd_visits hrebuilt.run
  case calls =>
    intro visit hvisit hl hop
    obtain ⟨r2, hstep⟩ := Rebuild.exists_step_of_mem_visits hrebuilt.run hvisit
    exact Rebuild.exists_issued_call hl hop hstep
  case grows =>
    intro visit hvisit hl hop
    obtain ⟨r2, hstep⟩ := Rebuild.exists_step_of_mem_visits hrebuilt.run hvisit
    exact Rebuild.exists_issued_growMemory hl hop hstep
  case skips =>
    intro visit _ hdead
    exact Rebuild.issued_of_not_live hdead
  case others =>
    intro visit _ hcall hgrow
    exact Rebuild.issued_of_ne hcall hgrow
  case text => exact hmarks.chars
  case once =>
    show ((C.Marked.sites 0 (f.marked s)).map Prod.snd).Perm _
    rw [C.Marked.map_snd_sites, hmarks.calls]
    exact hrebuilt.calls_body
  case apart => exact hsites.1
  case shown =>
    intro site hsite
    have htext := hsites.2 site hsite
    rwa [hmarks.chars, Nat.sub_zero] at htext

/-- A module with a function whose calls are dropped, carried by a conditional branch, left under a
branch, chosen between, folded into a conditional expression, kept until their arm has statements,
given to an indirect call and used as the index of a branch table, and one that cannot be
reached. -/
def manyCalls : Module where
  types := [⟨[], some .i32⟩]
  signatures := [0]
  functions := [ ⟨0, [.i32], [⟨.call, .index 0⟩, ⟨.drop, .none⟩,
        ⟨.block, .block (some .i32)⟩, ⟨.call, .index 0⟩, ⟨.call, .index 0⟩, ⟨.brIf, .depth 0⟩,
        ⟨.call, .index 0⟩, ⟨.br, .depth 0⟩, ⟨.call, .index 0⟩, ⟨.endOp, .none⟩,
        ⟨.call, .index 0⟩, ⟨.call, .index 0⟩, ⟨.select, .none⟩,
        ⟨.ifOp, .block (some .i32)⟩, ⟨.call, .index 0⟩, ⟨.elseOp, .none⟩, ⟨.call, .index 0⟩,
        ⟨.growMemory, .none⟩, ⟨.endOp, .none⟩,
        ⟨.ifOp, .block (some .i32)⟩, ⟨.call, .index 0⟩, ⟨.elseOp, .none⟩, ⟨.call, .index 0⟩,
        ⟨.setLocal, .index 0⟩, ⟨.getLocal, .index 0⟩, ⟨.endOp, .none⟩,
        ⟨.drop, .none⟩, ⟨.call, .index 0⟩, ⟨.callIndirect, .callIndirect 0 false⟩, ⟨.drop, .none⟩,
        ⟨.block, .block none⟩, ⟨.call, .index 0⟩, ⟨.brTable, .table [] 0⟩, ⟨.call, .index 0⟩,
        ⟨.endOp, .none⟩, ⟨.call, .index 0⟩]⟩]

/-- Its calls are shown once each. -/
theorem callsOnce_manyCalls :
    ∃ text, (functionText manyCalls ⟨"", "", [], [], []⟩ 0).outcome = .ok text ∧
      ∃ fn t f, manyCalls.functions[0]? = some fn ∧ manyCalls.types[fn.typeIndex]? = some t ∧
        (rebuildFunction manyCalls 0).outcome = .ok f ∧ text = f.text ⟨"", "", [], [], []⟩ ∧
        CallsOnce (surroundings manyCalls (manyCalls.importedFunctions + 0) fn t) fn.code
          ⟨"", "", [], [], []⟩ f :=
  ⟨_, rfl, callsOnce_of_functionText rfl⟩

end WasmToC

import Mathlib.Tactic.Lemma
import WasmToC.C.Stmt

/-!
# Function bodies as lines

The text of a function body has one line for each brace, label and simple statement. Here these
lines are data: a body is flattened into them, and its text is their layout.

## Main definitions

* `C.Line` — a line of a function body.
* `C.Stmt.flatten`, `C.Stmt.flattenAll` — the lines of statements.
* `C.layout` — the text of lines, indented by the nesting of braces.
* `C.Nested` — lines whose braces are balanced and properly nested.
* `C.labelsOf`, `C.findLabel` — the labels that lines define, and where.

## Main results

* `C.FunctionDef.text_eq` — the text of a function, with its body laid out line by line.
* `C.nested_flattenAll` — the braces of statements are balanced and properly nested.
-/

namespace WasmToC.C

open List Stmt

/-- A line of a function body. -/
inductive Line where
  /-- The definition of a label. -/
  | label (l : Nat)
  /-- The opening brace of a block or loop. -/
  | openBlock
  /-- A condition with the opening brace of its first arm. -/
  | openIf (cond : Expr)
  /-- The braces between two arms. -/
  | openElse
  /-- A closing brace. -/
  | close
  /-- A statement of one line. -/
  | run (s : Stmt)

/-- The line of the label behind a construct, if it has one. -/
def labelLine : Option Nat → List Line
  | some l => [.label l]
  | none => []

mutual

/-- The lines of a statement. -/
def Stmt.flatten : Stmt → List Line
  | .block body label => .openBlock :: flattenAll body ++ .close :: labelLine label
  | .loop label body => .label label :: .openBlock :: flattenAll body ++ [.close]
  | .onlyIf cond yes label =>
    .openIf cond :: flattenAll yes ++ .close :: labelLine label
  | .ifElse cond yes no label =>
    .openIf cond :: flattenAll yes ++ .openElse :: flattenAll no ++ .close :: labelLine label
  | .assign place value => [.run (.assign place value)]
  | .discard value => [.run (.discard value)]
  | .call f args => [.run (.call f args)]
  | .store op addr off value => [.run (.store op addr off value)]
  | .trap code => [.run (.trap code)]
  | .jump label => [.run (.jump label)]
  | .jumpIf cond carried label => [.run (.jumpIf cond carried label)]
  | .leave value => [.run (.leave value)]
  | .leaveIf cond value => [.run (.leaveIf cond value)]

/-- The lines of a list of statements. -/
def Stmt.flattenAll : List Stmt → List Line
  | [] => []
  | s :: rest => s.flatten ++ flattenAll rest

end

@[simp] lemma Stmt.flattenAll_nil : flattenAll [] = [] := by rw [flattenAll]

@[simp] lemma Stmt.flattenAll_cons (s : Stmt) (rest : List Stmt) :
    flattenAll (s :: rest) = s.flatten ++ flattenAll rest := by
  rw [flattenAll]

@[simp] lemma Stmt.flattenAll_append (ss ts : List Stmt) :
    flattenAll (ss ++ ts) = flattenAll ss ++ flattenAll ts := by
  induction ss with
  | nil => simp
  | cons s ss ih => simp [ih]

lemma Stmt.flatten_ne_nil (s : Stmt) : s.flatten ≠ [] := by
  cases s <;> simp [flatten]

/-! ## Texts -/

/-- The text of a statement by which control leaves, as C has it. -/
def exitText? (n : Naming) : Stmt → Option String
  | .jump l => some s!"goto L{l};"
  | .jumpIf cond none l => some ("if (" ++ cond.text n ++ ") " ++ s!"goto L{l};")
  | .jumpIf cond (some (t, value)) l =>
    let carries := s!"t{t}" ++ " = " ++ value.text n ++ ";"
    some ("if (" ++ cond.text n ++ ") " ++ ("\x7b " ++ carries ++ " " ++ s!"goto L{l};" ++ " \x7d"))
  | .leave none => some "return;"
  | .leave (some value) => some ("return " ++ value.text n ++ ";")
  | .leaveIf cond none => some ("if (" ++ cond.text n ++ ") " ++ "return;")
  | .leaveIf cond (some value) =>
    some ("if (" ++ cond.text n ++ ") " ++ ("return " ++ value.text n ++ ";"))
  | _ => none

/-- The lines of a statement of one line. -/
def runLines (n : Naming) (d : Nat) (s : Stmt) : List String :=
  match exitText? n s with
  | some text => [indented d text]
  | none => s.lines n d

/-- Statements by which control leaves are printed as C has them. -/
@[simp] lemma runLines_eq (n : Naming) (d : Nat) (s : Stmt) : runLines n d s = s.lines n d := by
  have hjump (l : Nat) : jumpText l = s!"goto L{l};" := by
    show "goto " ++ ("L" ++ toString l) ++ ";" = _
    rw [← String.append_assoc]
    rfl
  cases s with
  | jump l => simp [runLines, exitText?, Stmt.lines, hjump]
  | jumpIf cond carried l =>
    cases carried <;> simp [runLines, exitText?, Stmt.lines, hjump, assignText, tempName]
  | leave value | leaveIf _ value =>
    cases value <;> simp [runLines, exitText?, Stmt.lines, leaveText]
  | _ => rfl

/-- The text of lines, the first of which stands at a given depth. -/
def layout (n : Naming) : (d : Nat) → List Line → List String
  | _, [] => []
  | d, .label l :: k => indented d (s!"L{l}" ++ ":;") :: layout n d k
  | d, .openBlock :: k => indented d "\x7b" :: layout n (d + 1) k
  | d, .openIf cond :: k =>
    indented d ("if (" ++ cond.text n ++ ") \x7b") :: layout n (d + 1) k
  | d, .openElse :: k => indented (d - 1) "\x7d else \x7b" :: layout n d k
  | d, .close :: k => indented (d - 1) "\x7d" :: layout n (d - 1) k
  | d, .run s :: k => runLines n d s ++ layout n d k

lemma layout_labelLine (n : Naming) (d : Nat) (label : Option Nat) (k : List Line) :
    layout n d (labelLine label ++ k) = labelLines d label ++ layout n d k := by
  cases label <;> simp [labelLine, labelLines, layout, labelName]

mutual

/-- The lines of a statement are laid out as its text. -/
lemma layout_flatten (n : Naming) (d : Nat) (k : List Line) : (s : Stmt) →
    layout n d (s.flatten ++ k) = s.lines n d ++ layout n d k
  | .block body label => by
    have h := layout_flattenAll n (d + 1) (.close :: (labelLine label ++ k)) body
    simp [Stmt.flatten, Stmt.lines, layout, h, layout_labelLine]
  | .loop label body => by
    have h := layout_flattenAll n (d + 1) (.close :: k) body
    simp [Stmt.flatten, Stmt.lines, layout, h, labelLines, labelName]
  | .onlyIf cond yes label => by
    have h := layout_flattenAll n (d + 1) (.close :: (labelLine label ++ k)) yes
    simp [Stmt.flatten, Stmt.lines, layout, ifLine, h, layout_labelLine]
  | .ifElse cond yes no label => by
    have hno := layout_flattenAll n (d + 1) (.close :: (labelLine label ++ k)) no
    have hyes := layout_flattenAll n (d + 1)
      (.openElse :: (Stmt.flattenAll no ++ .close :: (labelLine label ++ k))) yes
    simp [Stmt.flatten, Stmt.lines, layout, ifLine, hyes, hno, layout_labelLine]
  | .assign .. | .discard .. | .call .. | .store .. | .trap .. | .jump .. | .jumpIf ..
  | .leave .. | .leaveIf .. => by simp [Stmt.flatten, layout]

/-- The lines of statements are laid out as their text. -/
lemma layout_flattenAll (n : Naming) (d : Nat) (k : List Line) : (ss : List Stmt) →
    layout n d (flattenAll ss ++ k) = allLines n d ss ++ layout n d k
  | [] => by simp [allLines]
  | s :: rest => by
    rw [flattenAll_cons, append_assoc, layout_flatten n d _ s,
      layout_flattenAll n d k rest, allLines, append_assoc]

end

/-- The text of a body is the layout of its lines. -/
lemma layout_body (n : Naming) (d : Nat) (ss : List Stmt) :
    layout n d (flattenAll ss) = allLines n d ss := by
  have h := layout_flattenAll n d [] ss
  rwa [append_nil, layout, append_nil] at h

namespace FunctionDef

variable (s : Symbols) (f : FunctionDef)

/-- The lines of a function's body. -/
def bodyLines : List Line := Stmt.flattenAll f.body

/-- The lines in front of the statements of a function: its head and its variables. -/
def opening : List String :=
  let n := f.naming s
  let locals := f.locals.mapIdx fun i t => declaration t (localName n.params (n.params + i))
  let temps := f.temps.mapIdx fun i t => declaration t (tempName i)
  (head s f.index f.isExported f.type ++ " \x7b") :: locals ++ temps

/-- **The text of a function** has its head and variables, the lines of its body and a brace, each
ended by a newline. -/
theorem text_eq : f.text s =
    String.join ((f.opening s ++ layout (f.naming s) 1 f.bodyLines ++ ["\x7d"]).map
      fun line => line ++ "\n") := by
  rw [bodyLines, layout_body]
  rfl

end FunctionDef

/-! ## Braces -/

/-- What an opening brace opens. -/
inductive Brace where
  /-- A block or loop. -/
  | block
  /-- The first arm of a conditional. -/
  | arm
  /-- The second arm of a conditional. -/
  | otherwise
  deriving DecidableEq, Repr

/-- Follows the braces of lines inside given open ones, innermost first. There is no answer when
a brace closes what is not open, or an arm is followed by another that cannot follow it. -/
def braces : List Brace → List Line → Option (List Brace)
  | opened, [] => some opened
  | opened, .openBlock :: k => braces (.block :: opened) k
  | opened, .openIf _ :: k => braces (.arm :: opened) k
  | .arm :: opened, .openElse :: k => braces (.otherwise :: opened) k
  | _, .openElse :: _ => none
  | _ :: opened, .close :: k => braces opened k
  | [], .close :: _ => none
  | opened, .label _ :: k => braces opened k
  | opened, .run _ :: k => braces opened k

/-- Lines whose braces are balanced and properly nested. -/
inductive Nested : List Line → Prop
  | nil : Nested []
  | label (l : Nat) : Nested [.label l]
  | run {s : Stmt} (hs : s.flatten = [.run s]) : Nested [.run s]
  | append {k k' : List Line} (h : Nested k) (h' : Nested k') : Nested (k ++ k')
  | block {k : List Line} (h : Nested k) : Nested (.openBlock :: k ++ [.close])
  | onlyIf (cond : Expr) {yes : List Line} (h : Nested yes) :
      Nested (.openIf cond :: yes ++ [.close])
  | ifElse (cond : Expr) {yes no : List Line} (h : Nested yes) (h' : Nested no) :
      Nested (.openIf cond :: yes ++ .openElse :: no ++ [.close])

lemma nested_labelLine (label : Option Nat) : Nested (labelLine label) := by
  cases label with
  | none => exact .nil
  | some l => exact .label l

mutual

/-- The lines of a statement are properly nested. -/
lemma nested_flatten : (s : Stmt) → Nested s.flatten
  | .block body label => by
    simpa [Stmt.flatten] using (nested_flattenAll body).block.append (nested_labelLine label)
  | .loop label body => by
    simpa [Stmt.flatten] using (Nested.label label).append (nested_flattenAll body).block
  | .onlyIf cond yes label => by
    simpa [Stmt.flatten] using ((nested_flattenAll yes).onlyIf cond).append (nested_labelLine label)
  | .ifElse cond yes no label => by
    simpa [Stmt.flatten] using ((nested_flattenAll yes).ifElse cond (nested_flattenAll no)).append
        (nested_labelLine label)
  | .assign .. | .discard .. | .call .. | .store .. | .trap .. | .jump .. | .jumpIf ..
  | .leave .. | .leaveIf .. => by
    rw [Stmt.flatten]
    exact .run (by rw [Stmt.flatten])

lemma nested_flattenAll : (ss : List Stmt) → Nested (flattenAll ss)
  | [] => by
    rw [flattenAll_nil]
    exact .nil
  | s :: rest => by
    rw [flattenAll_cons]
    exact (nested_flatten s).append (nested_flattenAll rest)

end

/-- Each statement among the lines is one of one line. -/
lemma Nested.flatten_of_mem {ls : List Line} (h : Nested ls) {s : Stmt} (hs : .run s ∈ ls) :
    s.flatten = [.run s] := by
  induction h with
  | nil | label => simp at hs
  | run h =>
    cases mem_singleton.mp hs
    exact h
  | append _ _ h h' => exact (mem_append.mp hs).elim h h'
  | block _ h | onlyIf _ _ h => exact h (by simpa using hs)
  | ifElse _ _ _ h h' => exact (by simpa using hs : _ ∨ _).elim h h'

lemma Nested.braces {ls : List Line} (h : Nested ls) (opened : List Brace) (k : List Line) :
    braces opened (ls ++ k) = braces opened k := by
  induction h generalizing opened k with
  | nil | label | run => simp [C.braces]
  | append _ _ h h' => simp [h, h']
  | block _ h | onlyIf _ _ h => simp [C.braces, h]
  | ifElse _ _ _ h h' => simp [C.braces, h, h']

/-- The braces of statements are balanced and properly nested. -/
lemma braces_flattenAll (opened : List Brace) (k : List Line) (ss : List Stmt) :
    braces opened (flattenAll ss ++ k) = braces opened k :=
  (nested_flattenAll ss).braces opened k

/-! ## Labels -/

/-- The label that a line defines. -/
def Line.label? : Line → Option Nat
  | .label l => some l
  | _ => none

/-- The labels that lines define. -/
def labelsOf (k : List Line) : List Nat := k.filterMap Line.label?

@[simp] lemma labelsOf_nil : labelsOf [] = [] := rfl

lemma labelsOf_cons (line : Line) (k : List Line) :
    labelsOf (line :: k) = line.label?.toList ++ labelsOf k := by
  cases line <;> rfl

@[simp] lemma labelsOf_cons_label (l : Nat) (k : List Line) :
    labelsOf (.label l :: k) = l :: labelsOf k := rfl

@[simp] lemma labelsOf_append (k1 k2 : List Line) :
    labelsOf (k1 ++ k2) = labelsOf k1 ++ labelsOf k2 := filterMap_append

@[simp] lemma labelsOf_labelLine (label : Option Nat) :
    labelsOf (labelLine label) = label.toList := by
  cases label <;> rfl

/-! ## Jumps -/

/-- The label that a line may jump to. -/
def Line.jump? : Line → Option Nat
  | .run (.jump l) => some l
  | .run (.jumpIf _ _ l) => some l
  | _ => none

/-- The labels that lines may jump to. -/
def jumpsOf (k : List Line) : List Nat := k.filterMap Line.jump?

@[simp] lemma jumpsOf_append (k1 k2 : List Line) :
    jumpsOf (k1 ++ k2) = jumpsOf k1 ++ jumpsOf k2 := filterMap_append

/-! ## Where labels are -/

/-- The lines from the definition of a label on. -/
def findLabel (l : Nat) : List Line → Option (List Line)
  | [] => none
  | .label l' :: k => if l' = l then some (.label l' :: k) else findLabel l k
  | _ :: k => findLabel l k

/-- A label is found behind lines that do not define it. -/
lemma findLabel_append {l : Nat} {pre : List Line} (h : l ∉ labelsOf pre) (k : List Line) :
    findLabel l (pre ++ .label l :: k) = some (.label l :: k) := by
  induction pre with
  | nil => simp [findLabel]
  | cons line pre ih =>
    cases line with
    | label l' =>
      rw [labelsOf_cons_label, mem_cons, not_or] at h
      simp [findLabel, Ne.symm h.1, ih h.2]
    | _ => simpa [findLabel] using ih h

/-- Where no label is defined twice, a label is found where it is defined. -/
lemma findLabel_of_suffix {l : Nat} {k whole : List Line} (hw : (labelsOf whole).Nodup)
    (hk : .label l :: k <:+ whole) : findLabel l whole = some (.label l :: k) := by
  obtain ⟨pre, rfl⟩ := hk
  refine findLabel_append ?_ k
  rw [labelsOf_append, labelsOf_cons_label] at hw
  exact fun hl => (nodup_append.mp hw).2.2 l hl l mem_cons_self rfl

end WasmToC.C

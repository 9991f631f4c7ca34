import WasmToC.C.Ident

/-!
# Operands and templates

An operand can stand next to any operator if it is a word, or one pair of parentheses around
everything, perhaps with a word in front; anything else is put in parentheses. A template is a
text with `$a` and `$b` where operands go.

## Main definitions

* `C.isTight`, `C.operand` — when an operand needs parentheses, and adding them.
* `C.Template` — a template as a list of pieces.
* `C.Template.fill?` — a template with its operands.
-/

namespace WasmToC.C

/-- What can stand in a number or a name. -/
def isNumeralChar (c : Char) : Bool := isWordChar c || c = '.'

/-- What follows the parenthesis that closes the innermost open one, when `outer` others are open
around it. -/
def afterClose? : (outer : Nat) → List Char → Option (List Char)
  | _, [] => none
  | outer, c :: rest =>
    if c = '(' then afterClose? (outer + 1) rest
    else if c = ')' then
      match outer with
      | 0 => some rest
      | outer + 1 => afterClose? outer rest
    else afterClose? outer rest

/-- Whether a text binds tighter than any operator: a word or number, or a parenthesis that closes
at the very end, perhaps after a word. -/
def isTight (text : List Char) : Bool :=
  if text.all isNumeralChar then !text.isEmpty
  else
    match text.dropWhile isWordChar with
    | '(' :: inside => afterClose? 0 inside == some []
    | _ => false

/-- A text made fit to stand next to any operator. -/
def operand (text : String) : String := if isTight text.toList then text else "(" ++ text ++ ")"

/-- A piece of a template. -/
inductive Piece where
  /-- A character of its own. -/
  | char (c : Char)
  /-- The operand at a position. -/
  | hole (position : Nat)
  deriving DecidableEq, Repr

/-- A template. -/
abbrev Template := List Piece

namespace Template

/-- Reads a template: `$a` is the first operand and `$b` the second. -/
def parse : List Char → Template
  | [] => []
  | '$' :: 'a' :: rest => .hole 0 :: parse rest
  | '$' :: 'b' :: rest => .hole 1 :: parse rest
  | '$' :: c :: rest => .char '$' :: .char c :: parse rest
  | c :: rest => .char c :: parse rest

/-- How many operands a template needs. -/
def arity : Template → Nat
  | [] => 0
  | .char _ :: rest => arity rest
  | .hole i :: rest => max (i + 1) (arity rest)

/-- The text of a template; an operand that is not given is left out. -/
def fill (operands : List String) (t : Template) : String :=
  String.join (t.map fun
    | .char c => c.toString
    | .hole i => ((operands[i]?).map operand).getD "")

/-- The text of a template, if all operands it needs are given. -/
def fill? (operands : List String) (t : Template) : Option String :=
  if t.arity ≤ operands.length then some (t.fill operands) else none

end Template

end WasmToC.C

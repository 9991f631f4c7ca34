import WasmToC.C.Ident

/-!
# The grammar of C expressions

Texts are cut into the longest tokens that are there, and tokens are put together by the productions
of the language, one syntactic category for each rank of operators. A word in parentheses is a cast
if it is one of six type names; that is why type names are no names of objects. Literals of
characters and strings, compound literals, `sizeof` and the other forms with a keyword are left out:
each of them has a token that no production here takes.

## Main definitions

* `C.lex?` — the tokens of a text.
* `C.Tree` — the shape of an expression.
* `C.Derives` — the productions.
* `C.Parses` — a text has a shape.
-/

namespace WasmToC.C

/-! ## Tokens -/

/-- A punctuator. -/
inductive Punct where
  | lparen | rparen | lbracket | rbracket | lbrace | rbrace
  | dot | arrow | increment | decrement
  | times | divide | modulo | plus | minus | shiftLeft | shiftRight
  | less | greater | lessEq | greaterEq | equal | notEqual
  | bitAnd | bitXor | bitOr | and | or | tilde | bang
  | question | colon | semicolon | comma | ellipsis | hash | hashHash
  | assign | timesAssign | divideAssign | moduloAssign | plusAssign | minusAssign
  | shiftLeftAssign | shiftRightAssign | andAssign | xorAssign | orAssign
  deriving DecidableEq, Repr

/-- How the punctuators are spelled, the longest spellings first. -/
def spellings : List (List Char × Punct) := [
  (['%', ':', '%', ':'], .hashHash), (['.', '.', '.'], .ellipsis),
  (['<', '<', '='], .shiftLeftAssign), (['>', '>', '='], .shiftRightAssign),
  (['-', '>'], .arrow), (['+', '+'], .increment), (['-', '-'], .decrement),
  (['<', '<'], .shiftLeft), (['>', '>'], .shiftRight), (['<', '='], .lessEq),
  (['>', '='], .greaterEq), (['=', '='], .equal), (['!', '='], .notEqual), (['&', '&'], .and),
  (['|', '|'], .or), (['*', '='], .timesAssign), (['/', '='], .divideAssign),
  (['%', '='], .moduloAssign), (['+', '='], .plusAssign), (['-', '='], .minusAssign),
  (['&', '='], .andAssign), (['^', '='], .xorAssign), (['|', '='], .orAssign),
  (['#', '#'], .hashHash), (['<', ':'], .lbracket), ([':', '>'], .rbracket),
  (['<', '%'], .lbrace), (['%', '>'], .rbrace), (['%', ':'], .hash),
  (['['], .lbracket), ([']'], .rbracket), (['('], .lparen), ([')'], .rparen), (['\x7b'], .lbrace),
  (['\x7d'], .rbrace), (['.'], .dot), (['&'], .bitAnd), (['*'], .times), (['+'], .plus),
  (['-'], .minus), (['~'], .tilde), (['!'], .bang), (['/'], .divide), (['%'], .modulo),
  (['<'], .less), (['>'], .greater), (['^'], .bitXor), (['|'], .bitOr), (['?'], .question),
  ([':'], .colon), ([';'], .semicolon), (['='], .assign), ([','], .comma), (['#'], .hash)]

/-- A token. -/
inductive Lexeme where
  /-- A keyword, a type name or a name. -/
  | word (w : String)
  /-- A number. -/
  | number (x : String)
  /-- A punctuator. -/
  | punct (p : Punct)
  deriving DecidableEq, Repr

/-- The type names that are known. -/
def typeNames : List String :=
  ["int32_t", "uint32_t", "int64_t", "uint64_t", "float", "double"]

/-- The keywords of C. -/
def keywords : List String := [
  "auto", "break", "case", "char", "const", "continue", "default", "do", "double", "else", "enum",
  "extern", "float", "for", "goto", "if", "inline", "int", "long", "register", "restrict", "return",
  "short", "signed", "sizeof", "static", "struct", "switch", "typedef", "union", "unsigned", "void",
  "volatile", "while", "_Alignas", "_Alignof", "_Atomic", "_Bool", "_Complex", "_Generic",
  "_Imaginary", "_Noreturn", "_Static_assert", "_Thread_local"]

/-- Whether a word is a type name. -/
def isTypeName (w : String) : Bool := typeNames.contains w

/-- Whether a word is a name of an object or a function. -/
def isName (w : String) : Bool := !isTypeName w && !keywords.contains w

/-- The rest of a number and what follows it, after the character `last`. A sign belongs to the
number after the letter of an exponent only. -/
def numberRest : (last : Char) → List Char → List Char × List Char
  | _, [] => ([], [])
  | last, c :: cs =>
    if isWordChar c || c = '.' || ((c = '+' || c = '-') && ['e', 'E', 'p', 'P'].contains last) then
      (c :: (numberRest c cs).1, (numberRest c cs).2)
    else ([], c :: cs)

/-- The longest token at the start of a text, and what follows it. A comment is no token. -/
def munch? : List Char → Option (Lexeme × List Char)
  | [] => none
  | c :: cs =>
    if c.isAlpha || c = '_' then
      some (.word (String.ofList (c :: cs.takeWhile isWordChar)), cs.dropWhile isWordChar)
    else if c.isDigit || (c = '.' && cs.head?.any Char.isDigit) then
      some (.number (String.ofList (c :: (numberRest c cs).1)), (numberRest c cs).2)
    else if c = '/' && cs.head?.any (fun d => d = '/' || d = '*') then none
    else
      (spellings.find? fun s => s.1.isPrefixOf (c :: cs)).map fun s =>
        (.punct s.2, (c :: cs).drop s.1.length)

/-- The tokens of a text. (A token is never empty, so the text always gets shorter.) -/
def lex? : List Char → Option (List Lexeme)
  | [] => some []
  | c :: cs =>
    if c.isWhitespace then lex? cs
    else
      match munch? (c :: cs) with
      | none => none
      | some (token, rest) =>
        if _ : rest.length < (c :: cs).length then (lex? rest).map (token :: ·) else none
termination_by cs => cs.length
decreasing_by
  · exact Nat.lt_succ_self cs.length
  · assumption

/-! ## Trees and productions -/

/-- The shape of an expression: what its operators, calls and casts apply to. -/
inductive Tree where
  | name (w : String)
  | number (x : String)
  | call (f : Tree) (args : List Tree)
  | index (array pos : Tree)
  | member (op : Punct) (whole : Tree) (field : String)
  /-- An operator behind its operand. -/
  | after (op : Punct) (e : Tree)
  /-- An operator in front of its operand. -/
  | before (op : Punct) (e : Tree)
  | cast (type : String) (e : Tree)
  | binary (op : Punct) (left right : Tree)
  | conditional (cond yes no : Tree)
  | assign (op : Punct) (left right : Tree)
  | comma (left right : Tree)

namespace Punct

/-- Access to a member. -/
def isMember (p : Punct) : Bool := p = .dot || p = .arrow

/-- Counting up or down. -/
def isStep (p : Punct) : Bool := p = .increment || p = .decrement

/-- An operator in front of a cast expression. -/
def isUnary : Punct → Bool
  | bitAnd | times | plus | minus | tilde | bang => true
  | _ => false

/-- The rank of a binary operator, the loosest being 1 and the tightest 10. -/
def rank? : Punct → Option Nat
  | or => some 1
  | and => some 2
  | bitOr => some 3
  | bitXor => some 4
  | bitAnd => some 5
  | equal | notEqual => some 6
  | less | greater | lessEq | greaterEq => some 7
  | shiftLeft | shiftRight => some 8
  | plus | minus => some 9
  | times | divide | modulo => some 10
  | _ => none

/-- An assignment. -/
def isAssignment : Punct → Bool
  | assign | timesAssign | divideAssign | moduloAssign | plusAssign | minusAssign
  | shiftLeftAssign | shiftRightAssign | andAssign | xorAssign | orAssign => true
  | _ => false

end Punct

/-- A syntactic category. -/
inductive Category where
  | primary
  /-- With calls, indices, members and steps behind it. -/
  | suffixed
  | unary
  | cast
  /-- With binary operators of at least this rank outside of parentheses; past the tightest rank
  these are the cast expressions. -/
  | binary (rank : Nat)
  | conditional
  | assignment
  | expression
  deriving DecidableEq, Repr

/-- Lists of tokens with commas between them. -/
def commaSeparated : List (List Lexeme) → List Lexeme
  | [] => []
  | [ts] => ts
  | ts :: us :: rest => ts ++ .punct .comma :: commaSeparated (us :: rest)

/-- A list of tokens is an expression of a category and has a shape. Binary operators of one rank
group to the left, conditionals and assignments to the right. -/
inductive Derives : Category → List Lexeme → Tree → Prop
  | name {w : String} (hw : isName w = true) : Derives .primary [.word w] (.name w)
  | number {x : String} : Derives .primary [.number x] (.number x)
  | parens {ts : List Lexeme} {t : Tree} (h : Derives .expression ts t) :
      Derives .primary (.punct .lparen :: (ts ++ [.punct .rparen])) t
  | ofPrimary {ts : List Lexeme} {t : Tree} (h : Derives .primary ts t) : Derives .suffixed ts t
  | call {ts : List Lexeme} {f : Tree} {args : List (List Lexeme × Tree)}
      (hf : Derives .suffixed ts f) (hargs : ∀ arg ∈ args, Derives .assignment arg.1 arg.2) :
      Derives .suffixed
        (ts ++ .punct .lparen :: (commaSeparated (args.map Prod.fst) ++ [.punct .rparen]))
        (.call f (args.map Prod.snd))
  | index {ts us : List Lexeme} {a i : Tree} (ha : Derives .suffixed ts a)
      (hi : Derives .expression us i) :
      Derives .suffixed (ts ++ .punct .lbracket :: (us ++ [.punct .rbracket])) (.index a i)
  | member {ts : List Lexeme} {a : Tree} {p : Punct} {w : String} (hp : p.isMember = true)
      (ha : Derives .suffixed ts a) :
      Derives .suffixed (ts ++ [.punct p, .word w]) (.member p a w)
  | after {ts : List Lexeme} {a : Tree} {p : Punct} (hp : p.isStep = true)
      (ha : Derives .suffixed ts a) : Derives .suffixed (ts ++ [.punct p]) (.after p a)
  | ofSuffixed {ts : List Lexeme} {t : Tree} (h : Derives .suffixed ts t) : Derives .unary ts t
  | step {ts : List Lexeme} {a : Tree} {p : Punct} (hp : p.isStep = true)
      (ha : Derives .unary ts a) : Derives .unary (.punct p :: ts) (.before p a)
  | before {ts : List Lexeme} {a : Tree} {p : Punct} (hp : p.isUnary = true)
      (ha : Derives .cast ts a) : Derives .unary (.punct p :: ts) (.before p a)
  | ofUnary {ts : List Lexeme} {t : Tree} (h : Derives .unary ts t) : Derives .cast ts t
  | cast {ts : List Lexeme} {a : Tree} {w : String} (hw : isTypeName w = true)
      (ha : Derives .cast ts a) :
      Derives .cast (.punct .lparen :: .word w :: .punct .rparen :: ts) (.cast w a)
  | ofCast {ts : List Lexeme} {t : Tree} (h : Derives .cast ts t) : Derives (.binary 11) ts t
  | ofTighter {ts : List Lexeme} {t : Tree} {k : Nat} (h : Derives (.binary (k + 1)) ts t) :
      Derives (.binary k) ts t
  | binary {ts us : List Lexeme} {a b : Tree} {p : Punct} {k : Nat} (hp : p.rank? = some k)
      (ha : Derives (.binary k) ts a) (hb : Derives (.binary (k + 1)) us b) :
      Derives (.binary k) (ts ++ .punct p :: us) (.binary p a b)
  | ofBinary {ts : List Lexeme} {t : Tree} (h : Derives (.binary 1) ts t) :
      Derives .conditional ts t
  | conditional {ts us vs : List Lexeme} {c y n : Tree} (hc : Derives (.binary 1) ts c)
      (hy : Derives .expression us y) (hn : Derives .conditional vs n) :
      Derives .conditional (ts ++ .punct .question :: (us ++ .punct .colon :: vs))
        (.conditional c y n)
  | ofConditional {ts : List Lexeme} {t : Tree} (h : Derives .conditional ts t) :
      Derives .assignment ts t
  | assign {ts us : List Lexeme} {a b : Tree} {p : Punct} (hp : p.isAssignment = true)
      (ha : Derives .unary ts a) (hb : Derives .assignment us b) :
      Derives .assignment (ts ++ .punct p :: us) (.assign p a b)
  | ofAssignment {ts : List Lexeme} {t : Tree} (h : Derives .assignment ts t) :
      Derives .expression ts t
  | comma {ts us : List Lexeme} {a b : Tree} (ha : Derives .expression ts a)
      (hb : Derives .assignment us b) :
      Derives .expression (ts ++ .punct .comma :: us) (.comma a b)

/-- A text is an expression of a given shape. -/
def Parses (text : String) (t : Tree) : Prop :=
  ∃ ts, lex? text.toList = some ts ∧ Derives .expression ts t

end WasmToC.C

import WasmToC.Proofs.Distinct
import WasmToC.Proofs.Unambiguous

/-!
# Texts of expressions, put together

What the text of an expression is made of: names, numbers, calls, casts, and parentheses around
operators. Each is an expression of its own category, whatever stands behind it, as long as that
does not go on with its last token. The texts that go into others are of two kinds: those that bind
tighter than any operator in front of them, and those that are put in parentheses first.

## Main definitions

* `C.Lexes` — the tokens of a text in front of others.
* `C.CastText`, `C.SuffixedText` — a text is an expression with a shape.
* `C.FitText` — it becomes an operand as `operand` makes it one.

## Main results

* `C.FitText.operand` — what is made an operand binds tighter than any operator.
-/

namespace WasmToC.C

open List

variable {cs rest : List Char} {c : Char} {w x : String} {k : Nat}

/-! ## Cutting tokens off -/

/-- A text starts with some tokens, and the rest follows them. -/
def Cut (text : List Char) (ts : List Lexeme) (rest : List Char) : Prop :=
  lex? text = (lex? rest).map (ts ++ ·)

lemma cut_refl (text : List Char) : Cut text [] text := by
  simp [Cut]

lemma Cut.trans {text middle : List Char} {ts us : List Lexeme} (h : Cut text ts middle)
    (h' : Cut middle us rest) : Cut text (ts ++ us) rest := by
  rw [Cut] at h h' ⊢
  rw [h, h', Option.map_map]
  congr 1
  funext vs
  exact (append_assoc ts us vs).symm

/-- The longest token is the first. -/
lemma cut_of_munch? {token : Lexeme} (hblank : c.isWhitespace = false)
    (h : munch? (c :: cs) = some (token, rest)) (hshort : rest.length < (c :: cs).length) :
    Cut (c :: cs) [token] rest := by
  rw [Cut, lex?]
  simp only [hblank, Bool.false_eq_true, if_false, h, dif_pos hshort]
  rfl

lemma cut_blank (rest : List Char) : Cut (' ' :: rest) [] rest := by
  simp [Cut, lex?]

lemma cut_lparen (rest : List Char) : Cut ('(' :: rest) [.punct .lparen] rest :=
  cut_of_munch? rfl rfl (Nat.lt_succ_self _)

lemma cut_rparen (rest : List Char) : Cut (')' :: rest) [.punct .rparen] rest :=
  cut_of_munch? rfl rfl (Nat.lt_succ_self _)

lemma cut_comma (rest : List Char) : Cut (',' :: rest) [.punct .comma] rest :=
  cut_of_munch? rfl rfl (Nat.lt_succ_self _)

/-- How a punctuator is spelled. -/
def Punct.spelling (p : Punct) : List Char :=
  ((spellings.find? fun s => s.2 = p).map Prod.fst).getD []

lemma cut_punct (p : Punct) (rest : List Char) :
    Cut (' ' :: (p.spelling ++ ' ' :: rest)) [.punct p] rest := by
  have hp : Cut (p.spelling ++ ' ' :: rest) [.punct p] (' ' :: rest) := by
    cases p <;> exact cut_of_munch? rfl rfl (by simp)
  exact (cut_blank _).trans (hp.trans (cut_blank rest))

/-- Whether a text can stand behind any token without going on with it. -/
def breaks (rest : List Char) : Bool := rest.head?.all fun c => [' ', ',', '(', ')'].contains c

/-- Neither words nor numbers go on with what breaks them off. -/
lemma not_isNumeralChar_of_breaks (h : breaks (c :: rest) = true) :
    isNumeralChar c = false ∧ c ≠ '+' ∧ c ≠ '-' := by
  have hc : c = ' ' ∨ c = ',' ∨ c = '(' ∨ c = ')' := by simpa [breaks] using h
  rcases hc with rfl | rfl | rfl | rfl <;> decide

lemma isWhitespace_of_isWordChar (h : isWordChar c = true) : c.isWhitespace = false := by
  cases hc : c.isWhitespace with
  | false => rfl
  | true =>
    have hblank : ((c = ' ' ∨ c = '\t') ∨ c = '\r') ∨ c = '\n' := by
      simpa [Char.isWhitespace] using hc
    rcases hblank with ((rfl | rfl) | rfl) | rfl <;> cases h

/-- A word or a number is the first token. -/
lemma cut_of_isWordChar {token : Lexeme} (hc : isWordChar c = true)
    (h : munch? (c :: (cs ++ rest)) = some (token, rest)) :
    Cut (c :: (cs ++ rest)) [token] rest := by
  refine cut_of_munch? (isWhitespace_of_isWordChar hc) h ?_
  rw [length_cons, length_append]
  omega

/-- An identifier starts with a word character. -/
lemma isWordChar_of_isIdentifier (h : isIdentifier w = true) :
    ∃ c cs, w.toList = c :: cs ∧ (c.isAlpha || decide (c = '_')) = true ∧ isWordChar c = true ∧
      ∀ d ∈ cs, isWordChar d = true := by
  rw [isIdentifier] at h
  cases hw : w.toList with
  | nil => simp [hw] at h
  | cons c cs =>
    simp only [hw, Bool.and_eq_true, all_eq_true] at h
    refine ⟨c, cs, rfl, h.1, ?_, h.2⟩
    rcases Bool.or_eq_true_iff.mp h.1 with hc | hc <;> simp_all [isWordChar, Char.isAlphanum]

lemma cut_word (h : isIdentifier w = true) (hr : breaks rest = true) :
    Cut (w.toList ++ rest) [.word w] rest := by
  obtain ⟨c, cs, hw, hc, hword, hcs⟩ := isWordChar_of_isIdentifier h
  have hstop : rest.takeWhile isWordChar = [] ∧ rest.dropWhile isWordChar = rest := by
    cases rest with
    | nil => exact ⟨rfl, rfl⟩
    | cons d rest =>
      have hd := (not_isNumeralChar_of_breaks hr).1
      rw [isNumeralChar, Bool.or_eq_false_iff] at hd
      simp [List.takeWhile, List.dropWhile, hd.1]
  have hmunch : munch? (c :: (cs ++ rest)) = some (.word w, rest) := by
    rw [munch?, if_pos hc, takeWhile_append_of_pos hcs, dropWhile_append_of_pos hcs,
      hstop.1, hstop.2, append_nil, ← hw, String.ofList_toList]
  rw [hw]
  exact cut_of_isWordChar hword hmunch

/-- Whether a text is a digit followed by what can stand in a number. -/
def isNumber (x : String) : Bool :=
  match x.toList with
  | [] => false
  | c :: cs => c.isDigit && cs.all isNumeralChar

lemma numberRest_append {last : Char} (hcs : cs.all isNumeralChar = true)
    (hr : breaks rest = true) : numberRest last (cs ++ rest) = (cs, rest) := by
  induction cs generalizing last with
  | nil =>
    cases rest with
    | nil => rfl
    | cons d rest =>
      obtain ⟨hd, hplus, hminus⟩ := not_isNumeralChar_of_breaks hr
      rw [isNumeralChar, Bool.or_eq_false_iff] at hd
      simp only [nil_append, numberRest, hd, hplus, hminus]
      simp
  | cons c cs ih =>
    simp only [all_cons, Bool.and_eq_true] at hcs
    rw [isNumeralChar] at hcs
    simp only [cons_append, numberRest, hcs.1, Bool.true_or, if_true, ih hcs.2]

/-- No identifier starts with a digit. -/
lemma startsIdentifier_of_isDigit (h : c.isDigit = true) :
    (c.isAlpha || decide (c = '_')) = false := by
  have hall : ∀ k < 58, 48 ≤ k →
      ((Char.ofNat k).isAlpha || decide (Char.ofNat k = '_')) = false := by
    decide
  have hbounds : 48 ≤ c.val ∧ c.val ≤ 57 := by simpa [Char.isDigit] using h
  rw [UInt32.le_iff_toNat_le, UInt32.le_iff_toNat_le] at hbounds
  have hc := hall c.toNat (Nat.lt_succ_of_le hbounds.2) hbounds.1
  rwa [Char.ofNat_toNat] at hc

lemma isWordChar_of_isNumber (h : isNumber x = true) :
    ∃ c cs, x.toList = c :: cs ∧ c.isDigit = true ∧ isWordChar c = true ∧
      cs.all isNumeralChar = true := by
  rw [isNumber] at h
  cases hx : x.toList with
  | nil => simp [hx] at h
  | cons c cs =>
    simp only [hx, Bool.and_eq_true] at h
    exact ⟨c, cs, rfl, h.1, by simp [isWordChar, Char.isAlphanum, h.1], h.2⟩

lemma cut_number (h : isNumber x = true) (hr : breaks rest = true) :
    Cut (x.toList ++ rest) [.number x] rest := by
  obtain ⟨c, cs, hx, hdigit, hword, hcs⟩ := isWordChar_of_isNumber h
  have hmunch : munch? (c :: (cs ++ rest)) = some (.number x, rest) := by
    simp only [munch?, startsIdentifier_of_isDigit hdigit, hdigit, numberRest_append hcs hr,
      ← hx, String.ofList_toList]
    rfl
  rw [hx]
  exact cut_of_isWordChar hword hmunch

/-- Whether a text starts with a word or a number or a parenthesis. -/
def startsTight (text : List Char) : Bool := text.head?.any fun c => isWordChar c || c = '('

lemma startsTight_append {text : List Char} (h : startsTight text = true) (rest : List Char) :
    startsTight (text ++ rest) = true := by
  cases text with
  | nil => cases h
  | cons c cs => exact h

/-- A sign in front of what does not start with one. -/
lemma cut_minus {text : List Char} (h : startsTight text = true) :
    Cut ('-' :: text) [.punct .minus] text := by
  cases text with
  | nil => cases h
  | cons c cs =>
    have hc : '>' ≠ c ∧ '-' ≠ c ∧ '=' ≠ c := by
      refine ⟨?_, ?_, ?_⟩ <;> (rintro rfl; cases h)
    refine cut_of_munch? rfl ?_ (Nat.lt_succ_self _)
    simp [munch?, spellings, hc, List.isPrefixOf]

/-! ## Categories that contain others -/

namespace Derives

variable {ts : List Lexeme} {t : Tree}

lemma toCast (h : Derives .suffixed ts t) : Derives .cast ts t := h.ofSuffixed.ofUnary

/-- Looser ranks contain the tighter ones. -/
lemma toLooser {j : Nat} (h : Derives (.binary k) ts t) (hj : j ≤ k) :
    Derives (.binary j) ts t := by
  obtain ⟨d, rfl⟩ := Nat.exists_eq_add_of_le hj
  induction d with
  | zero => exact h
  | succ d ih => exact ih (ofTighter h) (Nat.le_add_right j d)

/-- A cast expression stands next to every binary operator. -/
lemma toBinary (h : Derives .cast ts t) (hk : k ≤ 11) : Derives (.binary k) ts t :=
  h.ofCast.toLooser hk

lemma toConditional (h : Derives .cast ts t) : Derives .conditional ts t :=
  (h.toBinary (by decide)).ofBinary

lemma toAssignment (h : Derives .cast ts t) : Derives .assignment ts t :=
  h.toConditional.ofConditional

lemma toExpression (h : Derives .cast ts t) : Derives .expression ts t :=
  h.toAssignment.ofAssignment

end Derives

/-! ## Texts with a shape -/

/-- The tokens of a text in front of anything that breaks it off. -/
def Lexes (text : List Char) (ts : List Lexeme) : Prop :=
  ∀ rest, breaks rest = true → Cut (text ++ rest) ts rest

/-- A text is a cast expression with a shape. -/
def CastText (text : List Char) (t : Tree) : Prop := ∃ ts, Lexes text ts ∧ Derives .cast ts t

/-- A text is a suffixed expression with a shape, and starts as one. -/
def SuffixedText (text : List Char) (t : Tree) : Prop :=
  (∃ ts, Lexes text ts ∧ Derives .suffixed ts t) ∧ startsTight text = true

/-- A text is an expression with a shape; if it needs parentheses to be an operand, it gets them. -/
def FitText (text : String) (t : Tree) : Prop :=
  SuffixedText text.toList t ∨ isTight text.toList = false ∧ CastText text.toList t

lemma SuffixedText.castText {text : List Char} {t : Tree} (h : SuffixedText text t) :
    CastText text t := by
  obtain ⟨⟨ts, hlexes, hd⟩, -⟩ := h
  exact ⟨ts, hlexes, hd.toCast⟩

/-- An expression between parentheses. -/
lemma suffixedText_parens {inner : List Char} {ts : List Lexeme} {t : Tree}
    (hinner : ∀ rest, Cut (inner ++ ')' :: rest) ts (')' :: rest))
    (hd : Derives .expression ts t) : SuffixedText ('(' :: (inner ++ [')'])) t := by
  refine ⟨⟨.punct .lparen :: (ts ++ [.punct .rparen]), fun rest _ => ?_, hd.parens.ofPrimary⟩, rfl⟩
  have h := (cut_lparen _).trans ((hinner rest).trans (cut_rparen rest))
  simpa using h

lemma SuffixedText.name (hw : isIdentifier w = true) (hname : isName w = true) :
    SuffixedText w.toList (.name w) := by
  refine ⟨⟨[.word w], fun rest hr => cut_word hw hr, (Derives.name hname).ofPrimary⟩, ?_⟩
  obtain ⟨c, cs, hw, -, hword, -⟩ := isWordChar_of_isIdentifier hw
  simp [startsTight, hw, hword]

lemma SuffixedText.number (hx : isNumber x = true) : SuffixedText x.toList (.number x) := by
  refine ⟨⟨[.number x], fun rest hr => cut_number hx hr, Derives.number.ofPrimary⟩, ?_⟩
  obtain ⟨c, cs, hx, -, hword, -⟩ := isWordChar_of_isNumber hx
  simp [startsTight, hx, hword]

lemma isIdentifier_of_isTypeName (h : isTypeName w = true) : isIdentifier w = true := by
  have hall : typeNames.all isIdentifier = true := rfl
  exact all_eq_true.mp hall w (contains_iff_mem.mp h)

namespace CastText

variable {text : List Char} {t : Tree}

lemma cast (hw : isTypeName w = true) (h : CastText text t) :
    CastText ('(' :: (w.toList ++ ')' :: text)) (.cast w t) := by
  obtain ⟨ts, hlexes, hd⟩ := h
  refine ⟨_, fun rest hr => ?_, hd.cast hw⟩
  have hword : Cut (w.toList ++ ')' :: (text ++ rest)) [.word w] (')' :: (text ++ rest)) :=
    cut_word (isIdentifier_of_isTypeName hw) rfl
  have h := (cut_lparen _).trans (hword.trans ((cut_rparen _).trans (hlexes rest hr)))
  simpa using h

lemma ne_nil (h : CastText text t) : text ≠ [] := by
  rintro rfl
  obtain ⟨ts, hlexes, hd⟩ := h
  obtain ⟨x, us, rfl, -⟩ := hd.starts
  have hcut := hlexes [] rfl
  simp [Cut, lex?] at hcut

lemma parens (h : CastText text t) : SuffixedText ('(' :: (text ++ [')'])) t := by
  obtain ⟨ts, hlexes, hd⟩ := h
  exact suffixedText_parens (fun rest => hlexes _ rfl) hd.toExpression

/-- A binary operator between two texts. -/
lemma binary {left right : List Char} {a b : Tree} {p : Punct} (hp : p.rank? = some k)
    (ha : CastText left a) (hb : CastText right b) :
    SuffixedText ('(' :: (left ++ ' ' :: (p.spelling ++ ' ' :: right) ++ [')']))
      (.binary p a b) := by
  obtain ⟨ts, hleft, hda⟩ := ha
  obtain ⟨us, hright, hdb⟩ := hb
  have hk : 1 ≤ k ∧ k ≤ 10 := Punct.rank_bounds hp
  have hd := Derives.binary hp (hda.toBinary (by omega)) (hdb.toBinary (by omega))
  have hexpression := (hd.toLooser hk.1).ofBinary.ofConditional.ofAssignment
  refine suffixedText_parens (fun rest => ?_) hexpression
  have hop := cut_punct p (right ++ ')' :: rest)
  have h := (hleft _ rfl).trans (hop.trans (hright (')' :: rest) rfl))
  simpa using h

/-- A sign in front of a text that does not start with one. -/
lemma negate (h : SuffixedText text t) : CastText ('-' :: text) (.before .minus t) := by
  obtain ⟨⟨ts, hlexes, hd⟩, hstart⟩ := h
  refine ⟨_, fun rest hr => ?_, (Derives.before rfl hd.toCast).ofUnary⟩
  exact (cut_minus (startsTight_append hstart rest)).trans (hlexes rest hr)

end CastText

/-- A choice between texts. -/
lemma SuffixedText.choose {c y n : List Char} {tc ty tn : Tree} (hc : CastText c tc)
    (hy : CastText y ty) (hn : CastText n tn) :
    SuffixedText ('(' :: (c ++ [' ', '?', ' '] ++ y ++ [' ', ':', ' '] ++ n ++ [')']))
      (.conditional tc ty tn) := by
  obtain ⟨ts, hc, hdc⟩ := hc
  obtain ⟨us, hy, hdy⟩ := hy
  obtain ⟨vs, hn, hdn⟩ := hn
  have hd := Derives.conditional (hdc.toBinary (by decide)) hdy.toExpression hdn.toConditional
  refine suffixedText_parens (fun rest => ?_) hd.ofConditional.ofAssignment
  have hquestion := cut_punct .question
    (y ++ ' ' :: (Punct.colon.spelling ++ ' ' :: (n ++ ')' :: rest)))
  have hcolon := cut_punct .colon (n ++ ')' :: rest)
  have h := (hc _ rfl).trans (hquestion.trans
    ((hy _ rfl).trans (hcolon.trans (hn (')' :: rest) rfl))))
  simpa [Punct.spelling, spellings] using h

/-! ## Calls -/

/-- Arguments with commas between them. -/
lemma cut_arguments {args : List (String × Tree)} (h : ∀ arg ∈ args, CastText arg.1.toList arg.2) :
    ∃ found : List (List Lexeme × Tree), found.map Prod.snd = args.map Prod.snd ∧
      (∀ arg ∈ found, Derives .assignment arg.1 arg.2) ∧
      ∀ rest, Cut ((", ".intercalate (args.map Prod.fst)).toList ++ ')' :: rest)
        (commaSeparated (found.map Prod.fst)) (')' :: rest) := by
  induction args with
  | nil => exact ⟨[], rfl, fun _ h => absurd h not_mem_nil, fun rest => cut_refl _⟩
  | cons arg args ih =>
    obtain ⟨⟨ts, hlexes, hd⟩, ha⟩ := forall_mem_cons.mp h
    obtain ⟨found, hfound, hds, hcut⟩ := ih ha
    refine ⟨(ts, arg.2) :: found, by simp [hfound], ?_, fun rest => ?_⟩
    · exact forall_mem_cons.mpr ⟨hd.toAssignment, hds⟩
    · cases args with
      | nil =>
        obtain rfl : found = [] := map_eq_nil_iff.mp hfound
        simpa [commaSeparated] using hlexes (')' :: rest) rfl
      | cons next args =>
        obtain ⟨us, found, rfl⟩ := exists_cons_of_ne_nil (l := found) (by
          rintro rfl
          cases hfound)
        have h := (hlexes _ rfl).trans ((cut_comma _).trans ((cut_blank _).trans (hcut rest)))
        simpa [commaSeparated, String.toList_append] using h

/-- A call of a named function. -/
lemma SuffixedText.call (args : List (String × Tree)) (hw : isIdentifier w = true)
    (hname : isName w = true) (ha : ∀ arg ∈ args, CastText arg.1.toList arg.2) :
    SuffixedText (callText w (args.map Prod.fst)).toList (.call (.name w) (args.map Prod.snd)) := by
  obtain ⟨found, hfound, hds, hcut⟩ := cut_arguments ha
  have hd := (Derives.name hname).ofPrimary.call hds
  rw [hfound] at hd
  refine ⟨⟨_, fun rest _ => ?_, hd⟩, ?_⟩
  · have h := (cut_word hw rfl).trans ((cut_lparen _).trans ((hcut rest).trans (cut_rparen rest)))
    simpa [callText] using h
  · simp only [callText, String.toList_append, append_assoc]
    exact startsTight_append (SuffixedText.name hw hname).2 _

/-! ## Operands -/

lemma SuffixedText.fitText {text : String} {t : Tree} (h : SuffixedText text.toList t) :
    FitText text t :=
  .inl h

lemma FitText.castText {text : String} {t : Tree} (h : FitText text t) :
    CastText text.toList t := by
  rcases h with h | ⟨-, h⟩
  · exact h.castText
  · exact h

/-- **What is made an operand binds tighter than any operator** in front of it or behind it. -/
theorem FitText.operand {text : String} {t : Tree} (h : FitText text t) :
    SuffixedText (operand text).toList t := by
  unfold C.operand
  split
  · next htight =>
    rcases h with h | ⟨hloose, -⟩
    · exact h
    · rw [htight] at hloose
      cases hloose
  · simpa using h.castText.parens

/-- The shape of a text is the only one that it has. -/
lemma CastText.parses_iff {text : String} {t : Tree} (h : CastText text.toList t) (u : Tree) :
    Parses text u ↔ u = t := by
  obtain ⟨ts, hlexes, hd⟩ := h
  have hlex : lex? text.toList = some ts := by
    have hcut := hlexes [] rfl
    rw [Cut, append_nil] at hcut
    simpa [lex?] using hcut
  constructor
  · rintro ⟨us, hus, hu⟩
    obtain rfl : ts = us := Option.some.inj (hlex.symm.trans hus)
    exact hu.unique hd.toExpression
  · rintro rfl
    exact ⟨ts, hlex, hd.toExpression⟩

end WasmToC.C

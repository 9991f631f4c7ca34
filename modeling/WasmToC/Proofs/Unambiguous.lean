import Mathlib.Tactic.Lemma
import WasmToC.Proofs.Grammar

/-!
# Every expression has one shape

The grammar of expressions is unambiguous: a list of tokens is an expression of at most one shape.
A parser goes down the categories with one token of lookahead, three for a cast, and finds the shape
of every expression that can be derived. It has a number of steps to go, which is no limit of the
grammar: with enough of them the answer stays the same.

## Main definitions

* `C.expression?` — the parser, with the other categories beside it.
* `C.Yields` — its answer, given enough steps.
* `C.Category.Found` — the parser finds an expression of a category.

## Main results

* `C.Derives.found` — the parser finds every expression.
* `C.Derives.unique` — no expression has two shapes.
-/

namespace WasmToC.C

open List

variable {w : String} {category : Category} {k : Nat}

/-! ## A parser -/

/-- What follows a given punctuator. -/
def expect? (p : Punct) : List Lexeme → Option (List Lexeme)
  | .punct q :: ts => if q = p then some ts else none
  | _ => none

/-- The type of a cast at the start, and what follows it. -/
def castHead? : List Lexeme → Option (String × List Lexeme)
  | .punct .lparen :: .word w :: .punct .rparen :: ts => if isTypeName w then some (w, ts) else none
  | _ => none

mutual

/-- Reads a primary expression. -/
def primary? : Nat → List Lexeme → Option (Tree × List Lexeme)
  | _ + 1, .word w :: ts => if isName w then some (.name w, ts) else none
  | _ + 1, .number x :: ts => some (.number x, ts)
  | n + 1, .punct p :: ts =>
    if p = .lparen then
      (expression? n ts).bind fun found => (expect? .rparen found.2).map fun ts => (found.1, ts)
    else none
  | _, _ => none

/-- Reads what stands behind an expression. -/
def suffixes? : Nat → Tree → List Lexeme → Option (Tree × List Lexeme)
  | 0, _, _ => none
  | n + 1, t, .punct p :: ts =>
    if p = .lparen then
      match expect? .rparen ts with
      | some ts => suffixes? n (.call t []) ts
      | none => (arguments? n ts).bind fun found => suffixes? n (.call t found.1) found.2
    else if p = .lbracket then
      (expression? n ts).bind fun found =>
        (expect? .rbracket found.2).bind fun ts => suffixes? n (.index t found.1) ts
    else if p.isMember then
      match ts with
      | .word w :: ts => suffixes? n (.member p t w) ts
      | _ => none
    else if p.isStep then suffixes? n (.after p t) ts
    else some (t, .punct p :: ts)
  | _ + 1, t, ts => some (t, ts)

/-- Reads the arguments of a call, and the parenthesis behind them. -/
def arguments? : Nat → List Lexeme → Option (List Tree × List Lexeme)
  | 0, _ => none
  | n + 1, ts =>
    (assignment? n ts).bind fun found =>
      match expect? .comma found.2 with
      | some ts => (arguments? n ts).map fun more => (found.1 :: more.1, more.2)
      | none => (expect? .rparen found.2).map fun ts => ([found.1], ts)

/-- Reads a primary expression and what stands behind it. -/
def suffixed? : Nat → List Lexeme → Option (Tree × List Lexeme)
  | 0, _ => none
  | n + 1, ts => (primary? n ts).bind fun found => suffixes? n found.1 found.2

/-- Reads a unary expression. -/
def unary? : Nat → List Lexeme → Option (Tree × List Lexeme)
  | 0, _ => none
  | n + 1, .punct p :: ts =>
    if p.isStep then (unary? n ts).map fun found => (.before p found.1, found.2)
    else if p.isUnary then (cast? n ts).map fun found => (.before p found.1.1, found.2)
    else suffixed? n (.punct p :: ts)
  | n + 1, ts => suffixed? n ts

/-- Reads a cast expression, and tells whether it is a unary one. -/
def cast? : Nat → List Lexeme → Option ((Tree × Bool) × List Lexeme)
  | 0, _ => none
  | n + 1, ts =>
    match castHead? ts with
    | some (w, ts) => (cast? n ts).map fun found => ((.cast w found.1.1, false), found.2)
    | none => (unary? n ts).map fun found => ((found.1, true), found.2)

/-- Reads binary operators of at least a rank, with their operands on the right. -/
def climb? : Nat → Nat → Tree × Bool → List Lexeme → Option ((Tree × Bool) × List Lexeme)
  | 0, _, _, _ => none
  | n + 1, least, left, .punct p :: ts =>
    match p.rank? with
    | some k =>
      if least ≤ k then
        (binary? n (k + 1) ts).bind fun found =>
          climb? n least (.binary p left.1 found.1.1, false) found.2
      else some (left, .punct p :: ts)
    | none => some (left, .punct p :: ts)
  | _ + 1, _, left, ts => some (left, ts)

/-- Reads an expression with binary operators of at least a rank. -/
def binary? : Nat → Nat → List Lexeme → Option ((Tree × Bool) × List Lexeme)
  | 0, _, _ => none
  | n + 1, least, ts => (cast? n ts).bind fun found => climb? n least found.1 found.2

/-- Reads a conditional expression. -/
def conditional? : Nat → List Lexeme → Option ((Tree × Bool) × List Lexeme)
  | 0, _ => none
  | n + 1, ts =>
    (binary? n 1 ts).bind fun c =>
      match expect? .question c.2 with
      | none => some c
      | some ts =>
        (expression? n ts).bind fun yes =>
          (expect? .colon yes.2).bind fun ts =>
            (conditional? n ts).map fun no => ((.conditional c.1.1 yes.1 no.1.1, false), no.2)

/-- Reads an assignment expression. -/
def assignment? : Nat → List Lexeme → Option (Tree × List Lexeme)
  | 0, _ => none
  | n + 1, ts =>
    (conditional? n ts).bind fun found =>
      match found.2 with
      | .punct p :: ts =>
        if found.1.2 && p.isAssignment then
          (assignment? n ts).map fun right => (.assign p found.1.1 right.1, right.2)
        else some (found.1.1, .punct p :: ts)
      | ts => some (found.1.1, ts)

/-- Reads commas, with what follows each. -/
def commas? : Nat → Tree → List Lexeme → Option (Tree × List Lexeme)
  | 0, _, _ => none
  | n + 1, left, ts =>
    match expect? .comma ts with
    | some ts => (assignment? n ts).bind fun found => commas? n (.comma left found.1) found.2
    | none => some (left, ts)

/-- Reads an expression. -/
def expression? : Nat → List Lexeme → Option (Tree × List Lexeme)
  | 0, _ => none
  | n + 1, ts => (assignment? n ts).bind fun found => commas? n found.1 found.2

end

/-! ## Enough steps -/

section Yields

variable {α β : Type} {f : Nat → Option α} {a : α}

/-- With enough steps the answer is `a`. -/
def Yields (f : Nat → Option α) (a : α) : Prop := ∃ n, ∀ m, n ≤ m → f m = some a

lemma Yields.unique {b : α} (ha : Yields f a) (hb : Yields f b) : a = b := by
  obtain ⟨n, hn⟩ := ha
  obtain ⟨k, hk⟩ := hb
  have h := hn (max n k) (Nat.le_max_left n k)
  rw [hk (max n k) (Nat.le_max_right n k)] at h
  exact (Option.some.inj h).symm

lemma yields_const {x : Option α} (h : x = some a) : Yields (fun _ => x) a :=
  ⟨0, fun _ _ => h⟩

/-- What takes one step more, and asks for another answer first. -/
lemma Yields.after {g h : Nat → Option β} {b : β} (hf : Yields f a) (hg : Yields g b)
    (hh : ∀ n, f n = some a → h (n + 1) = g n) : Yields h b := by
  obtain ⟨n, hn⟩ := hf
  obtain ⟨k, hk⟩ := hg
  refine ⟨max n k + 1, fun m hm => ?_⟩
  obtain ⟨j, rfl⟩ : ∃ j, m = j + 1 := ⟨m - 1, by omega⟩
  rw [hh j (hn j (by omega))]
  exact hk j (by omega)

/-- What takes one step more. -/
lemma Yields.step {g : Nat → Option α} (h : Yields f a) (hg : ∀ n, g (n + 1) = f n) : Yields g a :=
  (yields_const (x := some ()) rfl).after h fun n _ => hg n

/-- What is known after one step. -/
lemma yields_of_step {g : Nat → Option α} (hg : ∀ n, g (n + 1) = some a) : Yields g a :=
  (yields_const rfl).step hg

lemma Yields.bind {g : Nat → α → Option β} {b : β} (hf : Yields f a) (hg : Yields (g · a) b) :
    Yields (fun n => (f n).bind (g n)) b := by
  obtain ⟨n, hn⟩ := hf
  obtain ⟨k, hk⟩ := hg
  refine ⟨max n k, fun m hm => ?_⟩
  show (f m).bind (g m) = some b
  rw [hn m (by omega)]
  exact hk m (by omega)

lemma Yields.map (hf : Yields f a) (g : α → β) : Yields (fun n => (f n).map g) (g a) := by
  obtain ⟨n, hn⟩ := hf
  exact ⟨n, fun m hm => by show (f m).map g = _; rw [hn m hm]; rfl⟩

end Yields

/-! ## What an expression starts with -/

/-- Whether an expression can start with a token. -/
def Lexeme.starts : Lexeme → Bool
  | .word w => !isTypeName w
  | .number _ => true
  | .punct p => p = .lparen || p.isStep || p.isUnary

lemma isTypeName_of_isName (h : isName w = true) : isTypeName w = false := by
  simp only [isName, Bool.and_eq_true, Bool.not_eq_true'] at h
  exact h.1

lemma Derives.starts {ts : List Lexeme} {t : Tree} (h : Derives category ts t) :
    ∃ x us, ts = x :: us ∧ x.starts = true := by
  -- a production starts with a token of its own, or with an expression
  have hleft {ts us : List Lexeme} (h : ∃ x vs, ts = x :: vs ∧ x.starts = true) :
      ∃ x vs, ts ++ us = x :: vs ∧ x.starts = true := by
    obtain ⟨x, vs, rfl, hx⟩ := h
    exact ⟨x, vs ++ us, rfl, hx⟩
  induction h with
  | name hw => exact ⟨_, _, rfl, by simp [Lexeme.starts, isTypeName_of_isName hw]⟩
  | number => exact ⟨_, _, rfl, rfl⟩
  | parens _ _ | cast _ _ _ => exact ⟨_, _, rfl, rfl⟩
  | step hp _ _ | before hp _ _ => exact ⟨_, _, rfl, by simp [Lexeme.starts, hp]⟩
  | call _ _ ih | index _ _ ih | member _ _ ih | after _ _ ih | binary _ _ _ ih
  | conditional _ _ _ ih | assign _ _ _ ih | comma _ _ ih => exact hleft ih
  | ofPrimary _ ih | ofSuffixed _ ih | ofUnary _ ih | ofCast _ ih | ofTighter _ ih | ofBinary _ ih
  | ofConditional _ ih | ofAssignment _ ih => exact ih

/-- Expressions that are unary ones as they stand. -/
def Category.isUnary : Category → Bool
  | .primary | .suffixed | .unary => true
  | _ => false

/-- Expressions with no operator in front. -/
def Category.isSuffixed : Category → Bool
  | .primary | .suffixed => true
  | _ => false

/-- What is in the parentheses that a unary expression starts with is no type. -/
lemma Derives.castHead?_eq_none {ts : List Lexeme} {t : Tree} (h : Derives category ts t)
    (hcategory : category.isUnary = true) (rest : List Lexeme) : castHead? (ts ++ rest) = none := by
  induction h generalizing rest with
  | name _ | number => rfl
  | parens h _ =>
    obtain ⟨x, us, rfl, hx⟩ := h.starts
    simp only [cons_append, castHead?]
    split
    · next w _ heq =>
      obtain ⟨-, heq⟩ := List.cons.inj heq
      obtain ⟨rfl, -⟩ := List.cons.inj heq
      have hw : isTypeName w = false := by simpa [Lexeme.starts] using hx
      rw [hw]
      rfl
    · rfl
  | step hp _ _ | before hp _ _ =>
    simp only [cons_append, castHead?]
    split
    · next heq =>
      obtain ⟨heq, -⟩ := List.cons.inj heq
      cases heq
      cases hp
    · rfl
  | call _ _ ih | index _ _ ih | member _ _ ih | after _ _ ih =>
    rw [append_assoc]
    exact ih rfl _
  | ofPrimary _ ih | ofSuffixed _ ih => exact ih rfl rest
  | _ => cases hcategory

/-- A suffixed expression is read as one. -/
lemma Derives.unary?_eq {ts : List Lexeme} {t : Tree} (h : Derives category ts t)
    (hcategory : category.isSuffixed = true) (rest : List Lexeme) (n : Nat) :
    unary? (n + 1) (ts ++ rest) = suffixed? n (ts ++ rest) := by
  induction h generalizing rest with
  | name _ | number | parens _ _ => simp [unary?, Punct.isStep, Punct.isUnary]
  | call _ _ ih | index _ _ ih | member _ _ ih | after _ _ ih =>
    rw [append_assoc]
    exact ih rfl _
  | ofPrimary _ ih => exact ih rfl rest
  | _ => cases hcategory

/-! ## What goes on with an expression -/

/-- How tightly a punctuator binds what stands in front of it. -/
def Punct.tightness (p : Punct) : Nat :=
  match p.rank? with
  | some k => k + 3
  | none =>
    if p = .lparen || p = .lbracket || p.isMember || p.isStep then 14
    else if p = .question then 3
    else if p.isAssignment then 2
    else if p = .comma then 1
    else 0

/-- How tightly the first of some tokens binds what stands in front of it. -/
def tightness : List Lexeme → Nat
  | .punct p :: _ => p.tightness
  | _ => 0

lemma Punct.tightness_of_rank? {p : Punct} (h : p.rank? = some k) : p.tightness = k + 3 := by
  simp [tightness, h]

lemma Punct.rank_bounds {p : Punct} (h : p.rank? = some k) : 1 ≤ k ∧ k ≤ 10 := by
  revert k
  cases p <;> decide

lemma Punct.tightness_of_isAssignment {p : Punct} (h : p.isAssignment = true) :
    p.tightness = 2 := by
  cases p <;> first | rfl | cases h

lemma Punct.isAssignment_eq_false {p : Punct} (h : p.tightness ≤ 1) : p.isAssignment = false := by
  cases hp : p.isAssignment with
  | false => rfl
  | true => rw [tightness_of_isAssignment hp] at h; omega

/-- Looser than every suffix. -/
lemma suffixes?_stop {ts : List Lexeme} (h : tightness ts < 14) (t : Tree) (n : Nat) :
    suffixes? (n + 1) t ts = some (t, ts) := by
  rcases ts with _ | ⟨_ | _ | p, ts⟩
  · rfl
  · rfl
  · rfl
  · replace h : p.tightness < 14 := h
    cases p <;> first | rfl | exact absurd h (by decide)

/-- Looser than every binary operator of the rank. -/
lemma climb?_stop {ts : List Lexeme} {least : Nat} (h : tightness ts < least + 3)
    (left : Tree × Bool) (n : Nat) : climb? (n + 1) least left ts = some (left, ts) := by
  rcases ts with _ | ⟨_ | _ | p, ts⟩
  · rfl
  · rfl
  · rfl
  · unfold climb?
    cases hp : p.rank? with
    | none => rfl
    | some k =>
      have hk : k + 3 < least + 3 := by rwa [tightness, Punct.tightness_of_rank? hp] at h
      simp only [if_neg (show ¬ least ≤ k by omega)]

lemma expect?_cons (p : Punct) (ts : List Lexeme) : expect? p (.punct p :: ts) = some ts := by
  simp [expect?]

/-- A punctuator that binds tighter than what is there is not there. -/
lemma expect?_eq_none {p : Punct} {ts : List Lexeme} (h : tightness ts < p.tightness) :
    expect? p ts = none := by
  rcases ts with _ | ⟨_ | _ | q, ts⟩
  · rfl
  · rfl
  · rfl
  · have hne : q ≠ p := by
      rintro rfl
      exact absurd h (Nat.lt_irrefl _)
    simp [expect?, hne]

/-- No expression starts with a closing parenthesis. -/
lemma Derives.expect?_rparen {ts : List Lexeme} {t : Tree} (h : Derives category ts t)
    (rest : List Lexeme) : expect? .rparen (ts ++ rest) = none := by
  obtain ⟨x, us, rfl, hx⟩ := h.starts
  rcases x with _ | _ | p
  · rfl
  · rfl
  · have hne : p ≠ .rparen := by
      rintro rfl
      cases hx
    simp [expect?, hne]

lemma exists_commaSeparated (ts : List Lexeme) (more : List (List Lexeme)) :
    ∃ rest, commaSeparated (ts :: more) = ts ++ rest := by
  cases more with
  | nil => exact ⟨[], (append_nil ts).symm⟩
  | cons us more => exact ⟨_, rfl⟩

/-! ## The parser finds every expression -/

/-- The parser finds an expression of a category at the start of any tokens, if those that follow do
not go on with it. Where a category goes on to the left, what it does next is left open. -/
def Category.Found : Category → List Lexeme → Tree → Prop
  | .primary, ts, t => ∀ rest, Yields (primary? · (ts ++ rest)) (t, rest)
  | .suffixed, ts, t => ∀ rest answer, Yields (suffixes? · t rest) answer →
      Yields (suffixed? · (ts ++ rest)) answer
  | .unary, ts, t => ∀ rest, tightness rest < 14 → Yields (unary? · (ts ++ rest)) (t, rest)
  | .cast, ts, t => ∀ rest, tightness rest < 14 →
      ∃ unary, Yields (cast? · (ts ++ rest)) ((t, unary), rest)
  | .binary k, ts, t => ∀ rest, tightness rest < 14 → tightness rest ≤ k + 3 → ∀ least ≤ k,
      ∃ unary, ∀ answer, Yields (climb? · least (t, unary) rest) answer →
        Yields (binary? · least (ts ++ rest)) answer
  | .conditional, ts, t => ∀ rest, tightness rest ≤ 2 →
      ∃ unary, Yields (conditional? · (ts ++ rest)) ((t, unary), rest)
  | .assignment, ts, t => ∀ rest, tightness rest ≤ 1 → Yields (assignment? · (ts ++ rest)) (t, rest)
  | .expression, ts, t => ∀ rest, tightness rest ≤ 1 → ∀ answer,
      Yields (commas? · t rest) answer → Yields (expression? · (ts ++ rest)) answer

namespace Category.Found

variable {ts us vs : List Lexeme} {t a b : Tree} {p : Punct}

/-- An expression in front of a closing token. -/
lemma closed (h : expression.Found ts t) (rest : List Lexeme) (hr : tightness rest = 0) :
    Yields (expression? · (ts ++ rest)) (t, rest) := by
  refine h rest (by omega) _ (yields_of_step fun n => ?_)
  rw [commas?, expect?_eq_none (by rw [hr]; decide)]

lemma parens (h : expression.Found ts t) :
    primary.Found (.punct .lparen :: (ts ++ [.punct .rparen])) t := by
  intro rest
  refine (h.closed (.punct .rparen :: rest) rfl).after (yields_const rfl) fun n hn => ?_
  simp [primary?, hn, expect?]

lemma ofPrimary (h : primary.Found ts t) : suffixed.Found ts t := by
  intro rest answer hanswer
  refine (h rest).after hanswer fun n hn => ?_
  simp [suffixed?, hn]

lemma index (ha : suffixed.Found ts a) (hi : expression.Found us b) :
    suffixed.Found (ts ++ .punct .lbracket :: (us ++ [.punct .rbracket])) (.index a b) := by
  intro rest answer hanswer
  rw [append_assoc]
  refine ha _ _ ((hi.closed (.punct .rbracket :: rest) rfl).after hanswer fun n hn => ?_)
  simp [suffixes?, hn, expect?]

lemma member (hp : p.isMember = true) (ha : suffixed.Found ts a) :
    suffixed.Found (ts ++ [.punct p, .word w]) (.member p a w) := by
  intro rest answer hanswer
  have hne : p ≠ .lparen ∧ p ≠ .lbracket := by constructor <;> (rintro rfl; cases hp)
  rw [append_assoc]
  refine ha _ _ (hanswer.step fun n => ?_)
  simp [suffixes?, hne, hp]

lemma after (hp : p.isStep = true) (ha : suffixed.Found ts a) :
    suffixed.Found (ts ++ [.punct p]) (.after p a) := by
  intro rest answer hanswer
  have hne : p ≠ .lparen ∧ p ≠ .lbracket ∧ p.isMember = false := by
    cases p <;> first | decide | cases hp
  rw [append_assoc]
  refine ha _ _ (hanswer.step fun n => ?_)
  simp [suffixes?, hne, hp]

/-- The arguments of a call that has some. -/
lemma arguments {args : List (List Lexeme × Tree)} (hne : args ≠ [])
    (ha : ∀ arg ∈ args, assignment.Found arg.1 arg.2) (rest : List Lexeme) :
    Yields (arguments? · (commaSeparated (args.map Prod.fst) ++ .punct .rparen :: rest))
      (args.map Prod.snd, rest) := by
  induction args with
  | nil => exact absurd rfl hne
  | cons arg more ih =>
    rw [forall_mem_cons] at ha
    cases more with
    | nil =>
      have harg := ha.1 (.punct .rparen :: rest) (Nat.zero_le 1)
      refine harg.after (yields_const rfl) fun n hn => ?_
      simp [arguments?, commaSeparated, hn, expect?]
    | cons next more =>
      have hmore := (ih (cons_ne_nil next more) ha.2).map fun found =>
        (arg.2 :: found.1, found.2)
      have harg := ha.1 (.punct .comma :: (commaSeparated ((next :: more).map Prod.fst) ++
        .punct .rparen :: rest)) (Nat.le_refl 1)
      refine harg.after hmore fun n hn => ?_
      rw [map_cons] at hn
      simp [arguments?, commaSeparated, hn, expect?]

lemma call {args : List (List Lexeme × Tree)} (hf : suffixed.Found ts a)
    (ha : ∀ arg ∈ args, Derives .assignment arg.1 arg.2 ∧ assignment.Found arg.1 arg.2) :
    suffixed.Found
      (ts ++ .punct .lparen :: (commaSeparated (args.map Prod.fst) ++ [.punct .rparen]))
      (.call a (args.map Prod.snd)) := by
  intro rest answer hanswer
  rw [append_assoc]
  cases args with
  | nil =>
    refine hf _ _ (hanswer.step fun n => ?_)
    simp [suffixes?, commaSeparated, expect?]
  | cons arg more =>
    have hfound := arguments (cons_ne_nil arg more) (fun arg harg => (ha arg harg).2) rest
    have hclose : expect? .rparen
        (commaSeparated ((arg :: more).map Prod.fst) ++ .punct .rparen :: rest) = none := by
      obtain ⟨tail, htail⟩ := exists_commaSeparated arg.1 (more.map Prod.fst)
      rw [map_cons, htail, append_assoc]
      exact (ha arg mem_cons_self).1.expect?_rparen _
    refine hf _ _ (hfound.after hanswer fun n hn => ?_)
    rw [map_cons] at hn hclose
    simp [suffixes?, hclose, hn]

lemma step (hp : p.isStep = true) (ha : unary.Found ts a) :
    unary.Found (.punct p :: ts) (.before p a) := by
  intro rest hr
  refine (ha rest hr).after (yields_const rfl) fun n hn => ?_
  simp [unary?, hp, hn]

lemma before (hp : p.isUnary = true) (ha : cast.Found ts a) :
    unary.Found (.punct p :: ts) (.before p a) := by
  intro rest hr
  obtain ⟨unary, hfound⟩ := ha rest hr
  have hstep : p.isStep = false := by cases p <;> first | rfl | cases hp
  refine hfound.after (yields_const rfl) fun n hn => ?_
  simp [unary?, hp, hstep, hn]

lemma ofSuffixed (hd : Derives .suffixed ts t) (h : suffixed.Found ts t) : unary.Found ts t := by
  intro rest hr
  refine (h rest _ (yields_of_step fun n => suffixes?_stop hr t n)).step fun n => ?_
  exact hd.unary?_eq rfl rest n

/-- A unary expression, read as a cast expression. -/
lemma yields_cast? (hd : Derives .unary ts t) (h : unary.Found ts t) (rest : List Lexeme)
    (hr : tightness rest < 14) : Yields (cast? · (ts ++ rest)) ((t, true), rest) := by
  refine (h rest hr).after (yields_const rfl) fun n hn => ?_
  simp [cast?, hd.castHead?_eq_none rfl, hn]

lemma casts (hw : isTypeName w = true) (ha : cast.Found ts a) :
    cast.Found (.punct .lparen :: .word w :: .punct .rparen :: ts) (.cast w a) := by
  intro rest hr
  obtain ⟨unary, hfound⟩ := ha rest hr
  refine ⟨false, hfound.after (yields_const rfl) fun n hn => ?_⟩
  simp [cast?, castHead?, hw, hn]

lemma ofCast (h : cast.Found ts t) : (binary 11).Found ts t := by
  intro rest hr _ least _
  obtain ⟨unary, hfound⟩ := h rest hr
  refine ⟨unary, fun answer hanswer => hfound.after hanswer fun n hn => ?_⟩
  simp [binary?, hn]

lemma ofTighter (h : (binary (k + 1)).Found ts t) : (binary k).Found ts t :=
  fun rest hloose hr least hleast => h rest hloose (by omega) least (by omega)

/-- An expression in front of something looser than its rank. -/
lemma stopped (h : (binary k).Found ts t) (rest : List Lexeme) (hloose : tightness rest < 14)
    (hr : tightness rest < k + 3) :
    ∃ unary, Yields (binary? · k (ts ++ rest)) ((t, unary), rest) := by
  obtain ⟨unary, hfound⟩ := h rest hloose (by omega) k (Nat.le_refl k)
  exact ⟨unary, hfound _ (yields_of_step fun n => climb?_stop hr _ n)⟩

lemma operates (hp : p.rank? = some k) (ha : (binary k).Found ts a)
    (hb : (binary (k + 1)).Found us b) :
    (binary k).Found (ts ++ .punct p :: us) (.binary p a b) := by
  intro rest hloose hr least hleast
  have hk : 1 ≤ k ∧ k ≤ 10 := Punct.rank_bounds hp
  have htight : tightness (.punct p :: (us ++ rest)) = k + 3 := Punct.tightness_of_rank? hp
  -- the left operand ends at `p`, and the right one at something that is no tighter than `p`
  obtain ⟨unary, hleft⟩ := ha (.punct p :: (us ++ rest)) (by omega) (by omega) least hleast
  obtain ⟨_, hright⟩ := hb.stopped rest hloose (by omega)
  refine ⟨false, fun answer hanswer => ?_⟩
  rw [append_assoc]
  refine hleft answer (hright.after hanswer fun n hn => ?_)
  simp [climb?, hp, hleast, hn]

lemma ofBinary (h : (binary 1).Found ts t) : conditional.Found ts t := by
  intro rest hr
  obtain ⟨unary, hfound⟩ := h.stopped rest (by omega) (by omega)
  have hquestion : expect? .question rest = none :=
    expect?_eq_none (Nat.lt_of_le_of_lt hr (by decide))
  refine ⟨unary, hfound.after (yields_const rfl) fun n hn => ?_⟩
  simp [conditional?, hn, hquestion]

lemma chooses {c y n : Tree} (hc : (binary 1).Found ts c) (hy : expression.Found us y)
    (hn : conditional.Found vs n) :
    conditional.Found (ts ++ .punct .question :: (us ++ .punct .colon :: vs))
      (.conditional c y n) := by
  intro rest hr
  have hquestion : tightness (.punct .question :: (us ++ .punct .colon :: (vs ++ rest))) = 3 := rfl
  obtain ⟨_, hcond⟩ := hc.stopped _ (by rw [hquestion]; omega) (by rw [hquestion]; omega)
  have hyes := hy.closed (.punct .colon :: (vs ++ rest)) rfl
  obtain ⟨_, hno⟩ := hn rest hr
  have hbranches : Yields (fun m => (expression? m (us ++ .punct .colon :: (vs ++ rest))).bind
      fun yes => (expect? .colon yes.2).bind fun ts => (conditional? m ts).map fun no =>
        ((Tree.conditional c yes.1 no.1.1, false), no.2)) ((.conditional c y n, false), rest) := by
    refine hyes.bind ?_
    simp only [expect?_cons, Option.bind_some]
    exact hno.map _
  refine ⟨false, hcond.after hbranches fun m hm => ?_⟩
  simp [conditional?, hm, expect?_cons]

lemma ofConditional (h : conditional.Found ts t) : assignment.Found ts t := by
  intro rest hr
  obtain ⟨unary, hfound⟩ := h rest (by omega)
  refine hfound.after (yields_const rfl) fun n hn => ?_
  rw [assignment?, hn, Option.bind_some]
  rcases rest with _ | ⟨_ | _ | p, rest⟩
  · rfl
  · rfl
  · rfl
  · simp [Punct.isAssignment_eq_false (p := p) hr]

lemma assigns (hp : p.isAssignment = true) (hd : Derives .unary ts a) (ha : unary.Found ts a)
    (hb : assignment.Found us b) : assignment.Found (ts ++ .punct p :: us) (.assign p a b) := by
  intro rest hr
  have htight : tightness (.punct p :: (us ++ rest)) = 2 := Punct.tightness_of_isAssignment hp
  -- nothing goes on with the left side, so it comes up through the categories unchanged
  have hcast := yields_cast? hd ha (.punct p :: (us ++ rest)) (by omega)
  have hstop : Yields (climb? · 1 (a, true) (.punct p :: (us ++ rest)))
      ((a, true), .punct p :: (us ++ rest)) :=
    yields_of_step fun n => climb?_stop (by omega) _ n
  have hbinary : Yields (binary? · 1 (ts ++ .punct p :: (us ++ rest)))
      ((a, true), .punct p :: (us ++ rest)) :=
    hcast.after hstop fun n hn => by simp [binary?, hn]
  have hquestion : expect? .question (.punct p :: (us ++ rest)) = none :=
    expect?_eq_none (by rw [htight]; decide)
  have hleft : Yields (conditional? · (ts ++ .punct p :: (us ++ rest)))
      ((a, true), .punct p :: (us ++ rest)) :=
    hbinary.after (yields_const rfl) fun n hn => by simp [conditional?, hn, hquestion]
  have hright := (hb rest hr).map fun found => (Tree.assign p a found.1, found.2)
  refine hleft.after hright fun n hn => ?_
  simp [assignment?, hn, hp]

lemma ofAssignment (h : assignment.Found ts t) : expression.Found ts t := by
  intro rest hr answer hanswer
  refine (h rest hr).after hanswer fun n hn => ?_
  simp [expression?, hn]

lemma comma (ha : expression.Found ts a) (hb : assignment.Found us b) :
    expression.Found (ts ++ .punct .comma :: us) (.comma a b) := by
  intro rest hr answer hanswer
  rw [append_assoc]
  refine ha (.punct .comma :: (us ++ rest)) (Nat.le_refl 1) _ ?_
  refine (hb rest hr).after hanswer fun n hn => ?_
  simp [commas?, expect?, hn]

end Category.Found

/-- **The parser finds every expression.**

**Proof sketch.** Induction on the derivation, with one lemma for each production. Where a
production repeats its own category on the left, the parser is in the middle of a loop when it has
read the left part; that is why `Category.Found` speaks of what the loop answers from there on. -/
theorem Derives.found {ts : List Lexeme} {t : Tree} (h : Derives category ts t) :
    category.Found ts t := by
  induction h with
  | name hw => exact fun rest => yields_of_step fun n => by simp [primary?, hw]
  | number => exact fun rest => yields_of_step fun n => by simp [primary?]
  | parens _ ih => exact ih.parens
  | ofPrimary _ ih => exact ih.ofPrimary
  | call _ hargs ihf ihargs => exact ihf.call fun arg harg => ⟨hargs arg harg, ihargs arg harg⟩
  | index _ _ iha ihi => exact iha.index ihi
  | member hp _ ih => exact .member hp ih
  | after hp _ ih => exact .after hp ih
  | ofSuffixed h ih => exact .ofSuffixed h ih
  | step hp _ ih => exact .step hp ih
  | before hp _ ih => exact .before hp ih
  | ofUnary h ih => exact fun rest hr => ⟨true, Category.Found.yields_cast? h ih rest hr⟩
  | cast hw _ ih => exact .casts hw ih
  | ofCast _ ih => exact ih.ofCast
  | ofTighter _ ih => exact ih.ofTighter
  | binary hp _ _ iha ihb => exact .operates hp iha ihb
  | ofBinary _ ih => exact ih.ofBinary
  | conditional _ _ _ ihc ihy ihn => exact ihc.chooses ihy ihn
  | ofConditional _ ih => exact ih.ofConditional
  | assign hp ha _ iha ihb => exact .assigns hp ha iha ihb
  | ofAssignment _ ih => exact ih.ofAssignment
  | comma _ _ iha ihb => exact iha.comma ihb

/-- No expression has two shapes. -/
lemma Derives.unique {ts : List Lexeme} {t u : Tree} (ht : Derives .expression ts t)
    (hu : Derives .expression ts u) : t = u := by
  have h : (t, ([] : List Lexeme)) = (u, []) :=
    (Category.Found.closed ht.found [] rfl).unique (Category.Found.closed hu.found [] rfl)
  exact congrArg Prod.fst h

end WasmToC.C

import WasmToC.Proofs.Coherent

/-!
# What a run takes off its input

A reader goes through its source from the front, and looks no further than it has to. On every
source one of three things happens. It takes a byte string off the front and answers; then it does
so on every source that starts with these bytes. Or it refuses a byte string at the front; then it
does so, with the same error, whatever comes behind. Or the input ends too early, which is what the
error says, and more input may lead anywhere. A run never stops without an answer.

The bounds on the nesting of types and on the number of instructions are taken from the bytes that
are left, so a reader with a fixed bound is looked at on short sources only, and together with the
reader that has a higher bound. All that is bounded takes a byte at least: the bound is not
reached, and a higher one changes nothing. Readers in sequence answer when each of them does, so
that this is carried from single bytes up to expressions, and to whatever has a declared length.

Each traversal looks at two readers that do alike, so that it also says what the answer does not
depend on, and what holds of it.

## Main definitions

* `Error.IsIn`, `Error.IsRevisable` — what is refused, and what more input may
  revise.
* `Reader.Answers` — what a reader does on sources of fewer than so many bytes.
* `Reader.Settles`, `Decoder.Settles` — it does so on all sources.

## Main results

* `Reader.outcome_of_answers` — what becomes of a source.
* `Reader.Answers.relate`, `Decoder.settles_iterate` — readers in sequence, and
  steps that are repeated.
* `Decoder.Settles.within` — a decoder that has to fill a declared length.
-/

namespace WasmToC

open List Reader

variable {α α' β β' σ σ' : Type} {F : Option Nat → Prop} {R : α → α' → Prop} {Q : β → β' → Prop}
  {P : α → Prop} {s s' : Source} {a : α} {r : Reader α} {a' : α'} {ending : Ending}

/-! ## Errors -/

namespace Error

/-- An error that contents are refused with. `F` says which functions they stand in: the one that
is named where something is not supported is among these, and only a body can be corrupt. -/
def IsIn (F : Option Nat → Prop) : Error → Prop
  | malformed _ | invalid _ => True
  | unsupported function _ _ => F function
  | corruptSection id _ => id = Section.codeId ∧ ∃ index, F (some index)
  | badHeader _ | io _ => False

/-- An error that more input may revise: the input has ended, or a body does not fill its length. -/
def IsRevisable (F : Option Nat → Prop) (ending : Ending) : Error → Prop
  | io f => ending = .clean → f.atEnd = true
  | corruptSection id _ => id = Section.codeId ∧ ∃ index, F (some index)
  | badHeader _ | malformed _ | unsupported _ _ _ | invalid _ => False

variable {F' : Option Nat → Prop} {e : Error}

lemma IsIn.mono (h : e.IsIn F) (hF : ∀ function, F function → F' function) : e.IsIn F' := by
  cases e with
  | malformed _ | invalid _ => exact trivial
  | unsupported function _ _ => exact hF function h
  | corruptSection _ _ => exact ⟨h.1, h.2.imp fun index => hF (some index)⟩
  | badHeader _ | io _ => exact h

lemma IsRevisable.mono (h : e.IsRevisable F ending) (hF : ∀ function, F function → F' function) :
    e.IsRevisable F' ending := by
  cases e with
  | corruptSection _ _ => exact ⟨h.1, h.2.imp fun index => hF (some index)⟩
  | io _ | badHeader _ | malformed _ | unsupported _ _ _ | invalid _ => exact h

end Error

namespace Reader

variable {n n' n'' : Nat} {x : Except Failure (α × Source)} {r' : Reader α'} {k : α → Reader β}
  {x' : Except Failure (α' × Source)} {form form' : Reader TypeForm}

/-! ## What readers do -/

/-- Two runs have failed alike, or have come to the same place with results that are related. -/
def Alike (R : α → α' → Prop) (x : Except Failure (α × Source))
    (x' : Except Failure (α' × Source)) : Prop :=
  match x with
  | .ok (a, s) => ∃ a', x' = .ok (a', s) ∧ R a a'
  | .error f => x' = .error f

/-- Both results are the same, with the property `P`. -/
def Same (P : α → Prop) (a a' : α) : Prop := a = a' ∧ P a

/-- Nothing is asked of a result. -/
def Any (_ : α) : Prop := True

/-- What a reader does on a source, and with it on all other sources of fewer than `n` bytes. What
it takes leaves fewer than `n'`. -/
inductive Answer (F : Option Nat → Prop) (n n' : Nat) (r : Reader α) (s : Source) : Prop
  /-- The bytes `taken` are read as `a`. -/
  | takes (taken rest : List UInt8) (a : α) (hs : s.rest = taken ++ rest)
      (few : n ≤ taken.length + n')
      (reads : ∀ rest ending, (taken ++ rest).length < n →
        r ⟨taken ++ rest, ending⟩ = .ok (a, ⟨rest, ending⟩))
  /-- The bytes `taken` are refused. -/
  | refuses (taken rest : List UInt8) (e : Error) (hs : s.rest = taken ++ rest) (he : e.IsIn F)
      (fails : ∀ rest ending, (taken ++ rest).length < n →
        r ⟨taken ++ rest, ending⟩ = .error (.error e))
  /-- The input ends too early. -/
  | ends (e : Error) (h : r s = .error (.error e)) (he : e.IsRevisable F s.ending)

/-- What a reader does on every source of fewer than `n` bytes, where `r'` does alike. -/
def Answers (F : Option Nat → Prop) (R : α → α' → Prop) (n n' : Nat) (r : Reader α)
    (r' : Reader α') : Prop :=
  ∀ s, s.rest.length < n → Alike R (r s) (r' s) ∧ Answer F n n' r s

/-- What a reader does on every source, and a property of what it answers. -/
def Settles (F : Option Nat → Prop) (P : α → Prop) (r : Reader α) : Prop :=
  ∀ n, Answers F (Same P) n n r r

lemma alike_refl (h : ∀ a s, x = .ok (a, s) → P a) : Alike (Same P) x x := by
  rcases x with f | ⟨a, s⟩
  · rfl
  · exact ⟨a, rfl, rfl, h a s rfl⟩

lemma Alike.eq {x' : Except Failure (α × Source)} (h : Alike (Same P) x x') : x' = x := by
  rcases x with f | ⟨a, s⟩
  · exact h
  · obtain ⟨_, hx', rfl, -⟩ := h
    exact hx'

lemma Alike.of_ok (h : Alike R x x') (hx : x = .ok (a, s)) : ∃ a', x' = .ok (a', s) ∧ R a a' := by
  subst hx
  exact h

/-- Runs go on alike where they have come to the same place. -/
lemma Alike.bind {f : α × Source → Except Failure (β × Source)}
    {f' : α' × Source → Except Failure (β' × Source)} (h : Alike R x x')
    (hf : ∀ a a' s, R a a' → Alike Q (f (a, s)) (f' (a', s))) :
    Alike Q (x.bind f) (x'.bind f') := by
  rcases x with e | ⟨a, s⟩
  · obtain rfl : x' = .error e := h
    rfl
  · obtain ⟨a', rfl, ha⟩ := h
    exact hf a a' s ha

lemma answers_zero (r : Reader α) (r' : Reader α') : Answers F R 0 n' r r' :=
  fun _ hs => absurd hs (Nat.not_lt_zero _)

/-- More functions may be named, and more may be left. -/
lemma Answers.weaken {F' : Option Nat → Prop} {R' : α → α' → Prop} (h : Answers F R n n' r r')
    (hF : ∀ function, F function → F' function) (hR : ∀ a a', R a a' → R' a a') (hle : n' ≤ n'') :
    Answers F' R' n n'' r r' := by
  intro s hs
  obtain ⟨halike, hanswer⟩ := h s hs
  constructor
  · rcases hrun : r s with f | ⟨a, s'⟩
    · rwa [hrun] at halike
    · obtain ⟨a', hrun', ha⟩ := halike.of_ok hrun
      exact ⟨a', hrun', hR a a' ha⟩
  · cases hanswer with
    | takes taken rest a hs few reads => exact .takes taken rest a hs (by omega) reads
    | refuses taken rest e hs he fails => exact .refuses taken rest e hs (he.mono hF) fails
    | ends e h he => exact .ends e h (he.mono hF)

lemma Answers.mono (h : Answers F R n n' r r') (hle : n' ≤ n'') : Answers F R n n'' r r' :=
  h.weaken (fun _ => id) (fun _ _ => id) hle

/-- A reader that takes a byte settles. -/
lemma settles_of_answers (h : ∀ n, Answers F (Same P) (n + 1) n r r) : Settles F P r := by
  intro n
  cases n with
  | zero => exact answers_zero r r
  | succ n => exact (h n).mono (Nat.le_succ n)

/-- Bytes that are read. -/
lemma reads_answer (taken : List UInt8) (h : Reads r taken a) (ha : P a)
    (few : n ≤ taken.length + n') (rest : List UInt8) (ending : Ending) :
    Alike (Same P) (r ⟨taken ++ rest, ending⟩) (r ⟨taken ++ rest, ending⟩) ∧
      Answer F n n' r ⟨taken ++ rest, ending⟩ := by
  refine ⟨?_, .takes taken rest a rfl few fun rest ending _ => h rest ending⟩
  rw [h]
  exact ⟨a, rfl, rfl, ha⟩

/-- Bytes that are refused. -/
lemma refuses_answer (taken : List UInt8) {e : Error} (he : e.IsIn F)
    (h : ∀ rest ending, r ⟨taken ++ rest, ending⟩ = .error (.error e)) (rest : List UInt8)
    (ending : Ending) :
    Alike (Same P) (r ⟨taken ++ rest, ending⟩) (r ⟨taken ++ rest, ending⟩) ∧
      Answer F n n' r ⟨taken ++ rest, ending⟩ := by
  refine ⟨?_, .refuses taken rest e rfl he fun rest ending _ => h rest ending⟩
  rw [h]
  rfl

lemma ends_answer {e : Error} (h : r s = .error (.error e)) (he : e.IsRevisable F s.ending) :
    Alike (Same P) (r s) (r s) ∧ Answer F n n' r s := by
  refine ⟨?_, .ends e h he⟩
  rw [h]
  rfl

/-- **What becomes of a source.** Either bytes are read off its front, or there is an error; and if
more input could not revise it, it is the same with more input.

**Proof sketch.** A higher bound allows for longer sources. What has been taken off this one, and
the error that it was refused with, are the same for every bound. -/
theorem outcome_of_answers (h : ∀ n, Answers F R n n r r') (s : Source) :
    (∃ bytes rest a, s.rest = bytes ++ rest ∧ Reads r bytes a) ∨
    ∃ e : Error, r s = .error (.error e) ∧ (e.IsRevisable F s.ending ∨
      e.IsIn F ∧ ∀ rest ending, r ⟨s.rest ++ rest, ending⟩ = .error (.error e)) := by
  obtain ⟨bytes, ending⟩ := s
  have hall := fun n hn => (h n ⟨bytes, ending⟩ hn).2
  cases hrun : r ⟨bytes, ending⟩ with
  | ok p =>
    have htaken : ∀ n, bytes.length < n → ∃ taken, bytes = taken ++ p.2.rest ∧
        ∀ rest ending, (taken ++ rest).length < n →
          r ⟨taken ++ rest, ending⟩ = .ok (p.1, ⟨rest, ending⟩) := by
      intro n hn
      cases hall n hn with
      | takes taken rest a hs few reads =>
        obtain rfl : bytes = taken ++ rest := hs
        obtain rfl : (a, ⟨rest, ending⟩) = p :=
          Except.ok.inj ((reads rest ending hn).symm.trans hrun)
        exact ⟨taken, rfl, reads⟩
      | refuses taken rest e hs _ fails =>
        obtain rfl : bytes = taken ++ rest := hs
        cases (fails rest ending hn).symm.trans hrun
      | ends e herror => cases herror.symm.trans hrun
    obtain ⟨taken, hs, -⟩ := htaken _ (Nat.lt_succ_self _)
    refine .inl ⟨taken, p.2.rest, p.1, hs, fun rest ending => ?_⟩
    -- a bound that allows for both sources takes the same bytes off this one
    obtain ⟨taken', hs', reads⟩ := htaken (bytes.length + (taken ++ rest).length + 1) (by omega)
    obtain rfl : taken = taken' := append_cancel_right (hs.symm.trans hs')
    exact reads rest ending (by omega)
  | error f =>
    have herror : ∀ n, bytes.length < n → ∃ e : Error, f = .error e ∧
        (e.IsRevisable F ending ∨ e.IsIn F ∧ ∀ rest ending, (bytes ++ rest).length < n →
          r ⟨bytes ++ rest, ending⟩ = .error (.error e)) := by
      intro n hn
      cases hall n hn with
      | takes taken rest a hs few reads =>
        obtain rfl : bytes = taken ++ rest := hs
        cases (reads rest ending hn).symm.trans hrun
      | refuses taken rest e hs he fails =>
        obtain rfl : bytes = taken ++ rest := hs
        refine ⟨e, Except.error.inj (hrun.symm.trans (fails rest ending hn)), .inr ⟨he, ?_⟩⟩
        intro more ending hmore
        rw [append_assoc] at hmore ⊢
        exact fails _ _ hmore
      | ends e herror he => exact ⟨e, Except.error.inj (hrun.symm.trans herror), .inl he⟩
    obtain ⟨e, rfl, he⟩ := herror _ (Nat.lt_succ_self _)
    refine .inr ⟨e, rfl, ?_⟩
    by_cases hrevise : e.IsRevisable F ending
    · exact .inl hrevise
    · refine .inr ⟨(he.resolve_left hrevise).1, fun rest ending' => ?_⟩
      obtain ⟨e', hsame, he'⟩ := herror ((bytes ++ rest).length + 1) (by
        rw [length_append]
        omega)
      cases hsame
      exact (he'.resolve_left hrevise).2 rest ending' (Nat.lt_succ_self _)

/-- What a reader has taken it takes off every source. -/
lemma Settles.reads (h : Settles F P r) (hr : r s = .ok (a, s')) :
    ∃ bytes, s = ⟨bytes ++ s'.rest, s'.ending⟩ ∧ Reads r bytes a := by
  obtain ⟨input, ending⟩ := s
  obtain ⟨bytes, rest, a', hs, hreads⟩ | ⟨e, herror, -⟩ := outcome_of_answers h ⟨input, ending⟩
  · obtain rfl : input = bytes ++ rest := hs
    rw [hreads] at hr
    cases hr
    exact ⟨bytes, rfl, hreads⟩
  · cases herror.symm.trans hr

/-- Whatever is read has the property. -/
lemma Settles.holds (h : Settles F P r) (hr : r s = .ok (a, s')) : P a := by
  obtain ⟨_, -, -, ha⟩ := (h _ s (Nat.lt_succ_self _)).1.of_ok hr
  exact ha

/-! ## Readers in sequence -/

/-- A sequence that succeeds succeeds with its first reader, and then with the second. -/
lemma bind_eq_ok {b : β} (h : (r >>= k) s = .ok (b, s')) :
    ∃ a s1, r s = .ok (a, s1) ∧ k a s1 = .ok (b, s') := by
  change (r s).bind (fun p => k p.1 p.2) = .ok (b, s') at h
  cases hr : r s with
  | error f =>
    rw [hr] at h
    cases h
  | ok p =>
    rw [hr] at h
    exact ⟨p.1, p.2, rfl, h⟩

lemma bind_of_ok (h : r s = .ok (a, s')) (k : α → Reader β) : (r >>= k) s = k a s' := by
  change (r s).bind (fun p => k p.1 p.2) = _
  rw [h]
  rfl

lemma bind_of_error {f : Failure} (h : r s = .error f) (k : α → Reader β) :
    (r >>= k) s = .error f := by
  change (r s).bind (fun p => k p.1 p.2) = _
  rw [h]
  rfl

/-- **Byte strings in sequence.** `whole` goes on with `next` behind the bytes `taken`. -/
theorem Answer.after {whole next : Reader β} (taken : List UInt8) {rest : List UInt8}
    (few : n ≤ taken.length + n') (hwhole : ∀ rest ending, (taken ++ rest).length < n →
      whole ⟨taken ++ rest, ending⟩ = next ⟨rest, ending⟩) (hlt : (taken ++ rest).length < n)
    (hnext : Answer F n' n'' next ⟨rest, ending⟩) :
    Answer F n n'' whole ⟨taken ++ rest, ending⟩ := by
  have hbehind : ∀ bytes : List UInt8, (taken ++ bytes).length < n → bytes.length < n' := by
    intro bytes h
    rw [length_append] at h
    omega
  cases hnext with
  | takes taken' rest' b hs few' reads =>
    obtain rfl : rest = taken' ++ rest' := hs
    refine .takes (taken ++ taken') rest' b (append_assoc ..).symm ?_ fun rest ending h => ?_
    · rw [length_append]
      omega
    · rw [append_assoc] at h ⊢
      rw [hwhole _ _ h]
      exact reads _ _ (hbehind _ h)
  | refuses taken' rest' e hs he fails =>
    obtain rfl : rest = taken' ++ rest' := hs
    refine .refuses (taken ++ taken') rest' e (append_assoc ..).symm he fun rest ending h => ?_
    rw [append_assoc] at h ⊢
    rw [hwhole _ _ h]
    exact fails _ _ (hbehind _ h)
  | ends e h he => exact .ends e ((hwhole _ _ hlt).trans h) he

/-- **Readers in sequence.** -/
theorem Answers.relate {k' : α' → Reader β'} (hr : Answers F R n n' r r')
    (hk : ∀ a a', R a a' → Answers F Q n' n'' (k a) (k' a')) :
    Answers F Q n n'' (r >>= k) (r' >>= k') := by
  rintro ⟨bytes, ending⟩ hlt
  obtain ⟨halike, hanswer⟩ := hr _ hlt
  have hfailed : ∀ e, r ⟨bytes, ending⟩ = .error (.error e) →
      Alike Q ((r >>= k) ⟨bytes, ending⟩) ((r' >>= k') ⟨bytes, ending⟩) := by
    intro e h
    rw [h] at halike
    rw [bind_of_error h, bind_of_error (f := .error e) halike]
    rfl
  cases hanswer with
  | takes taken rest a hs few reads =>
    obtain rfl : bytes = taken ++ rest := hs
    have hfirst := reads rest ending hlt
    rw [hfirst] at halike
    obtain ⟨a', hfirst', ha⟩ := halike
    have hrest : rest.length < n' := by
      rw [length_append] at hlt
      omega
    obtain ⟨hsecond, hnext⟩ := hk a a' ha ⟨rest, ending⟩ hrest
    refine ⟨?_, .after taken few (fun rest ending h => bind_of_ok (reads rest ending h) k) hlt
      hnext⟩
    rwa [bind_of_ok hfirst, bind_of_ok hfirst']
  | refuses taken rest e hs he fails =>
    obtain rfl : bytes = taken ++ rest := hs
    exact ⟨hfailed e (fails rest ending hlt), .refuses taken rest e rfl he
      fun rest ending h => bind_of_error (fails rest ending h) k⟩
  | ends e h he => exact ⟨hfailed e h, .ends e (bind_of_error h k) he⟩

lemma Answers.bind {r' : Reader α} {k' : α → Reader β'} (hr : Answers F (Same P) n n' r r')
    (hk : ∀ a, P a → Answers F Q n' n'' (k a) (k' a)) :
    Answers F Q n n'' (r >>= k) (r' >>= k') := by
  apply hr.relate
  rintro a _ ⟨rfl, ha⟩
  exact hk a ha

lemma answers_pure (h : R a a') : Answers F R n n (pure a) (pure a') :=
  fun s _ => ⟨⟨a', rfl, h⟩, .takes [] s.rest a rfl (Nat.le_add_left _ _) fun _ _ _ => rfl⟩

lemma answers_any (a : α) : Answers F (Same Any) n n (pure a) (pure a) :=
  answers_pure ⟨rfl, trivial⟩

lemma answers_fail {e : Error} (he : e.IsIn F) : Answers F R n n' (fail e) (fail e) :=
  fun s _ => ⟨rfl, .refuses [] s.rest e rfl he fun _ _ _ => rfl⟩

lemma Answers.map {r' : Reader α} (hr : Answers F (Same P) n n' r r') (f : α → β) :
    Answers F (Same Any) n n' (do return f (← r)) (do return f (← r')) :=
  hr.bind fun a _ => answers_any (f a)

/-- A number of readings. -/
lemma Answers.many {r r' : Reader α} (hr : Answers F (Same P) n n r r') :
    ∀ count, Answers F (Same fun xs => ∀ x ∈ xs, P x) n n (many r count) (many r' count)
  | 0 => answers_pure ⟨rfl, by simp⟩
  | count + 1 => hr.bind fun _ hx => (hr.many count).bind fun _ hxs =>
      answers_pure ⟨rfl, forall_mem_cons.2 ⟨hx, hxs⟩⟩

/-- **Readers with a bound that is taken from the bytes that are left** settle, if a higher bound
changes nothing. -/
theorem settles_of_length {r : Nat → Reader α}
    (h : ∀ n, Answers F (Same P) (n + 1) (n + 1) (r n) (r (n + 1))) :
    Settles F P fun s => r s.rest.length s := by
  intro n
  cases n with
  | zero => exact answers_zero _ _
  | succ n =>
    have hsame : ∀ s : Source, s.rest.length < n + 1 → r s.rest.length s = r n s := by
      intro s hs
      obtain ⟨more, rfl⟩ := Nat.exists_eq_add_of_le (Nat.le_of_lt_succ hs)
      clear hs
      induction more with
      | zero => rfl
      | succ more ih => exact ih.trans (h _ s (by omega)).1.eq.symm
    intro s hlt
    obtain ⟨halike, hanswer⟩ := h n s hlt
    refine ⟨?_, .after [] (Nat.le_add_left _ _) (fun _ _ h => hsame _ h) hlt hanswer⟩
    show Alike (Same P) (r s.rest.length s) (r s.rest.length s)
    rw [halike.eq] at halike
    rwa [hsame s hlt]

/-! ## Bytes and integers -/

lemma answers_byte : Answers F (Same Any) (n + 1) n byte byte := by
  rintro ⟨_ | ⟨b, rest⟩, ending⟩ -
  · cases ending with
    | clean => exact ends_answer rfl fun _ => rfl
    | broken f => exact ends_answer (e := .io f) rfl nofun
  · exact reads_answer [b] (fun _ _ => rfl) trivial (Nat.le_of_eq (Nat.add_comm n 1)) rest ending

lemma settles_littleEndian (width : Nat) : Settles F Any (littleEndian width) := by
  intro n
  induction width with
  | zero => exact answers_any 0
  | succ width ih => exact (settles_of_answers (fun _ => answers_byte) n).bind fun _ _ => ih.map _

/-- A given number of bytes. -/
lemma settles_bytes (count : Nat) : Settles F Any (bytes count) := by
  rintro n ⟨rest, ending⟩ -
  by_cases hn : count ≤ rest.length
  · have hreads := reads_bytes (rest.take count)
    rw [length_take_of_le hn] at hreads
    have hanswer := reads_answer (F := F) (P := Any) _ hreads trivial (Nat.le_add_left n _)
      (rest.drop count) ending
    rwa [take_append_drop] at hanswer
  · cases ending with
    | clean =>
      refine ends_answer (e := .io ⟨true, "unexpected end of file"⟩) ?_ fun _ => rfl
      simp only [bytes, Source.take, if_neg hn]
    | broken f =>
      refine ends_answer (e := .io f) ?_ (fun hclean => by cases hclean)
      simp only [bytes, Source.take, if_neg hn]

/-- A variable-length integer with its errors as they are reported. -/
def ofVarint (read : Source → Except Varint.Error α × Source) : Reader α := fun s =>
  match read s with
  | (.ok v, s) => .ok (v, s)
  | (.error e, _) => .error (.error (.ofVarint e))

/-- **An integer takes a byte**, and goes on, where it does, with seven bits less. -/
theorem answers_ofVarint {read : Nat → Source → Except Varint.Error α × Source}
    {value : UInt8 → α} {join : UInt8 → α → α} {fits : Nat → α → Bool}
    (h : Varint.Grouped read value join fits) (bits : Nat) :
    Answers F (Same (fits bits · = true)) (n + 1) n (ofVarint (read bits))
      (ofVarint (read bits)) := by
  induction bits using Nat.strongRecOn generalizing n with
  | ind bits ih =>
    rintro ⟨_ | ⟨b, rest⟩, ending⟩ hlt
    · refine ends_answer (e := .ofVarint (.ofEnding ending)) (by rw [ofVarint, h.nil]) ?_
      cases ending with
      | clean => exact fun _ => rfl
      | broken f =>
        unfold Varint.Error.ofEnding Varint.Error.ofFault
        dsimp only
        split <;> exact nofun
    · have few : n + 1 ≤ [b].length + n := Nat.le_of_eq (Nat.add_comm n 1)
      by_cases hwide : (!fits bits (value b)) = true
      · refine refuses_answer [b] (e := .ofVarint (.malformed .tooWide)) trivial
          (fun _ _ => ?_) rest ending
        simp only [ofVarint, singleton_append, h.cons, if_pos hwide]
      by_cases hlast : (!Varint.continues b) = true
      · refine reads_answer [b] (fun _ _ => ?_) (by simpa using hwide) few rest ending
        simp only [ofVarint, singleton_append, h.cons, if_neg hwide, if_pos hlast]
      by_cases hlong : bits ≤ 7
      · refine refuses_answer [b] (e := .ofVarint (.malformed .tooLong)) trivial
          (fun _ _ => ?_) rest ending
        simp only [ofVarint, singleton_append, h.cons, if_neg hwide, if_neg hlast, if_pos hlong]
      · have hmore := (settles_of_answers (fun n => ih (bits - 7) (by omega)) n).bind
          fun v hv => answers_pure (F := F) (R := Same (fits bits · = true)) (a := join b v)
            ⟨rfl, (h.fits_join b v (Nat.lt_of_not_le hlong)).trans hv⟩
        have hwhole : ∀ rest ending, ofVarint (read bits) ⟨[b] ++ rest, ending⟩ =
            (do return join b (← ofVarint (read (bits - 7))) : Reader α) ⟨rest, ending⟩ := by
          intro rest ending
          simp only [ofVarint, singleton_append, h.cons bits, if_neg hwide, if_neg hlast,
            if_neg hlong, bind, StateT.bind]
          rcases read (bits - 7) ⟨rest, ending⟩ with ⟨_ | _, _⟩ <;> rfl
        obtain ⟨halike, hanswer⟩ := hmore ⟨rest, ending⟩ (Nat.lt_of_succ_lt_succ hlt)
        refine ⟨?_, .after [b] few (fun rest ending _ => hwhole rest ending) hlt hanswer⟩
        rwa [show ofVarint (read bits) ⟨b :: rest, ending⟩ = _ from hwhole rest ending]

/-- An unsigned integer fits its width. -/
lemma answers_varuint (bits : Nat) :
    Answers F (Same (· < 2 ^ bits)) (n + 1) n (varuint bits) (varuint bits) := by
  have hread : varuint bits = ofVarint (Varint.unsigned bits) := by
    funext s
    unfold varuint ofVarint
    rcases Varint.unsigned bits s with ⟨_ | _, _⟩ <;> rfl
  rw [hread]
  refine (answers_ofVarint Varint.grouped_unsigned bits).weaken (fun _ => id) ?_ (Nat.le_refl _)
  exact fun v v' h => ⟨h.1, decide_eq_true_iff.1 h.2⟩

lemma settles_varuint (bits : Nat) : Settles F (· < 2 ^ bits) (varuint bits) :=
  settles_of_answers fun _ => answers_varuint bits

lemma settles_varint (bits : Nat) : Settles F Any (varint bits) := by
  have hread : varint bits = ofVarint (Varint.signed bits) := by
    funext s
    unfold varint ofVarint
    rcases Varint.signed bits s with ⟨_ | _, _⟩ <;> rfl
  rw [hread]
  exact settles_of_answers fun n => (answers_ofVarint Varint.grouped_signed bits).weaken
    (fun _ => id) (fun _ _ h => ⟨h.1, trivial⟩) (Nat.le_refl _)

lemma settles_flag : Settles F Any flag := fun n => (settles_varuint 1 n).map _

lemma settles_name : Settles F Any name := by
  intro n
  apply (settles_varuint 32 n).bind
  intro length _
  apply (settles_bytes length n).bind
  intro content _
  split
  · exact answers_any _
  · exact answers_fail trivial

/-! ## Types -/

/-- The tag of a type takes a byte, and what follows has one less. -/
lemma answers_formWith {func func' : Reader FuncType}
    (hfunc : Answers (· = none) (Same Any) n n func func') :
    Answers (· = none) (Same Any) (n + 1) n (formWith func) (formWith func') := by
  apply (answers_varuint 7).bind
  intro tag _
  split
  · exact hfunc.map _
  · split
    · exact answers_any _
    · exact answers_fail rfl

lemma Answers.valueOf (hform : Answers (· = none) (Same Any) n n' form form') :
    Answers (· = none) (Same Any) n n' (valueOf form) (valueOf form') := by
  apply hform.bind
  intro form _
  split
  · exact answers_any _
  · exact answers_fail rfl

lemma Answers.funcOf (hform : Answers (· = none) (Same Any) n n form form') :
    Answers (· = none) (Same Any) n n (funcOf form) (funcOf form') := by
  apply (settles_varuint 32 n).bind
  intro count _
  apply (hform.valueOf.many count).bind
  intro params _
  apply (settles_varuint 32 n).bind
  intro results _
  split
  · exact answers_any _
  · exact hform.valueOf.map _
  · exact answers_fail rfl

/-- **The bound on the nesting of types is not reached**: each function type takes a byte. -/
theorem answers_formUpTo : ∀ d,
    Answers (· = none) (Same Any) (d + 1) d (formUpTo d) (formUpTo (d + 1))
  | 0 => answers_formWith (answers_zero _ _)
  | d + 1 => answers_formWith ((answers_formUpTo d).mono (Nat.le_succ d)).funcOf

lemma settles_typeForm : Settles (· = none) Any typeForm := by
  have hfunc : Settles (· = none) Any fun s => funcOf (formUpTo s.rest.length) s :=
    settles_of_length fun n => ((answers_formUpTo n).mono (Nat.le_succ n)).funcOf
  exact settles_of_answers fun n => answers_formWith (hfunc n)

lemma settles_valueType : Settles (· = none) Any valueType :=
  fun n => (settles_typeForm n).valueOf

lemma settles_blockType : Settles (· = none) Any blockType := by
  intro n
  apply (settles_typeForm n).bind
  intro form _
  split
  · exact answers_any _
  · exact answers_any _
  · exact answers_fail rfl

lemma settles_limits : Settles F Any limits := by
  intro n
  apply (settles_flag n).bind
  intro bounded _
  apply (settles_varuint 32 n).bind
  intro initial _
  split
  · exact (settles_varuint 32 n).map _
  · exact answers_any _

lemma settles_table : Settles (· = none) Any table := by
  intro n
  apply (settles_typeForm n).bind
  intro form _
  split
  · exact settles_limits n
  · exact answers_fail rfl

lemma settles_globalType : Settles (· = none) Any globalType :=
  fun n => (settles_valueType n).bind fun _ _ => (settles_flag n).map _

/-! ## Instructions -/

/-- The immediate that is read is one that the opcode calls for. -/
lemma settles_immediate (op : Opcode) :
    Settles (· = none) (fun imm => Instruction.isShaped ⟨op, imm⟩ = true) (immediate op) := by
  intro n
  have hnumber : Answers (· = none) (Same (· < 2 ^ 32)) n n (varuint 32) (varuint 32) :=
    settles_varuint 32 n
  cases op with
  | block | loop | ifOp => exact (settles_blockType n).bind fun _ _ => answers_pure ⟨rfl, rfl⟩
  | br | brIf | call | getLocal | setLocal | teeLocal | getGlobal | setGlobal =>
    exact hnumber.bind fun _ h => answers_pure ⟨rfl, decide_eq_true h⟩
  | brTable =>
    refine hnumber.bind fun count _ => (hnumber.many count).bind fun targets htargets =>
      hnumber.bind fun d hd => answers_pure ⟨rfl, ?_⟩
    simp only [Instruction.isShaped, Bool.and_eq_true, all_eq_true, decide_eq_true_eq]
    exact ⟨htargets, hd⟩
  | callIndirect =>
    exact hnumber.bind fun _ h => (settles_flag n).bind fun _ _ =>
      answers_pure ⟨rfl, decide_eq_true h⟩
  | currentMemory | growMemory => exact (settles_flag n).bind fun _ _ => answers_pure ⟨rfl, rfl⟩
  | const t =>
    cases t with
    | i32 | i64 => exact (settles_varint _ n).bind fun _ _ => answers_pure ⟨rfl, by
        simp [Instruction.isShaped, Value.type]⟩
    | f32 | f64 => exact (settles_littleEndian _ n).bind fun _ _ => answers_pure ⟨rfl, by
        simp [Instruction.isShaped, Value.type]⟩
  | load _ | store _ =>
    refine hnumber.bind fun flags hflags => hnumber.bind fun off hoffset =>
      answers_pure ⟨rfl, ?_⟩
    simp only [Instruction.isShaped, Bool.and_eq_true, decide_eq_true_eq]
    exact ⟨hflags, hoffset⟩
  | unreachable | nop | elseOp | endOp | returnOp | drop | select | numeric _ =>
    exact answers_pure ⟨rfl, rfl⟩

/-- An instruction takes a byte. -/
lemma answers_instruction :
    Answers (· = none) (Same fun i => i.isShaped = true) (n + 1) n instruction instruction := by
  apply answers_byte.bind
  intro b _
  split
  · exact (settles_immediate _ n).bind fun _ h => answers_pure ⟨rfl, h⟩
  · exact answers_fail rfl

end Reader

namespace Decoder

variable {d : Decoder α} {k : α → Decoder β} {p : α × Source}

/-! ## Decoders -/

/-- A decoder without its log. -/
def silent (d : Decoder α) : Reader α := fun s => (d s).outcome

/-- What a decoder does on every source, where `d'` does alike. -/
def Settles (F : Option Nat → Prop) (R : α → α' → Prop) (d : Decoder α) (d' : Decoder α') : Prop :=
  ∀ n, Answers F R n n d.silent d'.silent

lemma silent_bind (d : Decoder α) (k : α → Decoder β) :
    silent (d >>= k) = silent d >>= fun a => silent (k a) := by
  funext s
  exact Traced.outcome_bind (d s) fun p => k p.1 p.2

lemma settles_pure (h : R a a') : Settles F R (pure a) (pure a') :=
  fun _ => answers_pure h

lemma settles_fail {e : Error} (he : e.IsIn F) : Settles F R (fail e) (fail e) :=
  fun _ => answers_fail he

/-- Two ways to go on. -/
lemma settles_ite {c : Prop} {i i' : Decidable c} {x y : Decoder α} {x' y' : Decoder α'}
    (hx : c → Settles F R x x') (hy : ¬ c → Settles F R y y') :
    Settles F R (@ite _ c i x y) (@ite _ c i' x' y') := by
  by_cases h : c
  · rw [if_pos h, if_pos h]
    exact hx h
  · rw [if_neg h, if_neg h]
    exact hy h

lemma settles_note (level : Level) (text : String) :
    Settles F (Same Any) (note level text) (note level text) :=
  fun _ => answers_pure ⟨rfl, trivial⟩

/-- A record, and a value that is there already. -/
lemma settles_noted {level level' : Level} {text text' : String} (h : R a a') :
    Settles F R (do note level text; return a) (do note level' text'; return a') :=
  fun _ => answers_pure h

lemma settles_of_reader (hr : Reader.Settles F P r) :
    Settles F (Same P) (liftM r : Decoder α) (liftM r) := hr

/-- **Decoders in sequence.** -/
theorem Settles.relate {d' : Decoder α'} {k' : α' → Decoder β'} (hd : Settles F R d d')
    (hk : ∀ a a', R a a' → Settles F Q (k a) (k' a')) : Settles F Q (d >>= k) (d' >>= k') := by
  intro n
  rw [silent_bind, silent_bind]
  exact (hd n).relate fun a a' ha => hk a a' ha n

/-- Decoders in sequence, the first of which is the same. -/
lemma Settles.bind {d' : Decoder α} {k' : α → Decoder β'} (hd : Settles F (Same P) d d')
    (hk : ∀ a, P a → Settles F Q (k a) (k' a)) : Settles F Q (d >>= k) (d' >>= k') := by
  apply hd.relate
  rintro a _ ⟨rfl, ha⟩
  exact hk a ha

/-- **A step that is repeated.** `S` is what holds with so many repetitions to come. -/
theorem settles_iterate {step : σ → Decoder σ} {step' : σ' → Decoder σ'} {S : Nat → σ → σ' → Prop}
    (hstep : ∀ n x x', S (n + 1) x x' → Settles F (S n) (step x) (step' x')) :
    ∀ (n : Nat) {x : σ} {x' : σ'}, S n x x' →
      Settles F (S 0) (iterate step n x) (iterate step' n x')
  | 0, _, _, h => settles_pure h
  | n + 1, x, x', h => (hstep n x x' h).relate fun _ _ h => settles_iterate hstep n h

/-- A read that succeeds does so whatever would have happened to its error. -/
lemma eq_ok_of_mapError {f : Error → Error} (h : (d.mapError f s).outcome = .ok p) :
    (d s).outcome = .ok p := by
  change ((d s).outcome).mapError _ = _ at h
  cases hd : (d s).outcome with
  | error e =>
    rw [hd] at h
    cases h
  | ok q =>
    rw [hd] at h
    cases h
    rfl

lemma mapError_of_ok (f : Error → Error) (h : silent d s = .ok p) :
    silent (d.mapError f) s = .ok p := by
  change (silent d s).mapError _ = _
  rw [h]
  rfl

lemma mapError_of_error {e : Error} (f : Error → Error) (h : silent d s = .error (.error e)) :
    silent (d.mapError f) s = .error (.error (f e)) := by
  change (silent d s).mapError _ = _
  rw [h]
  rfl

/-- **A decoder whose errors name a function.** -/
theorem Settles.inFunction (hd : Settles (· = none) (Same P) d d) (index : Nat) :
    Settles (· = some index) (Same P) (d.mapError (Error.inFunction index))
      (d.mapError (Error.inFunction index)) := by
  intro n s hs
  refine ⟨alike_refl fun a s' h => Settles.holds hd (eq_ok_of_mapError h), ?_⟩
  cases (hd n s hs).2 with
  | takes taken rest a hs few reads =>
    exact .takes taken rest a hs few fun rest ending h => mapError_of_ok _ (reads rest ending h)
  | refuses taken rest e hs he fails =>
    refine .refuses taken rest (e.inFunction index) hs ?_ fun rest ending h =>
      mapError_of_error _ (fails rest ending h)
    cases e with
    | unsupported function _ _ =>
      obtain rfl : function = none := he
      exact rfl
    | corruptSection _ _ =>
      obtain ⟨-, _, hnone⟩ := he
      cases hnone
    | malformed _ | invalid _ => exact trivial
    | badHeader _ | io _ => exact he.elim
  | ends e h he =>
    refine .ends (e.inFunction index) (mapError_of_error _ h) ?_
    cases e with
    | io f => exact he
    | corruptSection _ _ =>
      obtain ⟨-, _, hnone⟩ := he
      cases hnone
    | badHeader _ | malformed _ | unsupported _ _ _ | invalid _ => exact he.elim

/-! ## Declared lengths -/

/-- A decoder inside a declared length, and what is done with its result. -/
lemma silent_within_bind (d : Decoder α) (k : α × Nat → Decoder β) (size : Nat) (s : Source) :
    silent (within size d >>= k) s = (silent d (s.region size)).bind fun p =>
      silent (k (p.1, s.unread size p.2)) (s.leave size p.2) := by
  refine (Traced.outcome_bind (within size d s) fun p => k p.1 p.2).trans ?_
  change ((d (s.region size) >>= _ : Traced _).outcome).bind _ = _
  rw [Traced.outcome_bind]
  change ((silent d (s.region size)).bind _).bind _ = _
  cases silent d (s.region size) with
  | error f => rfl
  | ok p => rfl

/-- A decoder inside a declared length that leaves nothing unread has been given all its bytes, and
has taken them. -/
lemma within_eq_ok {n : Nat} (h : (within n d s).outcome = .ok ((a, 0), s')) :
    ∃ inner, (d ⟨s.rest.take n, .clean⟩).outcome = .ok (a, inner) ∧ inner.rest = [] ∧
      n ≤ s.rest.length ∧ s' = ⟨s.rest.drop n, s.ending⟩ := by
  change ((d (s.region n)) >>= _ : Traced _).outcome = _ at h
  rw [Traced.outcome_bind] at h
  cases hrun : (d (s.region n)).outcome with
  | error f =>
    rw [hrun] at h
    cases h
  | ok p =>
    obtain ⟨b, inner⟩ := p
    rw [hrun] at h
    have h' : (.ok ((b, s.unread n inner), s.leave n inner) : Except Failure _) =
        .ok ((a, 0), s') := h
    simp only [Except.ok.injEq, Prod.mk.injEq, Source.unread] at h'
    obtain ⟨⟨rfl, hunread⟩, rfl⟩ := h'
    have hlen : n ≤ s.rest.length := by omega
    have hinner : inner.rest = [] := length_eq_zero_iff.1 (by omega)
    refine ⟨inner, ?_, hinner, hlen, by simp [Source.leave, hinner]⟩
    rwa [Source.region, if_pos hlen] at hrun

lemma region_append (bytes rest : List UInt8) (ending : Ending) :
    (⟨bytes ++ rest, ending⟩ : Source).region bytes.length = ⟨bytes, .clean⟩ := by
  simp [Source.region]

/-- With more input there may be more in a region. -/
lemma exists_region_append (bytes rest : List UInt8) (ending : Ending) (size : Nat) :
    ∃ rest' ending', (⟨bytes ++ rest, ending⟩ : Source).region size =
      ⟨bytes.take size ++ rest', ending'⟩ := by
  rw [Source.region, take_append]
  exact ⟨_, _, rfl⟩

/-- **A body that has to fill its length.** What follows refuses to go on where bytes are left
unread.

**Proof sketch.** A region that has all its bytes is the same whatever comes behind. One that
lacks some is not filled, so the refusal may be revised; and what is refused inside is refused there
with more bytes, too. -/
theorem Settles.within {index : Nat} {T : β → Prop}
    (hd : Settles (· = some index) (Same P) d d) {k : α × Nat → Decoder β} {size : Nat}
    {why : Nat → SectionFault}
    (hleft : ∀ a left, left ≠ 0 → k (a, left) = fail (.corruptSection Section.codeId (why left)))
    (hk : ∀ a, P a → Settles (· = some index) (Same T) (k (a, 0)) (k (a, 0))) :
    Settles (· = some index) (Same T) (within size d >>= k) (within size d >>= k) := by
  rintro n ⟨bytes, ending⟩ hlt
  have hrun := silent_within_bind d k size
  have hshort : ∀ s : Source, (s.region size).rest.length < size + 1 := by
    intro s
    show (s.rest.take size).length < size + 1
    rw [length_take]
    omega
  cases (hd (size + 1) _ (hshort ⟨bytes, ending⟩)).2 with
  | takes taken rest a hs few reads =>
    replace hs : bytes.take size = taken ++ rest := hs
    by_cases hsize : size ≤ bytes.length
    · -- the region has all its bytes
      obtain ⟨behind, rfl⟩ : ∃ behind, bytes = taken ++ rest ++ behind :=
        ⟨bytes.drop size, by rw [← hs, take_append_drop]⟩
      have hlen : (taken ++ rest).length = size := by rw [← hs, length_take_of_le hsize]
      have hinner := reads rest .clean (by omega)
      have hwhole : ∀ more ending, silent (Decoder.within size d >>= k)
          ⟨taken ++ rest ++ more, ending⟩ = silent (k (a, rest.length)) ⟨rest ++ more, ending⟩ := by
        intro more ending
        rw [hrun, ← hlen, region_append, hinner]
        simp [Except.bind, Source.unread, Source.leave]
      by_cases hrest : rest = []
      · have ha : P a := Settles.holds hd hinner
        subst hrest
        rw [append_nil] at hwhole hlt ⊢
        obtain ⟨hsame, hnext⟩ := hk a ha n ⟨behind, ending⟩ (by
          rw [length_append] at hlt
          exact Nat.lt_of_le_of_lt (Nat.le_add_left _ _) hlt)
        refine ⟨?_, .after taken (Nat.le_add_left _ _) (fun more ending _ => hwhole more ending) hlt
          hnext⟩
        rwa [hwhole]
      · refine refuses_answer (F := (· = some index)) (taken ++ rest)
          (e := .corruptSection Section.codeId (why rest.length)) ⟨rfl, index, rfl⟩
          (fun more ending => ?_) behind ending
        rw [hwhole, hleft a _ fun h => hrest (length_eq_zero_iff.1 h)]
        rfl
    · -- the region lacks bytes
      refine ends_answer (e := .corruptSection Section.codeId
        (why ((⟨bytes, ending⟩ : Source).unread size ⟨rest, ending⟩))) ?_ ⟨rfl, index, rfl⟩
      rw [hrun, Source.region, hs, if_neg hsize, reads rest ending (hs ▸ hshort ⟨bytes, ending⟩)]
      show silent (k (a, _)) _ = _
      rw [hleft a _ (by simp only [Source.unread]; omega)]
      rfl
  | refuses taken rest e hs he fails =>
    replace hs : bytes.take size = taken ++ rest := hs
    have htaken : taken.take size = taken := by
      have := congrArg List.length hs
      rw [length_take, length_append] at this
      exact take_of_length_le (by omega)
    have hbytes : bytes = taken ++ (rest ++ bytes.drop size) := by
      rw [← append_assoc, ← hs, take_append_drop]
    rw [hbytes]
    refine refuses_answer taken he (fun more ending => ?_) _ ending
    obtain ⟨rest', ending', hregion⟩ := exists_region_append taken more ending size
    have hfew := hshort ⟨taken ++ more, ending⟩
    rw [htaken] at hregion
    rw [hregion] at hfew
    rw [hrun, hregion, fails rest' ending' hfew]
    rfl
  | ends e h he =>
    refine ends_answer (e := e) (by rw [hrun, h]; rfl) ?_
    cases e with
    | io f =>
      intro hclean
      refine he ?_
      obtain rfl : ending = .clean := hclean
      exact ite_self _
    | corruptSection _ _ => exact he
    | badHeader _ | malformed _ | unsupported _ _ _ | invalid _ => exact he

/-! ## Code -/

/-- One instruction, and the code behind it. -/
lemma silent_codeUpTo (fuel d : Nat) (pre : List Instruction) :
    silent (codeUpTo (fuel + 1) d pre) = (do
      let i ← instruction
      if i.op = .endOp ∧ d = 0 then return pre.reverse
      else
        silent (codeUpTo fuel
          (if i.op.opensConstruct then d + 1 else if i.op = .endOp then d - 1 else d)
          (i :: pre))) := by
  rw [codeUpTo, silent_bind]
  congr 1
  funext i
  split
  · rfl
  · rw [silent_bind]
    rfl

/-- **The bound on the number of instructions is not reached**: each takes a byte. The instructions
that are read keep the code so far a beginning of balanced code, up to the `end` that closes it. -/
theorem answers_codeUpTo : ∀ (fuel : Nat) {d : Nat} {pre : List Instruction},
    IsBeginning d pre.reverse → Answers (· = none) (Same (IsBeginning 0)) fuel fuel
        (silent (codeUpTo fuel d pre)) (silent (codeUpTo (fuel + 1) d pre))
  | 0, _, _, _ => answers_zero _ _
  | fuel + 1, d, pre, h => by
    rw [silent_codeUpTo, silent_codeUpTo (fuel + 1)]
    apply answers_instruction.bind
    intro i hi
    split
    · rename_i hend
      exact (answers_pure ⟨rfl, hend.2 ▸ h⟩).mono (Nat.le_succ fuel)
    · rename_i hend
      refine (answers_codeUpTo fuel ?_).mono (Nat.le_succ fuel)
      rw [reverse_cons]
      exact h.concat hi (openings_add_depth i hend)

/-- The instructions of an expression are balanced and have the immediates they call for. -/
lemma settles_expression : Settles (· = none) (Same (IsBeginning 0)) expression expression :=
  settles_of_length (r := fun n => silent (codeUpTo (n + 1) 0 [])) fun n =>
    answers_codeUpTo (n + 1) isBeginning_nil

end Decoder

end WasmToC

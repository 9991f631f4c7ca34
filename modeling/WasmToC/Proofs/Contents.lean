import WasmToC.Proofs.Streams

/-!
# The contents of sections

The contents of a section are a number and as many entries. Each entry is added to the one part of
the module that the section is about, and nothing else changes. What is read does not depend on the
names of the sections that have been skipped, and a module that is built section by section is
coherent. All this is stated here once, for all sections.

Sections that are skipped are different, since they take all there is. But the declared length of a
section has to be filled, so that a section that is cut off is noticed all the same.

## Main definitions

* `Section.Extends` — what a section adds to a module.
* `Section.Counted`, `Section.Skips` — a decoder that starts with a number, and one
  that skips what it has not read.

## Main results

* `Section.counted_entries` — entries that are added one by one.
* `Section.settles_payload`, `Section.extends_of_payload` — the contents of a
  section.
* `Section.outcome_framedSection` — what becomes of a section with its length.
-/

namespace WasmToC

open List Reader

/-- A maximum, where there is one, is not below the initial size. -/
def Limits.IsOrdered (l : Limits) : Prop :=
  ∀ maximum, l.maximum = some maximum → l.initial ≤ maximum

namespace Module

/-- The module with other names of sections. -/
def named (m : Module) (names : List String) : Module := { m with customSections := names }

/-- The modules differ in the names of their sections at most. -/
def Renamed (m m' : Module) : Prop := ∃ names, m' = m.named names

lemma Renamed.refl (m : Module) : Renamed m m := ⟨m.customSections, rfl⟩

/-- The modules differ in the names of their sections at most, and are coherent if `C` holds. -/
def Kept (C : Prop) (m m' : Module) : Prop := Renamed m m' ∧ (C → Coherent m)

end Module

namespace Section

open Decoder
open WasmToC.Module (Renamed Kept)
open Reader (Same Any)

variable {α σ σ' : Type} {m m' : Module} {F : Option Nat → Prop} {C : Prop}

/-! ## Extensions -/

/-- The number at the start of a source, which says how many entries follow. -/
def announced (s : Source) : Nat :=
  match varuint 32 s with
  | .ok (count, _) => count
  | .error _ => 0

/-- What a section with an id, which announces `count` entries, makes of the module `m`. -/
inductive Extends (m : Module) (count : Nat) : (id : Nat) → Module → Prop
  /-- A name. -/
  | custom (name : String) :
      Extends m count 0 { m with customSections := m.customSections ++ [name] }
  /-- Function types. -/
  | types (ts : List FuncType) (hcount : ts.length = count) :
      Extends m count 1 { m with types := m.types ++ ts }
  /-- Imports, and the import counts that go with them. -/
  | imports (is : List Import) (hcount : is.length = count) :
      Extends m count 2 { m with imports := m.imports ++ is }.countImports
  /-- Declarations of functions. -/
  | signatures (ts : List Nat) (hcount : ts.length = count) :
      Extends m count 3 { m with signatures := m.signatures ++ ts }
  /-- Memories, of which there is then one at most. -/
  | memories (ls : List Limits) (hcount : ls.length = count) (hordered : ∀ l ∈ ls, l.IsOrdered)
      (hone : (m.memories ++ ls).length + m.importedMemories ≤ 1) :
      Extends m count 5 { m with memories := m.memories ++ ls }
  /-- Globals. -/
  | globals (gs : List Global) (hcount : gs.length = count) :
      Extends m count 6 { m with globals := m.globals ++ gs }
  /-- Exports. -/
  | exports (es : List Export) (hcount : es.length = count) :
      Extends m count 7 { m with exports := m.exports ++ es }
  /-- Element segments. -/
  | segments (ss : List Segment) (hcount : ss.length = count) :
      Extends m count 9 { m with segments := m.segments ++ ss }
  /-- Bodies, with the types that have been declared. -/
  | code (fs : List Function) (hcount : fs.length = count)
      (htypes : fs.map (·.typeIndex) = m.signatures) :
      Extends m count 10 { m with functions := m.functions ++ fs }
  /-- Nothing: the section is skipped. -/
  | other {id : Nat} (hid : id ∉ [0, 1, 2, 3, 5, 6, 7, 9, 10]) : Extends m count id m

/-! ## Counted entries -/

/-- A decoder that starts with a number, where `d'` does alike. What it answers behind the number
is related by `R`. -/
def Counted (F : Option Nat → Prop) (R : Nat → Module → Module → Prop) (d d' : Decoder Module) :
    Prop :=
  ∃ k k' : Nat → Decoder Module, (∀ count, Settles F (R count) (k count) (k' count)) ∧
    (silent d = silent do k (← varuint 32)) ∧ silent d' = silent do k' (← varuint 32)

/-- A counted list of entries, and what is done with them. -/
lemma settles_counted {α' : Type} {R : α → α' → Prop} {S : σ → σ' → Prop} {step : σ → Decoder σ}
    {step' : σ' → Decoder σ'} {k : Nat → σ → Decoder α} {k' : Nat → σ' → Decoder α'} {x : σ}
    {x' : σ'} (h : S x x') (hstep : ∀ x x', S x x' → Settles F S (step x) (step' x'))
    (hk : ∀ count x x', S x x' → Settles F R (k count x) (k' count x')) :
    Settles F R (do let count ← varuint 32; let x ← iterate step count x; k count x)
      (do let count ← varuint 32; let x ← iterate step' count x'; k' count x) := by
  apply (settles_of_reader (settles_varuint 32)).bind
  intro count _
  exact (settles_iterate (S := fun _ => S) (fun _ => hstep) count h).relate (hk count)

/-- **Entries that are added one by one**: a step that adds an entry to a list, repeated, adds as
many entries as it is repeated. -/
theorem counted_entries {S : Module → Module → Prop} {R : Nat → Module → Module → Prop}
    {step step' : Module → Decoder Module} {k k' : Nat → Module → Decoder Module}
    (state : List α → Module) (hstart : state [] = m) (h : S m m')
    (hstep : ∀ xs x', S (state xs) x' → Settles F
      (fun y y' => S y y' ∧ ∃ x, y = state (xs ++ [x])) (step (state xs)) (step' x'))
    (hk : ∀ xs x', S (state xs) x' → Settles F (R xs.length) (k xs.length (state xs))
      (k' xs.length x')) :
    Counted F R (do let count ← varuint 32; let m ← iterate step count m; k count m)
      (do let count ← varuint 32; let m ← iterate step' count m'; k' count m) := by
  refine ⟨_, _, fun count => ?_, rfl, rfl⟩
  let Entries (left : Nat) (y y' : Module) : Prop :=
    S y y' ∧ ∃ xs : List α, xs.length + left = count ∧ y = state xs
  refine (settles_iterate (S := Entries) ?_ count ⟨h, [], by simp, hstart.symm⟩).relate ?_
  · rintro left _ y' ⟨hy, xs, hlength, rfl⟩ n
    refine (hstep xs y' hy n).weaken (fun _ => id) ?_ (Nat.le_refl n)
    rintro _ z' ⟨hz, x, rfl⟩
    exact ⟨hz, xs ++ [x], by simp; omega, rfl⟩
  · rintro _ y' ⟨hy, xs, rfl, rfl⟩
    exact hk xs y' hy

/-! ## Sections -/

/-- Both modules are kept, and the first one has got the entries of a section. -/
abbrev Extended (C : Prop) (m : Module) (id count : Nat) (m1 m1' : Module) : Prop :=
  Kept C m1 m1' ∧ Extends m count id m1

lemma counted_types (h : Kept C m m') :
    Counted (· = none) (Extended C m 1) (types m) (types m') := by
  refine counted_entries (fun ts => { m with types := m.types ++ ts }) (by simp) h ?_
    fun ts _ h => settles_noted ⟨h, .types ts rfl⟩
  rintro ts _ ⟨⟨names, rfl⟩, hm⟩
  apply (settles_of_reader settles_typeForm).bind
  intro form _
  cases form with
  | func t => exact settles_pure ⟨⟨⟨names, rfl⟩, fun hc => (hm hc).addType t⟩, t, by simp⟩
  | value _ | funcref | emptyBlock => exact settles_fail rfl

/-- An imported function has a type that is there. -/
lemma settles_importDesc (m : Module) (moduleName field : String) :
    Settles (· = none) (Same fun desc => ∀ t, desc = .function t → t < m.types.length)
      (importDesc m moduleName field) (importDesc m moduleName field) := by
  apply (settles_of_reader (settles_varuint 7)).bind
  intro kind _
  split
  · apply (settles_of_reader (settles_varuint 32)).bind
    intro t _
    refine settles_ite (fun ht => settles_pure ⟨rfl, fun t' h => ?_⟩) fun _ => settles_fail trivial
    cases h
    exact ht
  · exact (settles_of_reader settles_table).bind fun _ _ => settles_pure ⟨rfl, by simp⟩
  · exact (settles_of_reader settles_limits).bind fun _ _ => settles_pure ⟨rfl, by simp⟩
  · exact (settles_of_reader settles_globalType).bind fun _ _ => settles_pure ⟨rfl, by simp⟩
  · exact settles_fail rfl

lemma counted_imports (h : Kept C m m') :
    Counted (· = none) (Extended C m 2) (imports m) (imports m') := by
  refine counted_entries (S := fun m m' => Renamed m m' ∧ (C → Coherent m.countImports))
    (fun is => { m with imports := m.imports ++ is }) (by simp) ?_ ?_ ?_
  · exact ⟨h.1, fun hc => (h.2 hc).countImports.symm ▸ h.2 hc⟩
  · rintro is _ ⟨⟨names, rfl⟩, hm⟩
    exact (settles_of_reader settles_name).bind fun moduleName _ =>
      (settles_of_reader settles_name).bind fun field _ =>
        (settles_importDesc _ moduleName field).bind fun desc hdesc =>
          settles_noted ⟨⟨⟨names, rfl⟩, fun hc => (hm hc).addImport hdesc⟩, _, by simp; rfl⟩
  · rintro is _ ⟨⟨names, rfl⟩, hm⟩
    exact settles_noted ⟨⟨⟨names, rfl⟩, hm⟩, .imports is rfl⟩

lemma counted_signatures (h : Kept C m m') :
    Counted (· = none) (Extended C m 3) (signatures m) (signatures m') := by
  refine counted_entries (fun ts => { m with signatures := m.signatures ++ ts }) (by simp) h ?_
    fun ts _ h => settles_noted ⟨h, .signatures ts rfl⟩
  rintro ts _ ⟨⟨names, rfl⟩, hm⟩
  apply (settles_of_reader (settles_varuint 32)).bind
  intro t _
  exact settles_ite (fun ht => settles_pure
    ⟨⟨⟨names, rfl⟩, fun hc => (hm hc).addSignature ht⟩, t, by simp⟩) fun _ => settles_fail trivial

/-- Each memory is compared with its own maximum, and their number with one. -/
lemma counted_memories (h : Kept C m m') :
    Counted (· = none) (Extended C m 5) (memories m) (memories m') := by
  refine counted_entries (fun ls : List { l : Limits // l.IsOrdered } =>
      { m with memories := m.memories ++ ls.map (·.1) }) (by simp) h ?_ ?_
  · rintro ls _ ⟨⟨names, rfl⟩, hm⟩
    apply (settles_of_reader settles_limits).bind
    intro l _
    cases hmaximum : l.maximum with
    | none =>
      exact settles_pure ⟨⟨⟨names, rfl⟩, fun hc => { hm hc with }⟩,
        ⟨l, fun _ h => by simp [hmaximum] at h⟩, by simp⟩
    | some maximum =>
      refine settles_ite (fun _ => settles_fail trivial) fun hle =>
        settles_pure ⟨⟨⟨names, rfl⟩, fun hc => { hm hc with }⟩, ⟨l, fun maximum' h => ?_⟩, by simp⟩
      rw [hmaximum, Option.some.injEq] at h
      omega
  · rintro ls _ ⟨⟨names, rfl⟩, hm⟩
    refine settles_ite (fun _ => settles_fail rfl) fun hone =>
      settles_noted ⟨⟨⟨names, rfl⟩, hm⟩, ?_⟩
    exact .memories _ (length_map _) (forall_mem_map.2 fun l _ => l.2) (Nat.le_of_not_lt hone)

/-- The instruction of an initializer is a constant, or the value of a global that is visible. -/
lemma settles_initializer (visible : Nat) :
    Settles (· = none) (Same fun i => i.isShaped = true ∧ i.initializes visible = true)
      (initializer visible) (initializer visible) := by
  apply settles_expression.bind
  intro code hcode
  split
  · rename_i i
    have hshaped : i.isShaped = true := hcode.shaped i mem_cons_self
    split
    · rename_i t hop
      exact settles_pure ⟨rfl, hshaped, by simp [Instruction.initializes, hop]⟩
    · rename_i hop
      split
      · rename_i k hk
        have himm : i.imm = .index k := by
          cases himm : i.imm <;> simp_all [Immediate.index?]
        exact settles_ite (fun hlt => settles_pure
          ⟨rfl, hshaped, by simp [Instruction.initializes, hop, himm, hlt]⟩)
          fun _ => settles_fail trivial
      · exact settles_fail trivial
    · exact settles_fail trivial
  · exact settles_fail trivial

lemma counted_globals (h : Kept C m m') :
    Counted (· = none) (Extended C m 6) (globals m) (globals m') := by
  refine counted_entries (fun gs => { m with globals := m.globals ++ gs }) (by simp) h ?_
    fun gs _ h => settles_noted ⟨h, .globals gs rfl⟩
  rintro gs _ ⟨⟨names, rfl⟩, hm⟩
  exact (settles_of_reader settles_globalType).bind fun type _ =>
    (settles_initializer _).bind fun init hinit => settles_pure
      ⟨⟨⟨names, rfl⟩, fun hc => (hm hc).addGlobal hinit.1 hinit.2⟩, _, by simp; rfl⟩

lemma counted_exports (h : Kept C m m') :
    Counted (· = none) (Extended C m 7) (exports m) (exports m') := by
  refine counted_entries (fun es => { m with exports := m.exports ++ es }) (by simp) h ?_
    fun es _ h => settles_noted ⟨h, .exports es rfl⟩
  rintro es _ ⟨⟨names, rfl⟩, hm⟩
  apply (settles_of_reader settles_name).bind
  intro field _
  apply (settles_of_reader (settles_varuint 7)).bind
  intro code _
  cases ExternKind.ofCode? code with
  | none => exact settles_fail rfl
  | some kind =>
    apply (settles_of_reader (settles_varuint 32)).bind
    intro index _
    refine settles_ite (fun htarget => settles_pure ⟨⟨⟨names, rfl⟩, fun hc =>
      { hm hc with exports := forall_mem_concat (hm hc).exports ⟨?_, ?_⟩ }⟩, _, by simp; rfl⟩)
      fun _ => settles_fail trivial
    · rintro rfl
      exact Module.lt_of_isSome_resolved htarget
    · rintro rfl
      exact Module.lt_of_isSome_resolved htarget

/-- The functions of a segment are there. -/
lemma settles_segmentFunctions (m : Module) :
    Settles (· = none) (Same fun fs => ∀ f ∈ fs, f < m.importedFunctions + m.signatures.length)
      (segmentFunctions m) (segmentFunctions m) := by
  refine settles_counted
    (S := Same fun fs => ∀ f ∈ fs, f < m.importedFunctions + m.signatures.length)
    ⟨rfl, by simp⟩ ?_ ?_
  · rintro found _ ⟨rfl, hfound⟩
    apply (settles_of_reader (settles_varuint 32)).bind
    intro index _
    exact settles_ite (fun hindex => settles_pure
      ⟨rfl, forall_mem_cons.2 ⟨Module.lt_of_isSome_resolved hindex, hfound⟩⟩)
      fun _ => settles_fail trivial
  · rintro count found _ ⟨rfl, hfound⟩
    exact settles_pure ⟨rfl, fun f hf => hfound f (mem_reverse.1 hf)⟩

lemma counted_segments (h : Kept C m m') :
    Counted (· = none) (Extended C m 9) (segments m) (segments m') := by
  refine counted_entries (fun ss => { m with segments := m.segments ++ ss }) (by simp) h ?_
    fun ss _ h => settles_noted ⟨h, .segments ss rfl⟩
  rintro ss _ ⟨⟨names, rfl⟩, hm⟩
  exact (settles_of_reader (settles_varuint 32)).bind fun table _ =>
    (settles_initializer _).bind fun off hoffset =>
      (settles_segmentFunctions _).bind fun fs hfs => settles_pure ⟨⟨⟨names, rfl⟩, fun hc =>
        { hm hc with segments := forall_mem_concat (hm hc).segments ⟨hoffset, hfs⟩ }⟩, _,
          by simp; rfl⟩

lemma settles_locals : Settles (· = none) (Same fun ts => ts.length ≤ 50000) locals locals := by
  refine settles_counted (S := Same fun found => found.length ≤ 50000) ⟨rfl, by simp⟩ ?_ ?_
  · rintro found _ ⟨rfl, hfound⟩
    apply (settles_of_reader (settles_varuint 32)).bind
    intro quantity _
    refine settles_ite (fun _ => settles_fail trivial) fun hfew =>
      (settles_of_reader settles_valueType).bind fun t _ => settles_pure ⟨rfl, ?_⟩
    show (List.replicate quantity t ++ found).length ≤ 50000
    rw [length_append, length_replicate]
    unfold maxLocals at hfew
    omega
  · rintro count found _ ⟨rfl, hfound⟩
    exact settles_pure ⟨rfl, Nat.le_trans (Nat.le_of_eq length_reverse) hfound⟩

/-- **A body settles whose function has been declared.** It has the type that is declared for it,
and is regular. What is not supported in it is said to be in this function. -/
theorem settles_sizedBody (hm : C → Coherent m) {pos : Nat} (h : pos < m.signatures.length) :
    Settles (· = some (m.importedFunctions + pos))
      (Same fun f => m.signatures[pos]? = some f.typeIndex ∧
        (C → f.typeIndex < m.types.length ∧ f.IsRegular))
      (sizedBody m pos) (sizedBody m pos) := by
  have hbody : Settles (· = none)
      (Same fun p : List ValueType × List Instruction => p.1.length ≤ 50000 ∧ IsBeginning 0 p.2)
      body body :=
    settles_locals.bind fun ts hts => settles_expression.bind fun code hcode =>
      settles_pure ⟨rfl, hts, hcode⟩
  apply (settles_of_reader (settles_varuint 32)).bind
  intro size _
  refine (hbody.inFunction (m.importedFunctions + pos)).within (fun a left h => if_pos h) ?_
  rintro ⟨declared, code⟩ ⟨hdeclared, hcode⟩
  apply (settles_note _ _).bind
  intro _ _
  split
  · rename_i t ht
    exact settles_pure ⟨rfl, ht, fun hc => ⟨(hm hc).signatures t (mem_of_getElem? ht),
      hdeclared, ⟨hcode.closes, hcode.opens.symm⟩, hcode.shaped⟩⟩
  · rename_i hnone
    exact absurd (List.getElem?_eq_none_iff.1 hnone) (Nat.not_le_of_lt h)

/-- The functions that the contents of a section may stand in. -/
def scope (id : Nat) (function : Option Nat) : Prop := function = none ∨ id = codeId

/-- **The bodies of a section** have the types declared so far, from the first one on: the position
is counted up with the bodies, and there are as many bodies as declared types. -/
theorem counted_code (h : Kept C m m') :
    Counted (scope codeId) (Extended C m 10) (code m) (code m') := by
  obtain ⟨⟨names, rfl⟩, hm⟩ := h
  refine ⟨_, _, fun count => ?_, rfl, rfl⟩
  refine settles_ite (fun _ => settles_fail trivial) fun hn => ?_
  have hn : count = m.signatures.length := by omega
  let Bodies (left : Nat) (p p' : Module × Nat) : Prop := Kept C p.1 p'.1 ∧ p.2 = p'.2 ∧
    ∃ fs : List Function, p = ({ m with functions := m.functions ++ fs }, fs.length) ∧
      fs.length + left = m.signatures.length ∧
      fs.map (·.typeIndex) = m.signatures.take fs.length
  refine Settles.relate (settles_iterate (S := Bodies) ?_ count
    ⟨⟨⟨names, rfl⟩, hm⟩, rfl, [], by simp, by simp [hn], rfl⟩) ?_
  · rintro left _ ⟨_, _⟩ ⟨⟨⟨names, rfl⟩, hm⟩, rfl, fs, rfl, hleft, htypes⟩
    have hbody : Settles (scope codeId) _ (sizedBody _ fs.length) (sizedBody _ fs.length) :=
      fun n => (settles_sizedBody hm (by simp; omega) n).weaken (fun _ _ => .inr rfl)
        (fun _ _ => id) (Nat.le_refl n)
    refine hbody.bind fun f hf => settles_pure ⟨⟨⟨names, rfl⟩, fun hc => ?_⟩, rfl, fs ++ [f], ?_⟩
    · exact { hm hc with functions := forall_mem_concat (hm hc).functions (hf.2 hc) }
    · refine ⟨by simp, by simp; omega, ?_⟩
      rw [map_append, htypes, length_append, length_singleton, take_add_one,
        show m.signatures[fs.length]? = _ from hf.1]
      rfl
  · rintro _ p' ⟨hkept, -, fs, rfl, hlength, htypes⟩
    rw [Nat.add_zero] at hlength
    refine settles_pure ⟨hkept, .code fs (hlength.trans hn.symm) ?_⟩
    rw [htypes, hlength, take_length]

/-- Decoders that skip what they have not read. -/
def Skips (F : Option Nat → Prop) (R : Module → Module → Prop) (d d' : Decoder Module) : Prop :=
  ∃ r r' : Decoder Module, Settles F R r r' ∧
    (silent d = silent r >>= fun a => skip >>= fun _ => pure a) ∧
    silent d' = silent r' >>= fun a => skip >>= fun _ => pure a

/-- A named section that is skipped. -/
lemma silent_custom (m : Module) : silent (custom m) =
    silent (do return { m with customSections := m.customSections ++ [← name] }) >>=
      fun a => skip >>= fun _ => pure a := by
  unfold custom
  rw [silent_bind, silent_bind]
  funext s
  change Except.bind (name s) _ = Except.bind (Except.bind (name s) _) _
  cases name s with
  | error f => rfl
  | ok p =>
    obtain ⟨name, rest, e⟩ := p
    cases e <;> rfl

lemma silent_other (id : Nat) (m : Module) : silent (other id m) =
    silent (pure m) >>= fun a => skip >>= fun _ => pure a := by
  funext s
  obtain ⟨rest, e⟩ := s
  cases e <;> rfl

/-- **The contents of a section** start with a number, or skip what they have not read. -/
theorem counted_payload (id : Nat) (h : Kept C m m') :
    Counted (scope id) (Extended C m id) (payload id m) (payload id m') ∨
      Skips (scope id) (fun m1 m1' => Kept C m1 m1' ∧ ∀ n, Extends m n id m1)
        (payload id m) (payload id m') := by
  have hnoted : ∀ {R : Nat → Module → Module → Prop} {d d' : Decoder Module},
      Counted (· = none) R d d' → Counted (scope id) R d d' := by
    rintro R d d' ⟨k, k', hk, hd, hd'⟩
    exact ⟨k, k', fun count n => (hk count n).weaken (fun _ => .inl) (fun _ _ h => h)
      (Nat.le_refl n), hd, hd'⟩
  unfold payload
  split
  · obtain ⟨⟨names, rfl⟩, hm⟩ := h
    refine .inr ⟨_, _, ?_, silent_custom m, silent_custom (m.named names)⟩
    exact (settles_of_reader settles_name).bind fun name _ =>
      settles_pure ⟨⟨⟨_, rfl⟩, fun hc => { hm hc with }⟩, fun _ => .custom name⟩
  · exact .inl (hnoted (counted_types h))
  · exact .inl (hnoted (counted_imports h))
  · exact .inl (hnoted (counted_signatures h))
  · exact .inl (hnoted (counted_memories h))
  · exact .inl (hnoted (counted_globals h))
  · exact .inl (hnoted (counted_exports h))
  · exact .inl (hnoted (counted_segments h))
  · exact .inl (counted_code h)
  · rename_i hcustom htypes himports hsignatures hmemories hglobals hexports hsegments hcode
    refine .inr ⟨_, _, settles_pure ⟨h, fun _ => .other ?_⟩, silent_other _ m, silent_other _ m'⟩
    simp only [mem_cons, not_mem_nil, or_false, not_or]
    exact ⟨hcustom, htypes, himports, hsignatures, hmemories, hglobals, hexports, hsegments, hcode⟩

/-- The contents of a section settle, or skip what they have not read. -/
lemma settles_payload (id : Nat) (h : Kept C m m') :
    Settles (scope id) (Kept C) (payload id m) (payload id m') ∨
      Skips (scope id) (Kept C) (payload id m) (payload id m') := by
  obtain ⟨k, k', hk, hd, hd'⟩ | ⟨r, r', hr, hd, hd'⟩ := counted_payload id h
  · refine .inl fun n => ?_
    rw [hd, hd']
    refine (settles_of_reader (settles_varuint 32)).bind (fun count _ n => ?_) n
    exact (hk count n).weaken (fun _ h => h) (fun _ _ => And.left) (Nat.le_refl n)
  · exact .inr ⟨r, r', fun n => (hr n).weaken (fun _ h => h) (fun _ _ => And.left)
      (Nat.le_refl n), hd, hd'⟩

/-- **What a section adds**: as many entries as it announces, to the part of the module that it is
about. -/
theorem extends_of_payload {id : Nat} {s s' : Source} (h : silent (payload id m) s = .ok (m', s')) :
    Extends m (announced s) id m' := by
  obtain ⟨k, k', hk, hd, -⟩ | ⟨r, r', hr, hd, -⟩ := counted_payload (C := False) id
    (⟨.refl m, False.elim⟩ : Kept False m m)
  · rw [hd, silent_bind] at h
    obtain ⟨count, s1, hcount, hrest⟩ := bind_eq_ok h
    have hannounced : announced s = count := by
      unfold announced
      rw [show varuint 32 s = .ok (count, s1) from hcount]
    obtain ⟨_, -, -, hextends⟩ := (hk count _ s1 (Nat.lt_succ_self _)).1.of_ok hrest
    exact hannounced ▸ hextends
  · rw [hd] at h
    obtain ⟨a, s1, hread, hskip⟩ := bind_eq_ok h
    obtain ⟨_, _, -, hpure⟩ := bind_eq_ok hskip
    cases hpure
    obtain ⟨_, -, -, hextends⟩ := (hr _ s (Nat.lt_succ_self _)).1.of_ok hread
    exact hextends _

/-! ## Framed sections -/

/-- What becomes of the contents of a section. -/
lemma outcome_payload (id : Nat) (m : Module) (s : Source) :
    (∃ p, silent (payload id m) s = .ok p) ∨
    ∃ e : Error, silent (payload id m) s = .error (.error e) ∧
      (e.IsRevisable (scope id) s.ending ∨ e.IsIn (scope id) ∧ ∀ rest ending,
        silent (payload id m) ⟨s.rest ++ rest, ending⟩ = .error (.error e)) := by
  have hkept : Kept False m m := ⟨.refl m, False.elim⟩
  obtain hsettles | ⟨r, r', hsettles, hskips, -⟩ := settles_payload id hkept
  · obtain ⟨bytes, rest, a, hs, hreads⟩ | herror := outcome_of_answers hsettles s
    · obtain ⟨_, ending⟩ := s
      obtain rfl := hs
      exact .inl ⟨_, hreads rest ending⟩
    · exact .inr herror
  · rw [hskips]
    obtain ⟨bytes, rest, a, hs, hreads⟩ | ⟨e, herror, he⟩ := outcome_of_answers hsettles s
    · obtain ⟨_, ending⟩ := s
      obtain rfl := hs
      rw [bind_of_ok (hreads rest ending)]
      cases ending with
      | clean => exact .inl ⟨_, rfl⟩
      | broken f => exact .inr ⟨.io f, rfl, .inl nofun⟩
    · refine .inr ⟨e, bind_of_error herror _, he.imp_right fun he => ⟨he.1, ?_⟩⟩
      exact fun rest ending => bind_of_error (he.2 rest ending) _

/-- The contents of a section are read alike, whatever the names of sections are. -/
lemma alike_payload (id : Nat) (h : Kept C m m') (s : Source) :
    Alike (Kept C) (silent (payload id m) s) (silent (payload id m') s) := by
  obtain hsettles | ⟨r, r', hsettles, hd, hd'⟩ := settles_payload id h
  · exact (hsettles _ s (Nat.lt_succ_self _)).1
  · rw [hd, hd']
    refine (hsettles _ s (Nat.lt_succ_self _)).1.bind fun a a' s ha => ?_
    obtain ⟨rest, e⟩ := s
    cases e with
    | clean => exact ⟨a', rfl, ha⟩
    | broken f => rfl

/-- An input that ends inside a section leaves this section corrupt. -/
lemma sectionError_of_isRevisable {id : Nat} {e : Error} (h : e.IsRevisable (scope id) .clean) :
    ∃ why, sectionError id e = .corruptSection id why := by
  cases e with
  | io f => exact ⟨.truncated, if_pos (h rfl)⟩
  | corruptSection found why =>
    obtain ⟨rfl, index, hnone | rfl⟩ := h
    · cases hnone
    · exact ⟨why, rfl⟩
  | badHeader _ | malformed _ | unsupported _ _ _ | invalid _ => exact h.elim

/-- An error that says what is wrong is kept. -/
lemma sectionError_of_isIn {e : Error} (h : e.IsIn F) (id : Nat) : sectionError id e = e := by
  cases e with
  | io _ => exact h.elim
  | badHeader _ | malformed _ | unsupported _ _ _ | invalid _ | corruptSection _ _ => rfl

/-- **What becomes of a section with its length.** If it is not read, then the section is corrupt,
or it is refused whatever comes behind. -/
theorem outcome_framedSection (id : Nat) (m : Module) (s : Source) :
    (∃ p, silent (framedSection id m) s = .ok p) ∨
    ∃ e : Error, silent (framedSection id m) s = .error (.error e) ∧
      ((s.ending = .clean → ∃ why, e = .corruptSection id why) ∨ e.IsIn (scope id) ∧
        ∀ rest ending, silent (framedSection id m) ⟨s.rest ++ rest, ending⟩ =
          .error (.error e)) := by
  obtain ⟨input, ending⟩ := s
  have hlen : Settles (scope id) (· < 2 ^ 32) (varuint 32) :=
    settles_varuint 32
  obtain ⟨size, rest, length, hs, hreads⟩ | ⟨e, herror, he⟩ :=
    outcome_of_answers hlen ⟨input, ending⟩
  · obtain rfl : input = size ++ rest := hs
    have hbehind : ∀ rest ending, silent (framedSection id m) ⟨size ++ rest, ending⟩ = _ :=
      fun rest ending => (((decodes_of_reads hreads).mapError (sectionError id)).outcome_bind _ rest
        ending).trans (silent_within_bind ((payload id m).mapError (sectionError id)) _ length _)
    simp only [append_assoc, hbehind]
    obtain ⟨⟨m', inner⟩, hok⟩ | ⟨e, herror, he⟩ :=
      outcome_payload id m ((⟨rest, ending⟩ : Source).region length)
    · rw [mapError_of_ok _ hok]
      generalize hleft' : (⟨rest, ending⟩ : Source).unread length inner = left
      by_cases hleft : left ≠ 0
      · refine .inr ⟨.corruptSection id (.unread left length), ?_, .inl fun _ => ⟨_, rfl⟩⟩
        simp only [Except.bind, hleft', if_pos hleft]
        rfl
      · refine .inl ⟨(m', (⟨rest, ending⟩ : Source).leave length inner), ?_⟩
        simp only [Except.bind, hleft', if_neg hleft]
        rfl
    · rw [mapError_of_error _ herror]
      refine .inr ⟨sectionError id e, rfl, ?_⟩
      obtain hrevise | ⟨hin, hsame⟩ := he
      · refine .inl fun hclean => ?_
        obtain rfl : ending = .clean := hclean
        have hclean : ((⟨rest, .clean⟩ : Source).region length).ending = .clean := ite_self _
        exact sectionError_of_isRevisable (hclean ▸ hrevise)
      · rw [sectionError_of_isIn hin]
        refine .inr ⟨hin, fun more ending' => ?_⟩
        obtain ⟨rest', ending'', hregion⟩ := exists_region_append rest more ending' length
        have hrun : silent (payload id m) ⟨rest.take length ++ rest', ending''⟩ =
            .error (.error e) := hsame rest' ending''
        rw [hregion, mapError_of_error _ hrun, sectionError_of_isIn hin]
        rfl
  · have hfails : ∀ s, varuint 32 s = .error (.error e) →
        silent (framedSection id m) s = .error (.error (sectionError id e)) := by
      intro s h
      have hmapped : silent ((liftM (varuint 32) : Decoder Nat).mapError (sectionError id)) s =
            .error (.error (sectionError id e)) := mapError_of_error _ h
      unfold framedSection
      rw [silent_bind]
      exact bind_of_error hmapped _
    refine .inr ⟨sectionError id e, hfails _ herror, ?_⟩
    obtain hrevise | ⟨hin, hsame⟩ := he
    · refine .inl fun hclean => ?_
      obtain rfl : ending = .clean := hclean
      exact sectionError_of_isRevisable hrevise
    · refine .inr ⟨(sectionError_of_isIn hin id).symm ▸ hin, fun rest ending => ?_⟩
      exact hfails _ (hsame rest ending)

end Section

end WasmToC

import WasmToC.Proofs.Names

/-!
# Symbols that never clash

Everything that a module defines takes a symbol that nothing else has: neither another definition of
any kind nor an import. Turning names into identifiers is many-to-one, and an export may spell a
name that another definition would get by itself, so this rests on the order in which symbols are
taken and not on the names that are asked for.

## Main definitions

* `C.IsSymbol` — an identifier with an underscore.
* `C.Entity`, `C.entities` — what has a symbol at file scope.

## Main results

* `C.Symbols.nodup_own` — symbols of definitions are different and are no symbols of imports.
* `C.symbols_distinct` — no two names of a unit clash.
-/

namespace WasmToC.C

open List Option Allotment

variable {i : Nat} {name : String} {c : Char} {letter : String} {k n : Nat} {f : Nat → String}
  {found : List Nat} {names : List String}

/-! ## Identifiers -/

/-- Whether a name is a letter or underscore followed by letters, digits and underscores. -/
def isIdentifier (name : String) : Bool :=
  match name.toList with
  | [] => false
  | c :: rest => (c.isAlpha || c = '_') && rest.all isWordChar

/-- Digits belong to words. -/
lemma isWordChar_of_mem_toDigits (h : c ∈ Nat.toDigits 10 i) : isWordChar c = true := by
  have := Nat.isDigit_of_mem_toDigits (by decide) (by decide) h
  simp [isWordChar, Char.isAlphanum, this]

lemma startsIdentifier (hword : isWordChar c = true) (hdigit : c.isDigit = false) :
    (c.isAlpha || c = '_') = true := by
  simpa [isWordChar, Char.isAlphanum, hdigit] using hword

/-- What is made an identifier is one. -/
lemma isIdentifier_identifier (name : String) : isIdentifier (identifier name) = true := by
  have hword : ∀ c ∈ name.toList.map (fun c => if isWordChar c then c else '_'),
      isWordChar c = true := by
    intro c hc
    obtain ⟨d, -, rfl⟩ := mem_map.mp hc
    split
    · assumption
    · decide
  unfold identifier
  generalize name.toList.map (fun c => if isWordChar c then c else '_') = word at hword ⊢
  cases word with
  | nil => decide
  | cons c rest =>
    rw [forall_mem_cons] at hword
    cases hdigit : c.isDigit with
    | true =>
      have hr : rest.all isWordChar = true := all_eq_true.mpr hword.2
      simp [isIdentifier, hdigit, hword.1, hr]
    | false =>
      simp only [hdigit, Bool.false_eq_true, if_false, isIdentifier, String.toList_ofList]
      rw [startsIdentifier hword.1 hdigit, all_eq_true.mpr hword.2]
      rfl

/-- An identifier goes on with word characters. -/
lemma isIdentifier_append {suffix : String} (h : isIdentifier name = true)
    (hs : suffix.toList.all isWordChar = true) : isIdentifier (name ++ suffix) = true := by
  unfold isIdentifier at h ⊢
  rw [String.toList_append]
  cases hname : name.toList with
  | nil => simp [hname] at h
  | cons c rest =>
    rw [hname] at h
    simp only [Bool.and_eq_true, cons_append, all_append] at h ⊢
    exact ⟨h.1, h.2, hs⟩

/-- A name with a suffix is an identifier if the name is. -/
lemma isIdentifier_suffixed (h : isIdentifier name = true) (k : Nat) :
    isIdentifier (suffixed name k) = true := by
  have heq : suffixed name k = name ++ ("_" ++ toString k) := by
    simp [suffixed, toString, String.append_assoc]
  rw [heq]
  refine isIdentifier_append h (all_eq_true.mpr fun c hc => ?_)
  simp only [toString, String.toList_append, Nat.toList_repr, mem_append] at hc
  rcases hc with hc | hc
  · rw [show c = '_' by simpa using hc]
    decide
  · exact isWordChar_of_mem_toDigits hc

/-- A stem is an identifier. -/
lemma isIdentifier_stem (o : Options) : isIdentifier (stem o) = true := by
  unfold stem
  split <;> exact isIdentifier_identifier _

/-- A letter and a number behind the stem make an identifier. -/
lemma isIdentifier_lettered (o : Options) (hletter : letter.toList.all isWordChar = true)
    (i : Nat) : isIdentifier (stem o ++ "_" ++ letter ++ toString i) = true := by
  have hstem := isIdentifier_append (isIdentifier_stem o)
    (show "_".toList.all isWordChar = true by decide)
  refine isIdentifier_append (isIdentifier_append hstem hletter) (all_eq_true.mpr ?_)
  intro c hc
  simp only [toString, Nat.toList_repr] at hc
  exact isWordChar_of_mem_toDigits hc

/-- So is a stem with a number. -/
lemma isIdentifier_numbered (o : Options) (letter : String)
    (hletter : letter.toList.all isWordChar = true) (i : Nat) :
    isIdentifier (stem o ++ ("_" ++ letter) ++ toString i) = true := by
  rw [← String.append_assoc]
  exact isIdentifier_lettered o hletter i

/-- Whether a name is an identifier with an underscore, as all names at file scope are. -/
def IsSymbol (name : String) : Prop := isIdentifier name = true ∧ '_' ∈ name.toList

/-- Imports have symbols. -/
lemma isSymbol_importSymbol (i : Import) : IsSymbol (importSymbol i) :=
  ⟨isIdentifier_identifier _, underscore_mem_importSymbol i⟩

/-- The name that a definition of the module asks for is a symbol. -/
lemma isSymbol_wantedSymbol (m : Module) (o : Options) (kind : ExternKind)
    (hletter : letter.toList.all isWordChar = true) (i : Nat) :
    IsSymbol (wantedSymbol m (stem o) kind letter i) := by
  refine ⟨?_, underscore_mem_wantedSymbol m _ kind letter i⟩
  unfold wantedSymbol
  split
  · exact isIdentifier_identifier _
  · exact isIdentifier_lettered o hletter i

/-! ## Names of labels -/

/-- Labels have the letter `L`. -/
lemma toList_labelName (n : Nat) : (labelName n).toList = 'L' :: Nat.toDigits 10 n := by
  simp [labelName, toString, Nat.toList_repr]

/-- Different labels have different names. -/
lemma labelName_inj {j : Nat} (h : labelName i = labelName j) : i = j :=
  (letter_number_inj (toList_labelName _) (toList_labelName _) h).2

/-- A local and a label have different names. -/
lemma localName_ne_labelName (params i j : Nat) : localName params i ≠ labelName j := by
  intro h
  have hl := (letter_number_inj (toList_localName _ _) (toList_labelName _) h).1
  split at hl <;> exact absurd hl (by decide)

/-- A temporary and a label have different names. -/
lemma tempName_ne_labelName (i j : Nat) : tempName i ≠ labelName j := fun h =>
  absurd (letter_number_inj (toList_tempName _) (toList_labelName _) h).1 (by decide)

/-- A label has no underscore. -/
lemma underscore_notMem_labelName (n : Nat) : '_' ∉ (labelName n).toList :=
  underscore_notMem_numbered (toList_labelName _) (by decide)

/-! ## Symbols and names inside functions -/

namespace IsSymbol

variable {x : String} (h : IsSymbol x)
include h

/-- A symbol is no local. -/
lemma ne_localName (params i : Nat) : x ≠ localName params i :=
  fun hx => underscore_notMem_localName params i (hx ▸ h.2)

/-- It is no temporary. -/
lemma ne_tempName (i : Nat) : x ≠ tempName i :=
  fun hx => underscore_notMem_tempName i (hx ▸ h.2)

/-- It is no label. -/
lemma ne_labelName (n : Nat) : x ≠ labelName n :=
  fun hx => underscore_notMem_labelName n (hx ▸ h.2)

/-- It is no local array. -/
lemma ne_elements : x ≠ "elements" := by
  rintro rfl
  exact absurd h.2 (by decide)

end IsSymbol

/-! ## What is given out -/

/-- A suffix leaves a symbol. -/
lemma isSymbol_variant {x : String} (h : Variant name x) (hname : IsSymbol name) : IsSymbol x := by
  refine ⟨?_, underscore_mem_variant h hname.2⟩
  rcases h with rfl | ⟨k, rfl⟩
  · exact hname.1
  · exact isIdentifier_suffixed hname.1 k

/-- The names of what does not keep its own, where `f` gives all names. -/
def chosen (fixed? : Nat → Option String) (f : Nat → String) (is : List Nat) : List String :=
  (is.filter fun i => (fixed? i).isNone).map f

namespace Allotment.Gives

variable {x : String} {fixed? : Nat → Option String} {wanted : Nat → String} {is : List Nat}
  {taken post : List String} (h : Gives fixed? wanted is taken names post)
  (hf : is.map f = names)
include h hf

/-- Names that were chosen are different, were free, and are taken afterwards. -/
lemma chosen_spec : (C.chosen fixed? f is).Nodup ∧
    ∀ x ∈ C.chosen fixed? f is, x ∉ taken ∧ x ∈ post := by
  induction h with
  | nil => simp [C.chosen]
  | kept hi _ ih =>
    rw [C.chosen, filter_cons_of_neg (by simp [hi])]
    exact ih (tail_eq_of_cons_eq hf)
  | chosen hi _ hfree hr ih =>
    obtain ⟨hnodup, hothers⟩ := ih (tail_eq_of_cons_eq hf)
    rw [C.chosen, filter_cons_of_pos (by simp [hi]), map_cons, head_eq_of_cons_eq hf, nodup_cons,
      forall_mem_cons]
    exact ⟨⟨fun hmem => (hothers _ hmem).1 mem_cons_self, hnodup⟩, ⟨hfree, hr.subset mem_cons_self⟩,
      fun x hx => ⟨not_mem_of_not_mem_cons (hothers x hx).1, (hothers x hx).2⟩⟩

/-- What keeps its name keeps it. -/
lemma eq_of_kept (hmem : i ∈ is) (hi : fixed? i = some x) : f i = x := by
  induction h with
  | nil => cases hmem
  | kept hy _ ih =>
    rcases mem_cons.mp hmem with rfl | hmem
    · exact (head_eq_of_cons_eq hf).trans (Option.some.inj (hy.symm.trans hi))
    · exact ih (tail_eq_of_cons_eq hf) hmem
  | chosen hy _ _ _ ih =>
    rcases mem_cons.mp hmem with rfl | hmem
    · cases hy.symm.trans hi
    · exact ih (tail_eq_of_cons_eq hf) hmem

end Allotment.Gives

lemma map_getD_range (names : List String) (fallback : Nat → String) :
    (List.range names.length).map (fun i => names[i]?.getD (fallback i)) = names := by
  refine ext_getElem (by simp) fun i h1 h2 => ?_
  simp [h2]

/-! ## Everything that has a symbol -/

/-- What has a symbol at file scope. -/
inductive Entity where
  /-- The initializer. -/
  | initializer
  /-- A function, by index. -/
  | function (i : Nat)
  /-- A global, by index. -/
  | global (i : Nat)
  /-- A table, by index. -/
  | table (i : Nat)
  deriving DecidableEq, Repr

namespace Entity

/-- The symbol of an entity. -/
def symbol (s : Symbols) : Entity → String
  | initializer => s.initializer
  | function i => s.function i
  | global i => s.global i
  | table i => s.table i

/-- The import that an index stands for, if it stands for one. -/
def ofResolved : Option Resolved → Option Import
  | some (.imported i) => some i
  | _ => none

/-- The import that an entity stands for, if it stands for one. -/
def import? (m : Module) : Entity → Option Import
  | initializer => none
  | function i => ofResolved (m.function? i)
  | global i => ofResolved (m.global? i)
  | table i => m.tableImport? i

end Entity

/-- Everything in a module that has a symbol. -/
def entities (m : Module) : List Entity :=
  .initializer :: ((List.range (m.importedFunctions + m.signatures.length)).map .function ++
      ((List.range (m.importedGlobals + m.globals.length)).map .global ++
        (tableIndices m).map .table))

/-- What an index stands for keeps the symbol of its import. -/
lemma resolvedSymbol?_eq (r : Option Resolved) :
    resolvedSymbol? r = (Entity.ofResolved r).map importSymbol := by
  match r with
  | none => rfl
  | some (.imported _) => rfl
  | some (.own _) => rfl

lemma isSymbol_of_import {i : Option Import} {x : String} (h : i.map importSymbol = some x) :
    IsSymbol x := by
  obtain ⟨i, -, rfl⟩ := map_eq_some_iff.mp h
  exact isSymbol_importSymbol i

/-- The symbols of what does not stand for an import. -/
lemma map_symbol_filter {is : List Nat} {e : Nat → Entity} {s : Symbols} {p : Entity → Bool}
    {fixed? : Nat → Option String} (hp : ∀ i, p (e i) = (fixed? i).isNone) :
    ((is.map e).filter p).map (Entity.symbol s) = chosen fixed? (fun i => (e i).symbol s) is := by
  have hcomp : p ∘ e = fun i => (fixed? i).isNone := funext hp
  rw [List.filter_map, List.map_map, chosen, hcomp]
  rfl

/-- The symbols that the module gives out, in order. -/
lemma map_symbol_own (m : Module) (s : Symbols) :
    ((entities m).filter fun e => (e.import? m).isNone).map (Entity.symbol s) = s.initializer ::
        (chosen (fun i => resolvedSymbol? (m.function? i)) s.function
            (List.range (m.importedFunctions + m.signatures.length)) ++
          (chosen (fun i => resolvedSymbol? (m.global? i)) s.global
              (List.range (m.importedGlobals + m.globals.length)) ++
            chosen (fun i => (m.tableImport? i).map importSymbol) s.table (tableIndices m))) := by
  rw [entities, filter_cons_of_pos rfl, filter_append, filter_append, map_cons, map_append,
    map_append]
  congr 1
  congr 1
  · exact map_symbol_filter fun i => by simp [resolvedSymbol?_eq, Entity.import?]
  congr 1
  · exact map_symbol_filter fun i => by simp [resolvedSymbol?_eq, Entity.import?]
  · exact map_symbol_filter fun i => by simp [Entity.import?]

namespace Symbols.Allotted

variable {m : Module} {o : Options} {s : Symbols} (h : Allotted m o s) {e : Entity}
include h

/-- All functions have their symbols. -/
lemma map_function :
    (List.range (m.importedFunctions + m.signatures.length)).map s.function = s.functions := by
  rw [← h.length_functions]
  exact map_getD_range _ _

/-- All globals have theirs. -/
lemma map_global :
    (List.range (m.importedGlobals + m.globals.length)).map s.global = s.globals := by
  rw [← h.length_globals]
  exact map_getD_range _ _

/-- **Symbols of definitions are different and are no symbols of imports.**

**Proof sketch.** Each of the four kinds takes names that are free when its turn comes, and whatever
was taken before stays taken. -/
theorem nodup_own :
    (((entities m).filter fun e => (e.import? m).isNone).map (Entity.symbol s)).Nodup ∧
      ∀ x ∈ ((entities m).filter fun e => (e.import? m).isNone).map (Entity.symbol s),
        x ∉ m.imports.map importSymbol := by
  have hmap := h.map_function
  have hmap' := h.map_global
  obtain ⟨-, -, hinit, hfunctions, hglobals, htables⟩ := h
  rw [map_symbol_own]
  generalize hF : chosen (fun i => resolvedSymbol? (m.function? i)) _ _ = fs
  generalize hG : chosen (fun i => resolvedSymbol? (m.global? i)) _ _ = gs
  generalize hT : chosen (fun i => (m.tableImport? i).map importSymbol) _ _ = ts
  obtain ⟨hfs, hfs'⟩ := hF ▸ hfunctions.chosen_spec hmap
  obtain ⟨hgs, hgs'⟩ := hG ▸ hglobals.chosen_spec hmap'
  obtain ⟨hts, hts'⟩ := hT ▸ htables.chosen_spec rfl
  have hfree : ∀ x ∈ fs ++ (gs ++ ts), x ∉ s.initializer :: m.imports.map importSymbol := by
    intro x hx hmem
    simp only [mem_append] at hx
    rcases hx with hx | hx | hx
    · exact (hfs' x hx).1 hmem
    · exact (hgs' x hx).1 (hfunctions.subset hmem)
    · exact (hts' x hx).1 (hglobals.subset (hfunctions.subset hmem))
  constructor
  · refine nodup_cons.mpr ⟨fun h => hfree _ h mem_cons_self, ?_⟩
    refine nodup_append.mpr ⟨hfs, nodup_append.mpr ⟨hgs, hts, ?_⟩, ?_⟩
    · rintro x hx _ hx' rfl
      exact (hts' x hx').1 (hgs' x hx).2
    · rintro x hx _ hx' rfl
      rcases mem_append.mp hx' with hx' | hx'
      · exact (hgs' x hx').1 (hfs' x hx).2
      · exact (hts' x hx').1 (hglobals.subset (hfs' x hx).2)
  · intro x hx
    rcases mem_cons.mp hx with rfl | hx
    · exact hinit
    · exact fun h => hfree x hx (mem_cons_of_mem _ h)

/-- What stands for an import has its symbol. -/
lemma symbol_eq_importSymbol (he : e ∈ entities m) {i : Import} (hi : e.import? m = some i) :
    e.symbol s = importSymbol i := by
  have hmap := h.map_function
  have hmap' := h.map_global
  obtain ⟨-, -, -, hfunctions, hglobals, htables⟩ := h
  simp only [entities, mem_cons, mem_append, List.mem_map] at he
  obtain rfl | ⟨k, hk, rfl⟩ | ⟨k, hk, rfl⟩ | ⟨k, hk, rfl⟩ := he
  · cases hi
  · exact hfunctions.eq_of_kept hmap hk (by simpa [resolvedSymbol?_eq] using ⟨i, hi, rfl⟩)
  · exact hglobals.eq_of_kept hmap' hk (by simpa [resolvedSymbol?_eq] using ⟨i, hi, rfl⟩)
  · exact htables.eq_of_kept rfl hk (by simpa using ⟨i, hi, rfl⟩)

lemma isSymbol_functions : ∀ x ∈ s.functions, IsSymbol x := by
  obtain ⟨-, -, -, hfunctions, -⟩ := h
  exact hfunctions.of_mem (fun _ _ hx => isSymbol_of_import (resolvedSymbol?_eq _ ▸ hx))
    fun i _ hx => isSymbol_variant hx (isSymbol_wantedSymbol m o .function (by decide) i)

lemma isSymbol_globals : ∀ x ∈ s.globals, IsSymbol x := by
  obtain ⟨-, -, -, -, hglobals, -⟩ := h
  exact hglobals.of_mem (fun _ _ hx => isSymbol_of_import (resolvedSymbol?_eq _ ▸ hx))
    fun i _ hx => isSymbol_variant hx (isSymbol_wantedSymbol m o .global (by decide) i)

/-- Everything at file scope has a symbol. -/
lemma isSymbol_symbol (he : e ∈ entities m) : IsSymbol (e.symbol s) := by
  have hfunctions := h.isSymbol_functions
  have hglobals := h.isSymbol_globals
  rw [← h.map_function] at hfunctions
  rw [← h.map_global] at hglobals
  obtain ⟨-, hinit, -, -, -, htables⟩ := h
  simp only [entities, mem_cons, mem_append, List.mem_map] at he
  obtain rfl | ⟨k, hk, rfl⟩ | ⟨k, hk, rfl⟩ | ⟨k, hk, rfl⟩ := he
  · exact isSymbol_variant hinit ⟨isIdentifier_append (isIdentifier_stem o) (by decide), by simp⟩
  · exact hfunctions _ (mem_map_of_mem hk)
  · exact hglobals _ (mem_map_of_mem hk)
  · exact htables.of_mem (fun _ _ => isSymbol_of_import)
      (fun i _ hx => isSymbol_variant hx (isSymbol_wantedSymbol m o .table (by decide) i)) _
      (mem_map_of_mem hk)

/-- A function is an identifier. -/
lemma isIdentifier_function (i : Nat) : isIdentifier (s.function i) = true := by
  refine of_getD (fun x hx => (h.isSymbol_functions x hx).1) ?_ i
  obtain ⟨hstem, -⟩ := h
  rw [hstem]
  exact isIdentifier_numbered o "F" (by decide) i

/-- So is a global. -/
lemma isIdentifier_global (i : Nat) : isIdentifier (s.global i) = true := by
  refine of_getD (fun x hx => (h.isSymbol_globals x hx).1) ?_ i
  obtain ⟨hstem, -⟩ := h
  rw [hstem]
  exact isIdentifier_numbered o "G" (by decide) i

end Symbols.Allotted

/-- **No two names of a unit clash.** Take a module whose index spaces have indices of 32 bits.
Symbols are allotted if there are fewer names than suffixes of 32 bits. Where they are, what stands
for an import has the symbol of the import. Symbols of everything else are different from each
other and from the symbols of all imports. Every symbol is an identifier with an underscore, and so
is none of the names inside functions (`elements` is the array in the initializer), which in turn
are different from each other.

**Proof sketch.** Whatever is given out was free, and is taken from then on; this holds of one name,
by the search for its suffix, and of all names of a kind by induction on their indices. Then the
four kinds are put together in the order in which they take their names. -/
theorem symbols_distinct (m : Module) (o : Options) (hfits : Symbols.Fits m) :
    (nameCount m < 2 ^ 31 → ∃ s w, Symbols.allot m o = .ok (s, w)) ∧
    (∀ s w, Symbols.allot m o = .ok (s, w) →
      (∀ e ∈ entities m, ∀ i, e.import? m = some i → e.symbol s = importSymbol i) ∧
      (((entities m).filter fun e => (e.import? m).isNone).map (Entity.symbol s)).Nodup ∧
      (∀ e ∈ entities m, e.import? m = none → e.symbol s ∉ m.imports.map importSymbol) ∧
      ∀ x, x ∈ (entities m).map (Entity.symbol s) ∨ x ∈ m.imports.map importSymbol →
        isIdentifier x = true ∧ '_' ∈ x.toList ∧ (∀ params i, x ≠ localName params i) ∧
          (∀ i, x ≠ tempName i) ∧ (∀ n, x ≠ labelName n) ∧ x ≠ "elements") ∧
    (∀ params i j, localName params i = localName params j → i = j) ∧
    (∀ i j, tempName i = tempName j → i = j) ∧ (∀ i j, labelName i = labelName j → i = j) ∧
    ∀ params i j, localName params i ≠ tempName j ∧ localName params i ≠ labelName j ∧
      tempName i ≠ labelName j := by
  refine ⟨fun hnames => ?_, fun s w h => ?_, fun _ _ _ => localName_inj, fun _ _ => tempName_inj,
    fun _ _ => labelName_inj, fun params i j => ⟨localName_ne_tempName params i j,
      localName_ne_labelName params i j, tempName_ne_labelName i j⟩⟩
  · obtain ⟨w, hallot⟩ := Symbols.exists_allot (Nat.le_pred_of_lt hnames) o
    exact ⟨_, w, hallot⟩
  · have hallotted : Symbols.Allotted m o s := by
      rw [Symbols.eq_ofModule hfits h]
      exact Symbols.allotted_ofModule m o
    obtain ⟨hnodup, hfree⟩ := hallotted.nodup_own
    refine ⟨fun e he i => hallotted.symbol_eq_importSymbol he, hnodup, fun e he hi => ?_,
      fun x hx => ?_⟩
    · exact hfree _ (mem_map_of_mem (mem_filter.mpr ⟨he, by simp [hi]⟩))
    · have hsymbol : IsSymbol x := by
        rcases hx with hx | hx
        · obtain ⟨e, he, rfl⟩ := mem_map.mp hx
          exact hallotted.isSymbol_symbol he
        · obtain ⟨i, -, rfl⟩ := mem_map.mp hx
          exact isSymbol_importSymbol i
      exact ⟨hsymbol.1, hsymbol.2, hsymbol.ne_localName, hsymbol.ne_tempName, hsymbol.ne_labelName,
        hsymbol.ne_elements⟩

/-- A module that imports the name of its initializer, and exports its first function by the name
that the second one would get by itself. -/
def spellsNames : Module where
  imports := [⟨"Wasm", "Module_init", .function 0⟩]
  signatures := [0, 0]
  exports := [⟨"F2", .function, 1⟩]
  importedFunctions := 1

/-- Both clashes are resolved. -/
theorem symbols_distinct_spellsNames : ∃ s w, Symbols.allot spellsNames {} = .ok (s, w) ∧
    s.initializer = "Wasm_Module_init_1" ∧
    s.functions = ["Wasm_Module_init", "Wasm_Module_F2", "Wasm_Module_F2_1"] ∧
    (((entities spellsNames).filter fun e => (e.import? spellsNames).isNone).map
      (Entity.symbol s)).Nodup := by
  obtain ⟨hallot, hdistinct, -⟩ :=
    symbols_distinct spellsNames {} ⟨by decide, by decide, by decide⟩
  obtain ⟨s, w, h⟩ := hallot (by decide)
  have hnames : (Symbols.allot spellsNames {}).map (fun r => (r.1.initializer, r.1.functions)) =
      .ok ("Wasm_Module_init_1",
        ["Wasm_Module_init", "Wasm_Module_F2", "Wasm_Module_F2_1"]) := by decide +kernel
  rw [h] at hnames
  obtain ⟨hinit, hfunctions⟩ := Prod.mk.inj (Except.ok.inj hnames)
  exact ⟨s, w, h, hinit, hfunctions, (hdistinct s w h).2.1⟩

end WasmToC.C

import Mathlib.Data.List.Nodup
import WasmToC.Proofs.Declarations

/-!
# Closed units

The text of a unit has two parts: declarations, and behind them the initializer and the functions.
Whatever name of a function, global or table occurs in the second part is declared in the first one.
The extern of an import has the name that the index of the import stands for. Each function of the
module is declared by exactly one line, its prototype, and its definition starts with the same text.

## Main definitions

* `C.declares` — whether a line declares a name at file scope.
* `C.CompilationUnit.IsClosed` — a unit that is closed.

## Main results

* `Assembled.countP_declares` — one line declares a function of the module.
* `Assembled.spelled_definitionLines` — the words of definitions.
* `exists_closed_unit` — the unit of every binary module that is compiled is closed.
-/

namespace WasmToC

open List

namespace C

variable {name other : String}

/-! ## Lines that declare a name -/

/-- Whether a line is a declaration at file scope: it is not indented and ends with a semicolon. -/
def isDeclaration (line : String) : Bool :=
  line.toList.head? != some ' ' && line.toList.getLast? == some ';'

/-- Whether a character can stand in front of the end of the name in a declaration. -/
def isBeforeEnd (c : Char) : Bool := c != '(' && c != ';'

/-- The name that a line declares: the last word in front of the parameters or the end. -/
def declaredName? (line : String) : Option String :=
  (words (String.ofList (line.toList.takeWhile isBeforeEnd))).getLast?

/-- Whether a line declares a name at file scope. -/
def declares (name line : String) : Bool := isDeclaration line && declaredName? line == some name

/-- Whether a text can stand in front of the name in a declaration at file scope. -/
def isSpecifier (text : String) : Bool :=
  text.toList.head?.any (· != ' ') && text.toList.all isBeforeEnd

lemma isBeforeEnd_of_isWordChar {c : Char} (hc : isWordChar c = true) : isBeforeEnd c = true := by
  by_contra h
  have hends : c = '(' ∨ c = ';' := by
    rw [isBeforeEnd, Bool.and_eq_true, not_and_or] at h
    simpa using h
  rcases hends with rfl | rfl <;> exact absurd hc (by decide)

/-- **A name between a specifier and the parameters or the end** is the one that is declared. -/
theorem declares_iff {specifier rest : String} (hs : isSpecifier specifier = true)
    (hname : isIdentifier name = true) (hr : rest.toList.head?.any isBeforeEnd = false)
    (hend : rest.toList.getLast? = some ';') :
    declares other (specifier ++ " " ++ name ++ rest) = true ↔ other = name := by
  obtain ⟨hf, hpre⟩ := Bool.and_eq_true_iff.mp hs
  have hline : (specifier ++ " " ++ name ++ rest).toList =
      (specifier.toList ++ ' ' :: name.toList) ++ rest.toList := by
    simp [String.toList_append]
  have hdeclaration : isDeclaration (specifier ++ " " ++ name ++ rest) = true := by
    rw [isDeclaration, hline, getLast?_append, hend, append_assoc, head?_append]
    cases hlist : specifier.toList with
    | nil => simp [hlist] at hf
    | cons c cs => simpa [hlist] using hf
  have htake : (specifier ++ " " ++ name ++ rest).toList.takeWhile isBeforeEnd =
      specifier.toList ++ ' ' :: name.toList := by
    have hnone : rest.toList.takeWhile isBeforeEnd = [] := by
      cases hlist : rest.toList with
      | nil => rfl
      | cons c cs =>
        have hc : isBeforeEnd c = false := by simpa [hlist] using hr
        simp [hc]
    rw [hline, takeWhile_append_of_pos, hnone, append_nil]
    intro c hc
    rcases mem_append.mp hc with hc | hc
    · exact all_eq_true.mp hpre c hc
    · rcases mem_cons.mp hc with rfl | hc
      · rfl
      · exact isBeforeEnd_of_isWordChar (isWordChar_of_mem_identifier hname hc)
  have hne : name.toList ≠ [] := by
    intro hnil
    simp [isIdentifier, hnil] at hname
  have hword : wordsOf name.toList = [name.toList] :=
    wordsOf_run (fun _ hc => isWordChar_of_mem_identifier hname hc) hne
  have hlast : declaredName? (specifier ++ " " ++ name ++ rest) = some name := by
    rw [declaredName?, htake, words, String.toList_ofList, wordsOf_append_gap rfl, hword]
    simp
  rw [declares, hdeclaration, hlast, Bool.true_and, beq_iff_eq, Option.some.injEq]
  exact eq_comm

lemma isSpecifier_append {a b : String} (ha : isSpecifier a = true)
    (hb : isSpecifier b = true) : isSpecifier (a ++ b) = true := by
  obtain ⟨hf, hbefore⟩ := Bool.and_eq_true_iff.mp ha
  rw [isSpecifier, String.toList_append, all_append, hbefore, (Bool.and_eq_true_iff.mp hb).2,
    head?_append]
  cases hlist : a.toList with
  | nil => simp [hlist] at hf
  | cons c cs => simpa [hlist] using hf

lemma isSpecifier_cType (t : ValueType) : isSpecifier t.cType = true := by
  cases t <;> decide

lemma isSpecifier_storage (isExported : Bool) {text : String} (h : isSpecifier text = true) :
    isSpecifier (storage isExported ++ text) = true := by
  cases isExported with
  | true => simpa [storage] using h
  | false => exact isSpecifier_append (by decide) h

/-- What stands in front of the name of a function, and behind it. -/
lemma exists_signature (t : FuncType) (named : Bool) :
    ∃ res params : String, isSpecifier res = true ∧
      ∀ name, signature name t named = res ++ " " ++ name ++ ("(" ++ params) := by
  refine ⟨(t.result.map ValueType.cType).getD "void",
    (if t.params.isEmpty then "void" else ", ".intercalate (t.params.mapIdx fun i p =>
      if named then p.cType ++ s!" p{i}" else p.cType)) ++ ")", ?_, fun name => ?_⟩
  · cases t.result with
    | none => decide
    | some t => exact isSpecifier_cType t
  · simp only [signature, String.append_assoc]

/-- A line with the signature of a function declares the function. -/
lemma declares_signature {t : FuncType} {named : Bool} {lead : String}
    (hlead : ∀ text, isSpecifier text = true → isSpecifier (lead ++ text) = true)
    (hname : isIdentifier name = true) :
    declares other (lead ++ signature name t named ++ ";") = true ↔ other = name := by
  obtain ⟨res, params, hres, hsignature⟩ := exists_signature t named
  have hl : lead ++ signature name t named ++ ";" =
      (lead ++ res) ++ " " ++ name ++ ("(" ++ params ++ ";") := by
    simp only [hsignature, String.append_assoc]
  rw [hl]
  refine declares_iff (hlead res hres) hname ?_ ?_
  · simp [String.toList_append, isBeforeEnd]
  · rw [String.toList_append]
    exact getLast?_concat

lemma declares_variable {specifier : String} (hs : isSpecifier specifier = true)
    (hname : isIdentifier name = true) :
    declares other (specifier ++ " " ++ name ++ ";") = true ↔ other = name :=
  declares_iff hs hname (by decide) (by decide)

lemma Extern.exists_line (s : Symbols) (d : Extern) : ∃ rest, d.line s = "extern " ++ rest := by
  cases d with
  | function i t =>
    refine ⟨signature (s.function i) t false ++ ";", ?_⟩
    show "extern " ++ signature (s.function i) t false ++ ";" = _
    rw [String.append_assoc]
  | global i t =>
    refine ⟨t.cType ++ (" " ++ (s.global i ++ ";")), ?_⟩
    show "extern " ++ t.cType ++ " " ++ s.global i ++ ";" = _
    rw [String.append_assoc, String.append_assoc, String.append_assoc]
  | table i =>
    refine ⟨"wasm_rt_table " ++ (s.table i ++ ";"), ?_⟩
    show "extern wasm_rt_table " ++ s.table i ++ ";" = _
    rw [String.append_assoc, ← String.append_assoc]
    rfl

namespace CompilationUnit

/-! ## The parts of the text -/

/-- The lines in front of the initializer and the functions. -/
def declarationLines (u : CompilationUnit) : List String :=
  "#include \"wasm_rt.h\"" :: (paragraph (u.externs.map (Extern.line u.symbols)) ++
      (paragraph (u.fields.map (Field.line u.symbols)) ++
        ("" :: (u.prototypes.map (Prototype.line u.symbols) ++
          ["void " ++ u.symbols.initializer ++ "(void);", ""]))))

/-- The lines of the initializer and the functions. -/
def definitionLines (u : CompilationUnit) : List String :=
  initializerLines u.symbols u.initializer ++ u.functions.flatMap fun f => "" :: f.lines u.symbols

lemma lines_eq_append (u : CompilationUnit) :
    u.lines = u.declarationLines ++ u.definitionLines := by
  simp [lines, declarationLines, definitionLines]

/-- The line by which a unit declares something: an extern, a field or a prototype. -/
inductive DeclaredBy (u : CompilationUnit) : Entity → String → Prop
  /-- An extern. -/
  | imported {d : Extern} (hd : d ∈ u.externs) : DeclaredBy u d.entity (d.line u.symbols)
  /-- A field. -/
  | field {d : Field} (hd : d ∈ u.fields) : DeclaredBy u d.entity (d.line u.symbols)
  /-- A prototype. -/
  | prototype {p : Prototype} (hp : p ∈ u.prototypes) :
      DeclaredBy u (.function p.index) (p.line u.symbols)

/-- What the initializer and the functions of a unit mention. -/
def mentions (u : CompilationUnit) : List Entity :=
  u.initializer.flatMap InitStep.mentions ++ u.functions.flatMap FunctionDef.mentions

variable {u : CompilationUnit} {x : Entity} {line : String}

lemma exists_declaredBy (h : x ∈ u.declared) : ∃ line, u.DeclaredBy x line := by
  simp only [declared, mem_append, mem_map] at h
  obtain ⟨d, hd, rfl⟩ | ⟨d, hd, rfl⟩ | ⟨p, hp, rfl⟩ := h
  · exact ⟨_, .imported hd⟩
  · exact ⟨_, .field hd⟩
  · exact ⟨_, .prototype hp⟩

lemma countP_paragraph {q : String → Bool} (hq : q "" = false) (lines : List String) :
    (paragraph lines).countP q = lines.countP q := by
  unfold paragraph
  split
  · simp_all
  · rw [countP_cons_of_neg (by simp [hq])]

lemma mem_paragraph {lines : List String} (h : line ∈ lines) : line ∈ paragraph lines := by
  unfold paragraph
  split
  · simp_all
  · exact mem_cons_of_mem _ h

/-- Externs, fields and prototypes stand in front of all definitions. -/
lemma DeclaredBy.mem_declarationLines (h : u.DeclaredBy x line) : line ∈ u.declarationLines := by
  simp only [declarationLines, mem_cons, mem_append]
  cases h with
  | imported hd => exact .inr (.inl (mem_paragraph (mem_map_of_mem hd)))
  | field hd => exact .inr (.inr (.inl (mem_paragraph (mem_map_of_mem hd))))
  | prototype hp => exact .inr (.inr (.inr (.inr (.inl (mem_map_of_mem hp)))))

/-- Each of them declares the symbol of what it is for. -/
lemma DeclaredBy.declares_iff (h : u.DeclaredBy x line)
    (hx : isIdentifier (x.symbol u.symbols) = true) :
    declares name line = true ↔ name = x.symbol u.symbols := by
  cases h with
  | @imported d =>
    cases d with
    | function i t => exact declares_signature (fun _ => isSpecifier_append (by decide)) hx
    | global i t =>
      exact declares_variable (isSpecifier_append (by decide) (isSpecifier_cType t)) hx
    | table i =>
      have hl : Extern.line u.symbols (.table i) =
          "extern wasm_rt_table" ++ " " ++ u.symbols.table i ++ ";" := rfl
      rw [hl]
      exact declares_variable (by decide) hx
  | @field d =>
    cases d with
    | global i t isExported =>
      exact declares_variable (isSpecifier_storage isExported (isSpecifier_cType t)) hx
    | table i isExported =>
      have hl : Field.line u.symbols (.table i isExported) =
          (storage isExported ++ "wasm_rt_table") ++ " " ++ u.symbols.table i ++ ";" := by
        simp [Field.line, String.append_assoc]
      rw [hl]
      exact declares_variable (isSpecifier_storage isExported (by decide)) hx
  | @prototype p => exact declares_signature (fun _ => isSpecifier_storage p.isExported) hx

end CompilationUnit

/-! ## Lines of definitions -/

/-- An indented line is no declaration at file scope. -/
lemma isDeclaration_indented (d : Nat) (line : String) :
    isDeclaration (indented (d + 1) line) = false := by
  have hlist : (indented (d + 1) line).toList =
      ' ' :: (List.replicate (2 * d + 1) ' ' ++ line.toList) := by
    rw [indented, String.toList_append, String.toList_ofList, Nat.mul_add, Nat.mul_one,
      replicate_succ]
    rfl
  rw [isDeclaration, hlist]
  rfl

lemma isDeclaration_append_brace (line : String) {text : String}
    (htext : text.toList.getLast? = some '\x7b') : isDeclaration (line ++ text) = false := by
  rw [isDeclaration, String.toList_append, getLast?_append, htext]
  exact Bool.and_false _

/-- **No line of a body is a declaration at file scope**, since its braces are nested inside that of
the definition. -/
theorem Nested.isDeclaration {ls : List Line} (h : Nested ls) (n : Naming) (d : Nat)
    {k : List Line} (hk : ∀ line ∈ layout n (d + 1) k, isDeclaration line = false) :
    ∀ line ∈ layout n (d + 1) (ls ++ k), isDeclaration line = false := by
  have hindented := isDeclaration_indented d
  induction h generalizing d k with
  | nil => exact hk
  | label l => exact forall_mem_cons.2 ⟨hindented _, hk⟩
  | @run s =>
    refine forall_mem_append.2 ⟨?_, hk⟩
    rw [runLines_eq]
    cases s <;> simp_all [Stmt.flatten, Stmt.lines]
  | append _ _ h h' =>
    rw [append_assoc]
    exact h d (h' d hk hindented) hindented
  | block _ h | onlyIf _ _ h =>
    simp only [cons_append, append_assoc, layout, forall_mem_cons]
    exact ⟨hindented _, h _ (forall_mem_cons.2 ⟨hindented _, hk⟩) (isDeclaration_indented _)⟩
  | ifElse _ _ _ h h' =>
    simp only [cons_append, append_assoc, layout, forall_mem_cons]
    refine ⟨hindented _, h _ (forall_mem_cons.2 ⟨hindented _, ?_⟩) (isDeclaration_indented _)⟩
    exact h' _ (forall_mem_cons.2 ⟨hindented _, hk⟩) (isDeclaration_indented _)

/-- **No line of a definition is a declaration at file scope.** -/
theorem CompilationUnit.isDeclaration_definitionLines (u : CompilationUnit) :
    ∀ line ∈ u.definitionLines, isDeclaration line = false := by
  intro line hl
  rcases mem_append.mp hl with hl | hl
  · simp only [initializerLines, cons_append, mem_cons, mem_append, mem_map,
      not_mem_nil, or_false] at hl
    obtain rfl | ⟨text, -, rfl⟩ | rfl := hl
    · exact isDeclaration_append_brace _ (by decide)
    · exact isDeclaration_indented 0 text
    · decide
  · obtain ⟨f, -, hl⟩ := mem_flatMap.mp hl
    simp only [FunctionDef.lines, cons_append, append_assoc, mem_cons,
      mem_append, mem_mapIdx, not_mem_nil, or_false] at hl
    obtain rfl | rfl | ⟨i, hi, rfl⟩ | ⟨i, hi, rfl⟩ | hl | rfl := hl
    · decide
    · exact isDeclaration_append_brace _ (by decide)
    · exact isDeclaration_indented 0 _
    · exact isDeclaration_indented 0 _
    · have hlines := (nested_flattenAll f.body).isDeclaration (f.naming u.symbols) 0 (k := [])
        (by simp [layout])
      rw [append_nil, layout_body] at hlines
      exact hlines line hl
    · decide

end C

/-! ## Symbols of what is declared -/

open C (Entity)

/-- What stands for an import stands for one of the module's imports. -/
lemma mem_imports_of_import? {m : Module} {x : Entity} {i : Import}
    (h : x.import? m = some i) : i ∈ m.imports := by
  have hof {kind : ExternKind} {k : Nat} (hk : (m.importsOf kind)[k]? = some i) : i ∈ m.imports :=
    (mem_filter.mp (mem_of_getElem? hk)).1
  have hresolved {kind : ExternKind} {k imported own : Nat}
      (hk : Entity.ofResolved (if k < imported then (m.importsOf kind)[k]?.map .imported
        else if k - imported < own then some (.own (k - imported)) else none) = some i) :
      (m.importsOf kind)[k]? = some i := by
    split at hk
    · cases hj : (m.importsOf kind)[k]? with
      | none => simp [hj, Entity.ofResolved] at hk
      | some j => simpa [hj, Entity.ofResolved] using hk
    · split at hk <;> cases hk
  cases x with
  | initializer => cases h
  | function k => exact hof (hresolved h)
  | global k => exact hof (hresolved h)
  | table k => exact hof h

/-- Nothing else has the symbol of something that the module defines. -/
lemma eq_of_symbol_eq {m : Module} {o : Options} {s : C.Symbols}
    (hs : C.Symbols.Allotted m o s) {x y : Entity} (hx : x ∈ C.entities m)
    (hown : x.import? m = none) (hy : y ∈ C.entities m) (h : x.symbol s = y.symbol s) : x = y := by
  obtain ⟨hnodup, hfree⟩ := hs.nodup_own
  have hmem {z : Entity} (hz : z ∈ C.entities m) (hnone : z.import? m = none) :
      z ∈ (C.entities m).filter fun e => (e.import? m).isNone :=
    mem_filter.mpr ⟨hz, by simp [hnone]⟩
  cases hi : y.import? m with
  | none => exact inj_on_of_nodup_map hnodup (hmem hx hown) (hmem hy hi) h
  | some i =>
    refine absurd ?_ (hfree _ (mem_map_of_mem (hmem hx hown)))
    rw [h, hs.symbol_eq_importSymbol hy hi]
    exact mem_map_of_mem (mem_imports_of_import? hi)

namespace Assembled

variable {m : Module} {o : Options} {u : C.CompilationUnit} (h : Assembled m o u) {line : String}
include h

/-- The indices of the prototypes are those of the module's own functions. -/
lemma map_index_prototypes :
    u.prototypes.map C.Prototype.index = List.range' m.importedFunctions m.functions.length := by
  have hlength := (exists_prototype_of_prototypesFrom h.prototypes).1
  refine ext_getElem (by simp [hlength]) fun k hk hk' => ?_
  rw [length_map, hlength] at hk
  obtain ⟨p, f, hp, -, -, hindex, -⟩ := h.exists_prototype hk
  obtain ⟨hk'', rfl⟩ := List.getElem?_eq_some_iff.mp hp
  simpa using hindex

variable (hm : Coherent m) (hbodies : m.functions.length = m.signatures.length)
include hm hbodies

/-- What is declared has a symbol. -/
lemma mem_entities {x : Entity} (hx : u.DeclaredBy x line) : x ∈ C.entities m := by
  cases hx with
  | imported hd =>
    obtain ⟨pre, i, post, himports, hdeclares⟩ := h.exists_import hd
    exact mem_entities_of_import? hm (import?_of_declares hm himports hdeclares)
  | field hd =>
    rw [h.fields, WasmToC.fields, mem_append, mem_mapIdx, mem_map] at hd
    simp only [C.entities, mem_cons, mem_append, mem_map, mem_range]
    obtain ⟨i, hi, rfl⟩ | ⟨t, ht, rfl⟩ := hd
    · exact .inr (.inr (.inl ⟨_, by omega, rfl⟩))
    · exact .inr
        (.inr (.inr ⟨t, C.mem_tableIndices.mpr (.inl (.inl (mem_ownTables.mp ht).2)), rfl⟩))
  | @prototype p hp =>
    simp only [C.entities, mem_cons, mem_append, mem_map, mem_range]
    have hindex : p.index ∈ u.prototypes.map C.Prototype.index := mem_map_of_mem hp
    rw [h.map_index_prototypes, mem_range'_1] at hindex
    exact .inr (.inl ⟨p.index, by omega, rfl⟩)

variable (hs : C.Symbols.Allotted m o u.symbols)
include hs

lemma isIdentifier_symbol {x : Entity} (hx : u.DeclaredBy x line) :
    C.isIdentifier (x.symbol u.symbols) = true :=
  (hs.isSymbol_symbol (h.mem_entities hm hbodies hx)).1

/-! ## One declaration for each function -/

section Prototype

variable {p : C.Prototype} (hp : p ∈ u.prototypes)
include hp

omit hm hbodies hs in
lemma import?_prototype : (Entity.function p.index).import? m = none := by
  have hindex : p.index ∈ u.prototypes.map C.Prototype.index := mem_map_of_mem hp
  rw [h.map_index_prototypes, mem_range'_1] at hindex
  rw [Entity.import?, Module.function?, if_neg (by omega)]
  split <;> rfl

lemma eq_of_symbol_prototype {x : Entity} (hx : x ∈ C.entities m)
    (heq : u.symbols.function p.index = x.symbol u.symbols) : .function p.index = x :=
  eq_of_symbol_eq hs (h.mem_entities hm hbodies (.prototype hp)) (h.import?_prototype hp) hx heq

lemma declares_iff_eq {x : Entity} (hx : u.DeclaredBy x line) :
    C.declares (u.symbols.function p.index) line = true ↔ .function p.index = x := by
  rw [hx.declares_iff (h.isIdentifier_symbol hm hbodies hs hx)]
  refine ⟨h.eq_of_symbol_prototype hm hbodies hs hp (h.mem_entities hm hbodies hx), ?_⟩
  rintro rfl
  rfl

lemma countP_externs : (u.externs.map (C.Extern.line u.symbols)).countP
    (C.declares (u.symbols.function p.index)) = 0 := by
  refine countP_eq_zero.mpr (forall_mem_map.mpr fun d hd hl => ?_)
  obtain ⟨pre, i, post, himports, hdeclares⟩ := h.exists_import hd
  have himport := import?_of_declares hm himports hdeclares
  rw [← (h.declares_iff_eq hm hbodies hs hp (.imported hd)).mp hl,
    h.import?_prototype hp] at himport
  cases himport

lemma countP_fields : (u.fields.map (C.Field.line u.symbols)).countP
    (C.declares (u.symbols.function p.index)) = 0 := by
  refine countP_eq_zero.mpr (forall_mem_map.mpr fun d hd hl => ?_)
  have heq := (h.declares_iff_eq hm hbodies hs hp (.field hd)).mp hl
  cases d <;> cases heq

lemma countP_prototypes : (u.prototypes.map (C.Prototype.line u.symbols)).countP
    (C.declares (u.symbols.function p.index)) = 1 := by
  have hnodup : (u.prototypes.map C.Prototype.index).Nodup := by
    rw [h.map_index_prototypes]
    exact nodup_range'
  rw [← count_eq_one_of_mem hnodup (mem_map_of_mem hp), List.count, countP_map, countP_map]
  refine countP_congr fun r hr => ?_
  rw [Function.comp_apply, h.declares_iff_eq hm hbodies hs hp (.prototype hr), Function.comp_apply,
    beq_iff_eq, Entity.function.injEq]
  exact eq_comm

lemma declares_initializer : C.declares (u.symbols.function p.index)
    ("void " ++ u.symbols.initializer ++ "(void);") = false := by
  have hmem : .initializer ∈ C.entities m := mem_cons_self
  have hid : C.isIdentifier u.symbols.initializer = true := (hs.isSymbol_symbol hmem).1
  have hl : "void " ++ u.symbols.initializer ++ "(void);" =
      "void" ++ " " ++ u.symbols.initializer ++ "(void);" := rfl
  rw [hl, Bool.eq_false_iff]
  intro hdeclares
  have heq := (C.declares_iff (by decide) hid (by decide) (by decide)).mp hdeclares
  cases h.eq_of_symbol_prototype hm hbodies hs hp hmem heq

/-- **One line declares a function of the module.**

**Proof sketch.** No line of a definition is a declaration at file scope. Every other line declares
the symbol of what it is for, and nothing else has the symbol of one of the module's functions. -/
theorem countP_declares : u.lines.countP (C.declares (u.symbols.function p.index)) = 1 := by
  have hno {line : String} (hline : C.isDeclaration line = false) :
      C.declares (u.symbols.function p.index) line = false := by
    rw [C.declares, hline, Bool.false_and]
  have hempty : C.declares (u.symbols.function p.index) "" = false := hno (by decide)
  have hinclude : C.declares (u.symbols.function p.index) "#include \"wasm_rt.h\"" = false :=
    hno (by decide)
  have hdefinitions : u.definitionLines.countP (C.declares (u.symbols.function p.index)) = 0 := by
    refine countP_eq_zero.mpr fun line hline => ?_
    simp [hno (u.isDeclaration_definitionLines line hline)]
  have hdeclarations : u.declarationLines.countP (C.declares (u.symbols.function p.index)) = 1 := by
    rw [C.CompilationUnit.declarationLines, countP_cons_of_neg (by simp [hinclude]),
      countP_append, countP_append, C.CompilationUnit.countP_paragraph hempty,
      C.CompilationUnit.countP_paragraph hempty, h.countP_externs hm hbodies hs hp,
      h.countP_fields hm hbodies hs hp, countP_cons_of_neg (by simp [hempty]),
      countP_append, h.countP_prototypes hm hbodies hs hp,
      countP_cons_of_neg (by simp [h.declares_initializer hm hbodies hs hp]),
      countP_cons_of_neg (by simp [hempty]), countP_nil]
  rw [u.lines_eq_append, countP_append, hdeclarations, hdefinitions]

end Prototype

/-! ## The words of definitions -/

omit hs in
/-- What the definitions of a unit mention is declared. -/
lemma exists_declaredBy_of_mem_mentions {x : Entity} (hx : x ∈ u.mentions) :
    ∃ line, u.DeclaredBy x line := by
  refine C.CompilationUnit.exists_declaredBy ?_
  rcases mem_append.mp hx with hx | hx
  · exact h.declared_of_mem_initializer hm hbodies hx
  · obtain ⟨f, hf, hx⟩ := mem_flatMap.mp hx
    exact h.declared_of_mem_function hm hbodies hf hx

/-- **The words of definitions** are ordinary ones, the symbol of the initializer, and the symbols
of what is mentioned. -/
theorem spelled_definitionLines (hl : line ∈ u.definitionLines) : ∀ w ∈ C.words line,
    C.Ordinary w ∨ w ∈ u.symbols.initializer :: u.mentions.map (Entity.symbol u.symbols) := by
  let P w := C.Ordinary w ∨ w ∈ u.symbols.initializer :: u.mentions.map (Entity.symbol u.symbols)
  have hallows (xs : List Entity) (hxs : xs ⊆ u.mentions) : C.Allows P u.symbols xs := by
    intro x hx
    obtain ⟨text, htext⟩ := h.exists_declaredBy_of_mem_mentions hm hbodies (hxs hx)
    exact .identifier (h.isIdentifier_symbol hm hbodies hs htext)
      (.inr (mem_cons_of_mem _ (mem_map_of_mem (hxs hx))))
  suffices hspelled : C.Spelled P line from fun w hw => (hspelled w hw).elim (fun h => .inl h.1) id
  rcases mem_append.mp hl with hl | hl
  · have hid := (hs.isSymbol_symbol (e := .initializer) mem_cons_self).1
    exact C.spelled_initializerLines (.identifier hid (.inr mem_cons_self))
      (hallows _ (subset_append_left _ _)) line hl
  · obtain ⟨f, hf, hl⟩ := mem_flatMap.mp hl
    rcases mem_cons.mp hl with rfl | hl
    · exact .empty
    · refine f.spelled_lines (fun params i => .inl (.variable params i))
        (fun i => .inl (.temporary i))
        (hallows _ fun x hx => ?_) line hl
      exact mem_append_right _ (mem_flatMap.mpr ⟨f, hf, hx⟩)

end Assembled

/-! ## Closed units -/

/-- A unit that declares what it mentions, and declares it once. -/
structure C.CompilationUnit.IsClosed (m : Module) (u : C.CompilationUnit) : Prop where
  /-- Externs, fields and prototypes stand in front of all definitions, and each of them declares
  the symbol of what it is for. -/
  declarations : ∀ x line, u.DeclaredBy x line → line ∈ u.declarationLines ∧
    ∀ name, declares name line = true ↔ name = x.symbol u.symbols
  /-- Every import but a memory has its extern at its place, and the index of the extern stands for
  the import. -/
  externs : ∀ pre i post, m.imports = pre ++ i :: post → i.desc.kind ≠ .memory →
    ∃ d rest, u.externs[(withExtern pre).length]? = some d ∧
      d.Declares m.types i (countKind i.desc.kind pre) ∧ d.entity.import? m = some i ∧
      d.line u.symbols = "extern " ++ rest
  /-- There are no other externs. -/
  externCount : u.externs.length = (withExtern m.imports).length
  /-- Every function of the module has its prototype and its definition at its place. They start
  with the same text, and no other line declares the function. -/
  prototypes : ∀ k < m.functions.length, ∃ p f head, u.prototypes[k]? = some p ∧
    u.functions[k]? = some f ∧ p.index = m.importedFunctions + k ∧ f.index = p.index ∧
    p.line u.symbols = head ++ ";" ∧ (f.lines u.symbols).head? = some (head ++ " \x7b") ∧
    u.lines.countP (declares (u.symbols.function p.index)) = 1
  /-- There are no other prototypes and definitions. -/
  prototypeCount : u.prototypes.length = m.functions.length ∧
    u.functions.length = m.functions.length
  /-- What the initializer or a function mentions is declared. -/
  mentions : ∀ x ∈ u.mentions, ∃ line, u.DeclaredBy x line
  /-- The text of the initializer and the functions has no other names. -/
  words : ∀ line ∈ u.definitionLines, ∀ w ∈ words line, Ordinary w ∨ w = u.symbols.initializer ∨
    ∃ x ∈ u.mentions, w = x.symbol u.symbols

/-- **The unit of every binary module that is compiled is closed.** The text has the lines of the
unit, each ended by a newline: first declarations, then definitions. If indices of 32 bits are
enough for the module, the unit is closed.

**Proof sketch.** Externs come from the imports in order, and running counts over a mix of kinds
give each its index among its kind. Bodies and signatures are equally many in a module that has
been decoded, so that each function has a prototype. Whatever a step or a statement mentions was in
range when it was read, and so is among what is declared. That no other line declares a function
rests on `C.Symbols.Allotted.nodup_own`. -/
theorem exists_closed_unit {bytes : List UInt8} {o : Options} {text : String}
    (h : (compile bytes o).outcome = .ok text) :
    ∃ m u, (Module.decode ⟨bytes, .clean⟩).outcome = .ok m ∧ (assemble m o).outcome = .ok u ∧
      text = String.join (u.lines.map fun line => line ++ "\n") ∧
      u.lines = u.declarationLines ++ u.definitionLines ∧
      (C.Symbols.Fits m → u.symbols = C.Symbols.ofModule m o ∧ u.IsClosed m) := by
  simp only [compile, emit, Traced.outcome_bind_eq_ok, Traced.outcome_pure, Except.ok.injEq] at h
  obtain ⟨_, -, m, hdecode, u, hassemble, rfl⟩ := h
  obtain ⟨hm, hbodies⟩ := Module.coherent_of_decode hdecode
  have hu := assembled_of_assemble hassemble
  refine ⟨m, u, hdecode, hassemble, rfl, u.lines_eq_append, fun hfits => ⟨hu.symbols_eq hfits, ?_⟩⟩
  have hs : C.Symbols.Allotted m o u.symbols := by
    rw [hu.symbols_eq hfits]
    exact C.Symbols.allotted_ofModule m o
  constructor
  case declarations =>
    intro x line hx
    exact ⟨hx.mem_declarationLines, fun _ => hx.declares_iff
      (hu.isIdentifier_symbol hm hbodies hs hx)⟩
  case externs =>
    intro pre i post himports hi
    obtain ⟨d, hd, hdeclares⟩ := hu.exists_extern himports hi
    obtain ⟨rest, hline⟩ := d.exists_line u.symbols
    exact ⟨d, rest, hd, hdeclares, import?_of_declares hm himports hdeclares, hline⟩
  case externCount => exact hu.length_externs
  case prototypes =>
    intro k hk
    obtain ⟨p, f, hp, hf, -, hindex, hfindex, htype, hexported⟩ := hu.exists_prototype hk
    refine ⟨p, f, C.FunctionDef.head u.symbols p.index p.isExported p.type, hp, hf, hindex, hfindex,
      rfl, ?_, hu.countP_declares hm hbodies hs (mem_of_getElem? hp)⟩
    rw [← hfindex, ← htype, ← hexported]
    rfl
  case prototypeCount =>
    exact ⟨(exists_prototype_of_prototypesFrom hu.prototypes).1,
      (exists_function_of_rebuildFrom hu.functions).1⟩
  case mentions =>
    intro x hx
    exact hu.exists_declaredBy_of_mem_mentions hm hbodies hx
  case words =>
    intro line hline w hw
    have hspelled := hu.spelled_definitionLines hm hbodies hs hline w hw
    rw [mem_cons, mem_map] at hspelled
    rcases hspelled with hw | hw | ⟨x, hx, hw⟩
    · exact .inl hw
    · exact .inr (.inl hw)
    · exact .inr (.inr ⟨x, hx, hw.symm⟩)

/-- The bytes of a module that imports a function, a global and a table. Its function calls the
imported one, copies the imported global to its own, and is put into the table. -/
def mixedImports : List UInt8 :=
  [0x00, 0x61, 0x73, 0x6d, 0x01, 0x00, 0x00, 0x00, 0x01, 0x04, 0x01, 0x60, 0x00, 0x00,
    0x02, 0x16, 0x03, 0x01, 0x61, 0x01, 0x66, 0x00, 0x00,
    0x01, 0x61, 0x01, 0x67, 0x03, 0x7f, 0x00,
    0x01, 0x61, 0x01, 0x74, 0x01, 0x70, 0x00, 0x01,
    0x03, 0x02, 0x01, 0x00,
    0x06, 0x06, 0x01, 0x7f, 0x01, 0x23, 0x00, 0x0b,
    0x09, 0x07, 0x01, 0x00, 0x23, 0x00, 0x0b, 0x01, 0x01,
    0x0a, 0x0a, 0x01, 0x08, 0x00, 0x10, 0x00, 0x23, 0x00, 0x24, 0x01, 0x0b]

/-- The module that these bytes hold. -/
def mixedModule : Module where
  types := [⟨[], none⟩]
  imports := [⟨"a", "f", .function 0⟩, ⟨"a", "g", .global ⟨.i32, false⟩⟩,
    ⟨"a", "t", .table ⟨1, none⟩⟩]
  signatures := [0]
  globals := [⟨⟨.i32, true⟩, ⟨.getGlobal, .index 0⟩⟩]
  segments := [⟨0, ⟨.getGlobal, .index 0⟩, [1]⟩]
  functions := [⟨0, [], [⟨.call, .index 0⟩, ⟨.getGlobal, .index 0⟩, ⟨.setGlobal, .index 1⟩]⟩]
  importedFunctions := 1
  importedGlobals := 1
  importedTables := 1

/-- The unit of this module is closed, and one of its lines declares the module's function. -/
theorem closed_unit_mixedImports : ∃ (text : String) (u : C.CompilationUnit),
    (compile mixedImports {}).outcome = .ok text ∧
      text = String.join (u.lines.map fun line => line ++ "\n") ∧ u.IsClosed mixedModule ∧
      u.lines.countP (C.declares (u.symbols.function 1)) = 1 := by
  have hok : (compile mixedImports {}).outcome.isOk = true := by decide +kernel
  have hdecode : (Module.decode ⟨mixedImports, .clean⟩).outcome = .ok mixedModule := by
    decide +kernel
  cases htext : (compile mixedImports {}).outcome with
  | error e =>
    rw [htext] at hok
    cases hok
  | ok text =>
    obtain ⟨m, u, hm, -, hu, -, hfits⟩ := exists_closed_unit htext
    obtain rfl := Except.ok.inj (hdecode.symm.trans hm)
    obtain ⟨-, hclosed⟩ := hfits ⟨by decide, by decide, by decide⟩
    obtain ⟨p, f, head, -, -, hindex, -, -, -, hn⟩ := hclosed.prototypes 0 (by decide)
    rw [hindex] at hn
    exact ⟨text, u, rfl, hu, hclosed, hn⟩

end WasmToC

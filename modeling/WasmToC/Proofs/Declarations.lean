import WasmToC.Proofs.Initializer
import WasmToC.Proofs.Spellings

/-!
# What a unit declares

Externs come from running counts over the imports, prototypes from the list of bodies, and fields
from globals and segments, while everything else uses indices of combined index spaces. These
agree: the extern of an import has the index that stands for the import, and everything that the
initializer or a function mentions has an extern, a field or a prototype.

## Main definitions

* `C.Extern.Declares` — the extern of an import with a given index.
* `C.CompilationUnit.declared` — what the externs, fields and prototypes of a unit declare.
* `Assembled` — the parts of the unit of a module.

## Main results

* `externsFrom_append` — the counts behind some imports.
* `Assembled.exists_extern` — every import but a memory has its extern.
* `Assembled.exists_prototype` — every function of the module has its prototype.
* `Assembled.declared_of_mem_initializer`, `Assembled.declared_of_mem_function` —
  what is mentioned is declared.
-/

namespace WasmToC

open List ImportDesc WasmToC.Module
open C (Entity Extern)

variable {post pre : List Import} {index : Nat} {x : Entity}

namespace C

/-- What an extern declares. -/
def Extern.entity : Extern → Entity
  | .function i _ => .function i
  | .global i _ => .global i
  | .table i => .table i

/-- What a field declares. -/
def Field.entity : Field → Entity
  | .global i _ _ => .global i
  | .table i _ => .table i

/-- The extern of an import that has a given index among the imports of its kind. -/
inductive Extern.Declares (types : List FuncType) (i : Import) (index : Nat) : Extern → Prop
  /-- A function, of the type that the import names. -/
  | function {t : Nat} {type : FuncType} (hdesc : i.desc = .function t)
      (htype : types[t]? = some type) : Declares types i index (.function index type)
  /-- A global, of the type that the import has. -/
  | global {g : GlobalType} (hdesc : i.desc = .global g) :
      Declares types i index (.global index g.content)
  /-- A table. -/
  | table {l : Limits} (hdesc : i.desc = .table l) : Declares types i index (.table index)

/-- What the externs, fields and prototypes of a unit declare. -/
def CompilationUnit.declared (u : CompilationUnit) : List Entity :=
  u.externs.map Extern.entity ++
    (u.fields.map Field.entity ++ u.prototypes.map fun p => .function p.index)

end C

/-! ## Imports -/

/-- The number of imports of a kind. -/
def countKind (kind : ExternKind) (imports : List Import) : Nat :=
  (imports.filter fun i => i.desc.kind == kind).length

/-- The imports that get an extern: all but memories. -/
def withExtern (imports : List Import) : List Import :=
  imports.filter fun i => i.desc.kind != .memory

lemma countKind_append (kind : ExternKind) (pre post : List Import) :
    countKind kind (pre ++ post) = countKind kind pre + countKind kind post := by
  simp [countKind]

section Externs

variable {types : List FuncType} {functions globals tables : Nat} {ds : List Extern}

/-- The count of a kind among those of functions, globals and tables. -/
def ofKind (functions globals tables : Nat) : ExternKind → Nat
  | .function => functions
  | .global => globals
  | .table => tables
  | .memory => 0

/-- The first import has its extern, if it gets one, and is counted. -/
lemma externsFrom_cons {i : Import} {rest : List Import}
    (h : externsFrom types functions globals tables (i :: rest) = .ok ds) :
    ∃ as bs, ds = as ++ bs ∧ as.length = (withExtern [i]).length ∧
      (∀ d ∈ as, d.Declares types i (ofKind functions globals tables i.desc.kind)) ∧
      externsFrom types (functions + countKind .function [i]) (globals + countKind .global [i])
        (tables + countKind .table [i]) rest = .ok bs := by
  rw [externsFrom] at h
  cases hdesc : i.desc with
  | function t =>
    simp only [hdesc] at h
    cases htype : types[t]? with
    | none => simp [htype] at h
    | some type =>
      simp only [htype] at h
      obtain ⟨others, hothers, hds⟩ := bind_eq_ok.mp h
      refine ⟨[.function functions type], others, (pure_eq_ok.mp hds).symm, ?_, ?_, ?_⟩
      · simp [withExtern, hdesc, kind]
      · simpa [kind, ofKind] using .function hdesc htype
      · simpa [countKind, hdesc, kind] using hothers
  | global g =>
    simp only [hdesc] at h
    obtain ⟨others, hothers, hds⟩ := bind_eq_ok.mp h
    refine ⟨[.global globals g.content], others, (pure_eq_ok.mp hds).symm, ?_, ?_, ?_⟩
    · simp [withExtern, hdesc, kind]
    · simpa [kind, ofKind] using .global hdesc
    · simpa [countKind, hdesc, kind] using hothers
  | table l =>
    simp only [hdesc] at h
    obtain ⟨others, hothers, hds⟩ := bind_eq_ok.mp h
    refine ⟨[.table tables], others, (pure_eq_ok.mp hds).symm, ?_, ?_, ?_⟩
    · simp [withExtern, hdesc, kind]
    · simpa [kind, ofKind] using .table hdesc
    · simpa [countKind, hdesc, kind] using hothers
  | memory l =>
    simp only [hdesc] at h
    refine ⟨[], ds, rfl, ?_, by simp, ?_⟩
    · simp [withExtern, hdesc, kind]
    · simpa [countKind, hdesc, kind] using h

/-- **The counts behind some imports** are those in front of them and their numbers. -/
theorem externsFrom_append (h : externsFrom types functions globals tables (pre ++ post) = .ok ds) :
    ∃ as bs, ds = as ++ bs ∧ as.length = (withExtern pre).length ∧
      externsFrom types (functions + countKind .function pre)
        (globals + countKind .global pre) (tables + countKind .table pre) post = .ok bs := by
  induction pre generalizing functions globals tables ds with
  | nil => exact ⟨[], ds, rfl, rfl, h⟩
  | cons i pre ih =>
    obtain ⟨as, bs, rfl, hlength, -, hr⟩ := externsFrom_cons h
    obtain ⟨as', bs', rfl, hlength', hafter⟩ := ih hr
    have hcount (kind : ExternKind) :
        countKind kind (i :: pre) = countKind kind [i] + countKind kind pre :=
      countKind_append kind [i] pre
    have hwith : withExtern (i :: pre) = withExtern [i] ++ withExtern pre :=
      filter_append [i] pre
    refine ⟨as ++ as', bs', (append_assoc _ _ _).symm, ?_, ?_⟩
    · rw [hwith, length_append, length_append, hlength, hlength']
    · rw [hcount, hcount, hcount, ← Nat.add_assoc, ← Nat.add_assoc, ← Nat.add_assoc]
      exact hafter

/-- An import that gets an extern has it at its place. -/
lemma exists_extern_of_externsFrom {i : Import}
    (h : externsFrom types functions globals tables (pre ++ i :: post) = .ok ds)
    (hi : i.desc.kind ≠ .memory) :
    ∃ d, ds[(withExtern pre).length]? = some d ∧
      d.Declares types i (ofKind functions globals tables i.desc.kind +
        countKind i.desc.kind pre) := by
  obtain ⟨as, bs, rfl, hlength, hbs⟩ := externsFrom_append h
  obtain ⟨own, others, rfl, hown, hdeclares, -⟩ := externsFrom_cons hbs
  have hone : own.length = 1 := by simpa [withExtern, hi] using hown
  obtain ⟨d, rfl⟩ := length_eq_one_iff.mp hone
  refine ⟨d, by simp [hlength], ?_⟩
  have hd := hdeclares d mem_cons_self
  cases hk : i.desc.kind with
  | memory => exact absurd hk hi
  | function | global | table => simpa [hk, ofKind] using hd

end Externs

/-! ## Prototypes and functions -/

/-- Every function has its prototype at its place. -/
lemma exists_prototype_of_prototypesFrom {m : Module} {functions : List Function}
    {ps : List C.Prototype} (h : prototypesFrom m index functions = .ok ps) :
    ps.length = functions.length ∧
      ∀ (k : Nat) (f : Function), functions[k]? = some f → ∃ t, m.types[f.typeIndex]? = some t ∧
        ps[k]? = some ⟨index + k, t, isExported m .function (index + k)⟩ := by
  induction functions generalizing index ps with
  | nil =>
    obtain rfl : [] = ps := by simpa [prototypesFrom] using h
    exact ⟨rfl, by simp⟩
  | cons f functions ih =>
    rw [prototypesFrom] at h
    cases htype : m.types[f.typeIndex]? with
    | none => simp [htype] at h
    | some t =>
      simp only [htype] at h
      obtain ⟨others, hothers, hps⟩ := bind_eq_ok.mp h
      obtain rfl := pure_eq_ok.mp hps
      obtain ⟨hlen, hat⟩ := ih hothers
      refine ⟨by simp [hlen], fun k g hg => ?_⟩
      cases k with
      | zero =>
        obtain rfl : f = g := by simpa using hg
        exact ⟨t, htype, rfl⟩
      | succ k =>
        obtain ⟨t', htype', hp⟩ := hat k g (by simpa using hg)
        exact ⟨t', htype', by simpa [Nat.add_assoc, Nat.add_comm 1 k] using hp⟩

/-- Every function is rebuilt, and stands at its place. -/
lemma exists_function_of_rebuildFrom {m : Module} {n pos : Nat}
    {fs : List C.FunctionDef} (h : (rebuildFrom m n pos).outcome = .ok fs) :
    fs.length = n ∧ ∀ k < n, ∃ f, fs[k]? = some f ∧
      (rebuildFunction m (pos + k)).outcome = .ok f := by
  induction n generalizing pos fs with
  | zero =>
    obtain rfl : [] = fs := by simpa [rebuildFrom] using h
    exact ⟨rfl, by simp⟩
  | succ n ih =>
    simp only [rebuildFrom, Traced.outcome_bind_eq_ok, Traced.outcome_pure, Except.ok.injEq] at h
    obtain ⟨f, hf, others, hothers, rfl⟩ := h
    obtain ⟨hlen, hat⟩ := ih hothers
    refine ⟨by simp [hlen], fun k hk => ?_⟩
    cases k with
    | zero => exact ⟨f, rfl, hf⟩
    | succ k =>
      obtain ⟨g, hg, hrebuilt⟩ := hat k (by omega)
      exact ⟨g, by simpa using hg, by rwa [Nat.add_assoc, Nat.add_comm 1 k] at hrebuilt⟩

/-! ## Units -/

/-- The parts of the unit of a module. -/
structure Assembled (m : Module) (o : Options) (u : C.CompilationUnit) : Prop where
  /-- Its symbols. -/
  symbols : ∃ w, C.Symbols.allot m o = .ok (u.symbols, w)
  /-- Its externs. -/
  externs : externs m = .ok u.externs
  /-- Its fields. -/
  fields : u.fields = fields m
  /-- Its prototypes. -/
  prototypes : prototypes m = .ok u.prototypes
  /-- The steps of its initializer. -/
  initializer : (initializer m o).outcome = .ok u.initializer
  /-- Its functions. -/
  functions : (rebuildFrom m m.functions.length 0).outcome = .ok u.functions

lemma assembled_of_assemble {m : Module} {o : Options} {u : C.CompilationUnit}
    (h : (assemble m o).outcome = .ok u) : Assembled m o u := by
  simp only [assemble, Traced.outcome_bind_eq_ok, Traced.outcome_pure, Except.ok.injEq] at h
  obtain ⟨⟨s, w⟩, hallot, _, -, ds, hds, ps, hps, steps, hsteps, fs, hfs, _, -, rfl⟩ := h
  exact ⟨⟨w, hallot⟩, hds, rfl, hps, hsteps, hfs⟩

/-! ## Places of imports -/

/-- What stands at a place of a filtered list stands behind as many that pass the filter. -/
lemma exists_split_of_filter {α : Type} {q : α → Bool} {items : List α} {a : α}
    (h : (items.filter q)[index]? = some a) :
    ∃ pre post, items = pre ++ a :: post ∧ (pre.filter q).length = index ∧ q a = true := by
  induction items generalizing index with
  | nil => simp at h
  | cons b items ih =>
    by_cases hb : q b = true
    · rw [filter_cons_of_pos hb] at h
      cases index with
      | zero =>
        obtain rfl : b = a := by simpa using h
        exact ⟨[], items, rfl, rfl, hb⟩
      | succ index =>
        obtain ⟨pre, post, rfl, hcount, ha⟩ := ih (by simpa using h)
        exact ⟨b :: pre, post, rfl, by simpa [hb] using hcount, ha⟩
    · rw [filter_cons_of_neg hb] at h
      obtain ⟨pre, post, rfl, hcount, ha⟩ := ih h
      exact ⟨b :: pre, post, rfl, by simpa [hb] using hcount, ha⟩

/-- An import of a kind stands behind as many of its kind as its index says. -/
lemma exists_split_of_importsOf {m : Module} {kind : ExternKind} {i : Import}
    (h : (m.importsOf kind)[index]? = some i) :
    ∃ pre post, m.imports = pre ++ i :: post ∧ countKind kind pre = index ∧ i.desc.kind = kind := by
  obtain ⟨pre, post, himports, hcount, hk⟩ := exists_split_of_filter h
  exact ⟨pre, post, himports, hcount, by simpa using hk⟩

lemma getElem?_importsOf {m : Module} {i : Import} (h : m.imports = pre ++ i :: post) :
    (m.importsOf i.desc.kind)[countKind i.desc.kind pre]? = some i := by
  rw [importsOf, h, filter_append, filter_cons_of_pos (by simp), countKind]
  simp

/-- The module's own tables are those that a segment fills and that are not imported. -/
lemma mem_ownTables {m : Module} {t : Nat} :
    t ∈ ownTables m ↔ m.importedTables ≤ t ∧ t ∈ m.segments.map Segment.table := by
  have hfold (ts found : List Nat) : t ∈ ts.foldl (fun found t =>
        if m.importedTables ≤ t && !found.contains t then found ++ [t] else found) found ↔
      t ∈ found ∨ m.importedTables ≤ t ∧ t ∈ ts := by
    induction ts generalizing found with
    | nil => simp
    | cons s ts ih =>
      rw [foldl_cons, ih]
      by_cases hs : s = t
      · subst hs
        by_cases hown : m.importedTables ≤ s <;> by_cases hfound : s ∈ found <;> simp [hown, hfound]
      · have hadd (c : Bool) : t ∈ (if c then found ++ [s] else found) ↔ t ∈ found := by
          cases c <;> simp [Ne.symm hs]
        rw [hadd, mem_cons, or_iff_right (Ne.symm hs)]
  exact (hfold _ []).trans (or_iff_right not_mem_nil)

/-! ## Imports and indices -/

section Indices

variable {m : Module} (hm : Coherent m) {i : Import}
include hm

/-- The index of an extern stands for its import. -/
lemma import?_of_declares {d : Extern} (himports : m.imports = pre ++ i :: post)
    (hd : d.Declares m.types i (countKind i.desc.kind pre)) : d.entity.import? m = some i := by
  have hi := getElem?_importsOf himports
  have hlt := (List.getElem?_eq_some_iff.mp hi).1
  generalize countKind i.desc.kind pre = index at hd hi hlt
  cases hd with
  | function hdesc =>
    simp only [hdesc, kind] at hi hlt
    rw [Extern.entity, Entity.import?, function?, if_pos (hm.functionCount ▸ hlt), hi]
    rfl
  | global hdesc =>
    simp only [hdesc, kind] at hi hlt
    rw [Extern.entity, Entity.import?, global?, if_pos (hm.globalCount ▸ hlt), hi]
    rfl
  | table hdesc =>
    simp only [hdesc, kind] at hi
    exact hi

/-- What stands for an import has a symbol. -/
lemma mem_entities_of_import? (hx : x.import? m = some i) : x ∈ C.entities m := by
  have hresolved {found : Option Resolved} (h : Entity.ofResolved found = some i) :
      found.isSome = true := by
    cases found with
    | none => cases h
    | some => rfl
  simp only [C.entities, mem_cons, mem_append, mem_map, mem_range]
  cases x with
  | initializer => cases hx
  | function f => exact .inr (.inl ⟨f, lt_of_isSome_resolved (hresolved hx), rfl⟩)
  | global g => exact .inr (.inr (.inl ⟨g, lt_of_isSome_resolved (hresolved hx), rfl⟩))
  | table t =>
    refine .inr (.inr (.inr ⟨t, C.mem_tableIndices.mpr (.inr ?_), rfl⟩))
    rw [hm.tableCount]
    exact (List.getElem?_eq_some_iff.mp hx).1

end Indices

namespace Assembled

variable {m : Module} {o : Options} {u : C.CompilationUnit} (h : Assembled m o u)
include h

/-- Its symbols are those of the module, if the index spaces fit. -/
lemma symbols_eq (hfits : C.Symbols.Fits m) : u.symbols = C.Symbols.ofModule m o := by
  obtain ⟨w, hallot⟩ := h.symbols
  exact C.Symbols.eq_ofModule hfits hallot

/-- As many imports as there are externs get one. -/
lemma length_externs : u.externs.length = (withExtern m.imports).length := by
  have hexterns : externsFrom m.types 0 0 0 (m.imports ++ []) = .ok u.externs := by
    rw [append_nil]
    exact h.externs
  obtain ⟨as, bs, hds, hlength, hbs⟩ := externsFrom_append hexterns
  obtain rfl : [] = bs := by simpa [externsFrom] using hbs
  rw [hds, append_nil, hlength]

/-- **The extern of an import** stands at its place and has its index. -/
theorem exists_extern {i : Import} (himports : m.imports = pre ++ i :: post)
    (hi : i.desc.kind ≠ .memory) :
    ∃ d, u.externs[(withExtern pre).length]? = some d ∧
      d.Declares m.types i (countKind i.desc.kind pre) := by
  have hexterns : externsFrom m.types 0 0 0 (pre ++ i :: post) = .ok u.externs := by
    rw [← himports]
    exact h.externs
  obtain ⟨d, hd, hdeclares⟩ := exists_extern_of_externsFrom hexterns hi
  have hzero : ofKind 0 0 0 i.desc.kind = 0 := by cases i.desc.kind <;> rfl
  rw [hzero, Nat.zero_add] at hdeclares
  exact ⟨d, hd, hdeclares⟩

/-- Every extern is that of an import. -/
lemma exists_import {d : Extern} (hd : d ∈ u.externs) : ∃ pre i post, m.imports = pre ++ i :: post ∧
      d.Declares m.types i (countKind i.desc.kind pre) := by
  obtain ⟨j, hj⟩ := mem_iff_getElem?.mp hd
  have hlt : j < (withExtern m.imports).length := by
    rw [← h.length_externs]
    exact (List.getElem?_eq_some_iff.mp hj).1
  obtain ⟨pre, post, himports, hcount, hk⟩ :=
    exists_split_of_filter (getElem?_eq_getElem hlt)
  obtain ⟨d', hd', hdeclares⟩ := h.exists_extern himports (by simpa using hk)
  rw [withExtern, hcount, hj] at hd'
  obtain rfl := Option.some.inj hd'
  exact ⟨pre, _, post, himports, hdeclares⟩

/-- **The prototype of a function** stands at its place, and so does its definition, with the same
index, type and storage. -/
theorem exists_prototype {k : Nat} (hk : k < m.functions.length) :
    ∃ p f, u.prototypes[k]? = some p ∧ u.functions[k]? = some f ∧
      (rebuildFunction m k).outcome = .ok f ∧ p.index = m.importedFunctions + k ∧
      f.index = p.index ∧ f.type = p.type ∧ f.isExported = p.isExported := by
  obtain ⟨t, htype, hp⟩ := (exists_prototype_of_prototypesFrom h.prototypes).2 k _
    (getElem?_eq_getElem hk)
  obtain ⟨f, hf, hrebuilt⟩ := (exists_function_of_rebuildFrom h.functions).2 k hk
  rw [Nat.zero_add] at hrebuilt
  obtain ⟨fn, t', r, r1, hbody⟩ := exists_rebuilt hrebuilt
  have hfn : m.functions[k] = fn := by simpa [getElem?_eq_getElem hk] using hbody.function
  have ht : t = t' := by
    rw [hfn, hbody.signature] at htype
    exact (Option.some.inj htype).symm
  exact ⟨_, f, hp, hf, hrebuilt, rfl, hbody.index, hbody.type.trans ht.symm, hbody.exported⟩

/-! ## What is mentioned is declared -/

/-- What stands for an import is declared. -/
lemma declared_of_importsOf {kind : ExternKind} (hindex : index < (m.importsOf kind).length)
    (hk : kind ≠ .memory)
    (hx : ∀ {d : Extern} {i}, d.Declares m.types i index → i.desc.kind = kind → d.entity = x) :
    x ∈ u.declared := by
  obtain ⟨pre, post, himports, hcount, hik⟩ :=
    exists_split_of_importsOf (getElem?_eq_getElem hindex)
  obtain ⟨d, hd, hdeclares⟩ := h.exists_extern himports (by rwa [hik])
  rw [hik, hcount] at hdeclares
  exact mem_append_left _ (mem_map.mpr ⟨d, mem_of_getElem? hd, hx hdeclares hik⟩)

variable (hm : Coherent m)
include hm

/-- Every function of the index space is declared. -/
lemma declared_function {f : Nat} (hf : f < m.importedFunctions + m.functions.length) :
    .function f ∈ u.declared := by
  by_cases himported : f < m.importedFunctions
  · refine h.declared_of_importsOf (hm.functionCount ▸ himported) (by decide) fun hd hk => ?_
    cases hd with
    | function => rfl
    | global hdesc | table hdesc => simp [hdesc, kind] at hk
  · obtain ⟨p, g, hp, -, -, hindex, -⟩ :=
      h.exists_prototype (k := f - m.importedFunctions) (by omega)
    have hf' : p.index = f := by omega
    exact mem_append_right _ (mem_append_right _ (mem_map.mpr ⟨p, mem_of_getElem? hp, by rw [hf']⟩))

/-- Every global of the index space is declared. -/
lemma declared_global {g : Nat} (hg : g < m.importedGlobals + m.globals.length) :
    .global g ∈ u.declared := by
  by_cases himported : g < m.importedGlobals
  · refine h.declared_of_importsOf (hm.globalCount ▸ himported) (by decide) fun hd hk => ?_
    cases hd with
    | global => rfl
    | function hdesc | table hdesc => simp [hdesc, kind] at hk
  · have hfield : C.Field.global g (m.globals[g - m.importedGlobals]).type.content
        (isExported m .global g) ∈ u.fields := by
      rw [h.fields]
      refine mem_append_left _ (mem_mapIdx.mpr ⟨g - m.importedGlobals, by omega, ?_⟩)
      rw [Nat.add_sub_cancel' (Nat.le_of_not_lt himported)]
    exact mem_append_right _ (mem_append_left _ (mem_map.mpr ⟨_, hfield, rfl⟩))

/-- Every table that a segment fills is declared. -/
lemma declared_table {s : Segment} (hs : s ∈ m.segments) : .table s.table ∈ u.declared := by
  by_cases himported : s.table < m.importedTables
  · refine h.declared_of_importsOf (hm.tableCount ▸ himported) (by decide) fun hd hk => ?_
    cases hd with
    | table => rfl
    | function hdesc | global hdesc => simp [hdesc, kind] at hk
  · have hown : s.table ∈ ownTables m :=
      mem_ownTables.mpr ⟨Nat.le_of_not_lt himported, mem_map_of_mem hs⟩
    have hfield : C.Field.table s.table (isExported m .table s.table) ∈ u.fields := by
      rw [h.fields]
      exact mem_append_right _ (mem_map_of_mem hown)
    exact mem_append_right _ (mem_append_left _ (mem_map.mpr ⟨_, hfield, rfl⟩))

/-- What has a type in the module is declared. -/
lemma declared_of_types (hbodies : m.functions.length = m.signatures.length) (hx : m.Types x) :
    x ∈ u.declared := by
  cases x with
  | function f =>
    refine h.declared_function hm ?_
    rw [Types, functionType?, function?] at hx
    by_contra hf
    rw [if_neg (by omega), if_neg (by omega)] at hx
    cases hx
  | global g =>
    refine h.declared_global hm ?_
    rw [Types, globalType?, global?] at hx
    by_contra hg
    rw [if_neg (by omega), if_neg (by omega)] at hx
    cases hx
  | initializer | table => exact hx.elim

/-- **What a function mentions is declared**: itself, and what its body mentions. -/
theorem declared_of_mem_function (hbodies : m.functions.length = m.signatures.length)
    {f : C.FunctionDef} (hf : f ∈ u.functions) (hx : x ∈ f.mentions) : x ∈ u.declared := by
  obtain ⟨k, hk⟩ := mem_iff_getElem?.mp hf
  have hlt : k < m.functions.length := by
    rw [← (exists_function_of_rebuildFrom h.functions).1]
    exact (List.getElem?_eq_some_iff.mp hk).1
  obtain ⟨p, g, hp, hg, hrebuilt, hindex, hgindex, -⟩ := h.exists_prototype hlt
  obtain rfl : g = f := Option.some.inj (hg.symm.trans hk)
  rcases mem_cons.mp hx with rfl | hx
  · refine h.declared_function hm ?_
    omega
  · obtain ⟨fn, t, r, r1, hbody⟩ := exists_rebuilt hrebuilt
    exact h.declared_of_types hm hbodies (hbody.types_of_mem_mentions hx)

/-- The value of an initializer mentions a global that is declared. -/
lemma declared_of_mem_initExpr {i : Instruction} {visible : Nat}
    (hi : i.initializes visible = true) (hvisible : visible ≤ m.importedGlobals + m.globals.length)
    {e : C.InitExpr} (he : initExpr i = .ok e) (hx : x ∈ e.mentions) : x ∈ u.declared := by
  cases e with
  | const => cases hx
  | global g =>
    obtain rfl := mem_singleton.mp hx
    have hg := lt_of_mem_reads hi he mem_cons_self
    exact h.declared_global hm (by omega)

/-- **What the initializer mentions is declared.** -/
theorem declared_of_mem_initializer (hbodies : m.functions.length = m.signatures.length)
    (hx : x ∈ u.initializer.flatMap C.InitStep.mentions) : x ∈ u.declared := by
  have hsetsUp := setsUp_of_initializer hm h.initializer
  generalize u.initializer = steps at hsetsUp hx
  obtain ⟨hbase, hglobals, htables, hhook⟩ := hsetsUp
  obtain ⟨step, hstep, hx⟩ := mem_flatMap.mp hx
  rw [mem_cons, mem_append, mem_append, mem_append] at hstep
  rcases hstep with rfl | hstep | hstep | hstep | hstep
  · cases hx
  · rcases hbase with rfl | ⟨g, hg, rfl⟩
    · cases hstep
    · obtain rfl := mem_singleton.mp hstep
      obtain rfl := mem_singleton.mp hx
      exact h.declared_global hm (by omega)
  · obtain ⟨⟨g, i⟩, hg, e, he, rfl⟩ := exists_of_forall₂ hglobals hstep
    obtain ⟨hle, hg⟩ := mk_mem_zipIdx_iff_le_and_getElem?_sub.mp hg
    have hlt := (List.getElem?_eq_some_iff.mp hg).1
    rcases mem_cons.mp hx with rfl | hx
    · exact h.declared_global hm (show i < _ by omega)
    · exact h.declared_of_mem_initExpr hm (hm.globals _ g hg).2 (by omega) he hx
  · obtain ⟨s, hs, e, he, rfl⟩ := exists_of_forall₂ htables hstep
    have hs := mem_of_mem_filter hs
    obtain ⟨⟨-, hoffset⟩, hfs⟩ := hm.segments s hs
    rcases mem_cons.mp hx with rfl | hx
    · exact h.declared_table hm hs
    · rcases mem_append.mp hx with hx | hx
      · exact h.declared_of_mem_initExpr hm hoffset le_rfl he hx
      · obtain ⟨f, hf, rfl⟩ := mem_map.mp hx
        exact h.declared_function hm (hbodies ▸ hfs f hf)
  · rcases hhook with rfl | ⟨f, t, rfl, htype, -⟩
    · cases hstep
    · obtain rfl := mem_singleton.mp hstep
      obtain rfl := mem_singleton.mp hx
      exact h.declared_of_types hm hbodies (by simp [Types, htype])

end Assembled

end WasmToC

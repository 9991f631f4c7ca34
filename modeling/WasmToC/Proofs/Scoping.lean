import Mathlib.Data.List.Nodup
import WasmToC.Proofs.Spellings

/-!
# Scopes and types of emitted functions

The head of a function gives its parameters, and the lines below it declare its locals and
temporaries. Its statements have no other names of that form, and use what is declared by its type.

## Main definitions

* `C.FunctionDef.scope` — the parameters, locals and temporaries of a function.
* `C.FunctionDef.IsWellScoped` — a function that declares each of its variables once, and
  uses them by their types.

## Main results

* `C.FunctionDef.nodup_scope` — no two variables have one name.
* `isWellScoped_of_functionText` — every function that is emitted is well scoped.
-/

namespace WasmToC

open List

namespace C

/-- A word with an underscore, such as a symbol, is not spelled like a variable. -/
lemma not_isVariable_of_underscore {cs : List Char} (h : '_' ∈ cs) : isVariable cs = false := by
  cases cs with
  | nil => cases h
  | cons c digits =>
    rcases mem_cons.mp h with rfl | h
    · rfl
    · have hdigits : digits.all Char.isDigit = false := all_eq_false.mpr ⟨'_', h, by decide⟩
      simp [isVariable, hdigits]

namespace FunctionDef

variable (f : FunctionDef) (s : Symbols)

/-- The variables of a function with their types: parameters, locals and temporaries. -/
def scope : List (ValueType × String) :=
  (f.type.params ++ f.locals).zipIdx.map (fun p => (p.1, localName f.type.params.length p.2)) ++
    f.temps.zipIdx.map fun p => (p.1, tempName p.2)

/-- The parameters of a function, as its head gives them. -/
def parameterList : String :=
  if f.type.params.isEmpty then "void"
  else ", ".intercalate ((f.scope.take f.type.params.length).map fun v => v.1.cType ++ " " ++ v.2)

lemma signature_eq_parameterList (name : String) : signature name f.type true =
    (f.type.result.map ValueType.cType).getD "void" ++ " " ++ name ++ "(" ++ f.parameterList ++
    ")" := by
  have hparams : f.type.params.mapIdx (fun i (t : ValueType) => t.cType ++ s!" p{i}") =
      (f.scope.take f.type.params.length).map fun v => v.1.cType ++ " " ++ v.2 := by
    refine ext_getElem (by simp [scope]; omega) fun i hi _ => ?_
    have hlt : i < f.type.params.length := by simpa using hi
    rw [← String.toList_inj]
    simp [scope, localName, hlt, Nat.lt_add_right, toString, Nat.toList_repr]
  simp only [parameterList, signature, if_true, hparams]

/-- Below its head, a definition declares each variable that is no parameter. -/
lemma lines_eq_declarations : f.lines s = (head s f.index f.isExported f.type ++ " \x7b") ::
      (f.scope.drop f.type.params.length).map (fun v => declaration v.1 v.2) ++
      Stmt.allLines (f.naming s) 1 f.body ++ ["\x7d"] := by
  simp [lines, scope, naming, mapIdx_eq_zipIdx_map, zipIdx_append, Function.comp_def]
  exact ext_getElem (by simp) (by simp)

/-- **No two variables have one name.** -/
theorem nodup_scope : (f.scope.map Prod.snd).Nodup := by
  have hnames (ts : List ValueType) {name : Nat → String} (h : Function.Injective name) :
      ((ts.zipIdx.map fun p => (p.1, name p.2)).map Prod.snd).Nodup := by
    have hsnd : (ts.zipIdx.map fun p => (p.1, name p.2)).map Prod.snd =
        (ts.zipIdx.map Prod.snd).map name := by
      rw [map_map, map_map]
      rfl
    rw [hsnd, zipIdx_map_snd]
    exact (nodup_range' 1).map h
  rw [scope, map_append, nodup_append]
  refine ⟨hnames _ fun _ _ => localName_inj, hnames _ fun _ _ => tempName_inj, ?_⟩
  intro x hx y hy
  simp only [map_map, mem_map] at hx hy
  obtain ⟨p, -, rfl⟩ := hx
  obtain ⟨q, -, rfl⟩ := hy
  exact localName_ne_tempName _ p.2 q.2

/-- A function that declares each of its variables once, and uses them by their types. -/
structure IsWellScoped (env : Surroundings) : Prop where
  /-- The head gives the parameters. -/
  parameters : head s f.index f.isExported f.type = storage f.isExported ++
    ((f.type.result.map ValueType.cType).getD "void" ++ " " ++ s.function f.index ++ "(" ++
      f.parameterList ++ ")")
  /-- The lines below it declare the other variables. -/
  declarations : f.lines s = (head s f.index f.isExported f.type ++ " \x7b") ::
    (f.scope.drop f.type.params.length).map (fun v => declaration v.1 v.2) ++
    Stmt.allLines (f.naming s) 1 f.body ++ ["\x7d"]
  /-- A word of a statement that is spelled like a variable is a parameter or is declared, once. -/
  words : ∀ line ∈ Stmt.allLines (f.naming s) 1 f.body, ∀ w ∈ words line,
    isVariable w.toList = true → (f.scope.map Prod.snd).count w = 1
  /-- The types of parameters and locals are those in the declarations. -/
  locals : ∀ i t, env.locals[i]? = some t → (t, localName f.type.params.length i) ∈ f.scope
  /-- So are the types of temporaries. -/
  temps : ∀ i t, f.temps[i]? = some t → (t, tempName i) ∈ f.scope
  /-- What is assigned, passed on and returned has the type that is declared for it. -/
  typed : ∀ line ∈ Stmt.flattenAll f.body, line.WellTyped env f.temps

end FunctionDef

end C

open C

variable {m : Module} {o : Options} {pos : Nat}

namespace Rebuilt

variable {f : FunctionDef} {fn : Function} {t : FuncType} {r r1 : Rebuild}
  (h : Rebuilt m pos f fn t r r1)
include h

/-- A local has the type with which it is declared. -/
lemma local_mem_scope {i : Nat} {type : ValueType} (hi : (t.params ++ fn.locals)[i]? = some type) :
    (type, localName f.type.params.length i) ∈ f.scope := by
  rw [FunctionDef.scope, h.type, h.locals]
  exact mem_append_left _ (mem_map.mpr ⟨(type, i), mk_mem_zipIdx_iff_getElem?.mpr hi, rfl⟩)

omit h in
lemma temp_mem_scope {i : Nat} {type : ValueType} (hi : f.temps[i]? = some type) :
    (type, tempName i) ∈ f.scope :=
  mem_append_right _ (mem_map.mpr ⟨(type, i), mk_mem_zipIdx_iff_getElem?.mpr hi, rfl⟩)

/-- The words of a finished body that are spelled like variables are names of variables. -/
lemma spelled_body : ∀ line ∈ Stmt.allLines (f.naming (Symbols.ofModule m o)) 1 f.body,
    Spelled (fun w => isVariable w.toList = false ∨ w ∈ f.scope.map Prod.snd) line := by
  refine Stmt.spelled_allLines 1 f.body fun line hl part hpart => ?_
  have hscope := (h.wellTyped line hl).inScope part hpart
  have hallotted := Symbols.allotted_ofModule m o
  cases part with
  | var i =>
    exact .inr (mem_map_of_mem (f := Prod.snd) (h.local_mem_scope (getElem?_eq_getElem hscope)))
  | temp i =>
    exact .inr (mem_map_of_mem (f := Prod.snd) (temp_mem_scope (getElem?_eq_getElem hscope)))
  | global i =>
    exact .identifier (hallotted.isIdentifier_global i)
      (.inl (not_isVariable_of_underscore (hallotted.underscore_mem_global i)))
  | call g =>
    exact .identifier (hallotted.isIdentifier_function g)
      (.inl (not_isVariable_of_underscore (hallotted.underscore_mem_function g)))
  | _ => trivial

end Rebuilt

/-- **Every function that is emitted is well scoped and well typed.** -/
theorem isWellScoped_of_functionText {text : String}
    (h : (functionText m (Symbols.ofModule m o) pos).outcome = .ok text) :
    ∃ fn t f, m.functions[pos]? = some fn ∧ m.types[fn.typeIndex]? = some t ∧
      (rebuildFunction m pos).outcome = .ok f ∧ text = f.text (Symbols.ofModule m o) ∧
      f.type = t ∧ f.IsWellScoped (Symbols.ofModule m o)
        (surroundings m (m.importedFunctions + pos) fn t) := by
  obtain ⟨f, hf, htext⟩ := exists_function_of_text h
  obtain ⟨fn, t, r, r1, hrebuilt⟩ := exists_rebuilt hf
  refine ⟨fn, t, f, hrebuilt.function, hrebuilt.signature, hf, htext, hrebuilt.type, ?_⟩
  constructor
  case parameters => exact congrArg _ (f.signature_eq_parameterList _)
  case declarations => exact f.lines_eq_declarations _
  case words =>
    intro line hline w hw hvariable
    refine count_eq_one_of_mem f.nodup_scope ?_
    rcases hrebuilt.spelled_body line hline w hw with ⟨-, hcommon⟩ | hcommon | hmem
    · simp [hvariable] at hcommon
    · simp [hvariable] at hcommon
    · exact hmem
  case locals => exact fun i type => hrebuilt.local_mem_scope
  case temps => exact fun i type => Rebuilt.temp_mem_scope
  case typed => exact hrebuilt.wellTyped

/-- A module with a function that has variables of several types. A branch carries the result of a
block, an operand is kept in a temporary when its local is assigned, and the function calls
itself. -/
def mixedTypes : Module where
  types := [⟨[.i32, .i64], some .i64⟩]
  signatures := [0]
  functions := [ ⟨0, [.f64],
      [⟨.block, .block (some .i64)⟩, ⟨.getLocal, .index 1⟩, ⟨.getLocal, .index 0⟩,
        ⟨.brIf, .depth 0⟩,
        ⟨.drop, .none⟩, ⟨.getLocal, .index 2⟩, ⟨.const .f64, .value (.f64 0)⟩,
        ⟨.setLocal, .index 2⟩, ⟨.setLocal, .index 2⟩, ⟨.getLocal, .index 0⟩, ⟨.getLocal, .index 1⟩,
        ⟨.call, .index 0⟩, ⟨.endOp, .none⟩]⟩]

/-- Its function is well scoped. -/
theorem isWellScoped_mixedTypes :
    ∃ text, (functionText mixedTypes (Symbols.ofModule mixedTypes {}) 0).outcome = .ok text ∧
      ∃ fn t f, mixedTypes.functions[0]? = some fn ∧ mixedTypes.types[fn.typeIndex]? = some t ∧
        (rebuildFunction mixedTypes 0).outcome = .ok f ∧
        text = f.text (Symbols.ofModule mixedTypes {}) ∧ f.type = t ∧
        f.IsWellScoped (Symbols.ofModule mixedTypes {})
          (surroundings mixedTypes (mixedTypes.importedFunctions + 0) fn t) :=
  ⟨_, rfl, isWellScoped_of_functionText rfl⟩

end WasmToC

import WasmToC.Proofs.Building
import WasmToC.Proofs.Distinct

/-!
# What a function body mentions

A body mentions functions by calling them, and globals by reading and assigning them. Its lines are
well typed, so what it names is declared, and everything that it mentions has a type in the module.

## Main definitions

* `C.Expr.mentions`, `C.Line.mentions`, `C.Stmt.mentions` — what
  expressions, lines and statements mention.

## Main results

* `C.Line.WellTyped.inScope` — a well-typed line names what is declared.
* `Rebuilt.wellTyped` — the lines of a finished body are well typed.
* `Rebuilt.types_of_mem_mentions` — what a finished body mentions has a type.
-/

namespace WasmToC

open List

variable {e : C.Expr} {x : C.Entity} {m : Module} {pos : Nat} {f : C.FunctionDef}
  {fn : Function} {t : FuncType} {r r1 : Rebuild}

namespace C

/-! ## Expressions and lines -/

/-- What an expression itself, apart from its operands, mentions. -/
def Expr.named : Expr → List Entity
  | .global i => [.global i]
  | .call f _ => [.function f]
  | _ => []

/-- The functions and globals that an expression mentions. -/
def Expr.mentions (e : Expr) : List Entity := e.parts.flatMap Expr.named

lemma Expr.forall_mentions {P : Entity → Prop} :
    (∀ x ∈ e.mentions, P x) ↔ (∀ x ∈ e.named, P x) ∧ ∀ a ∈ e.operands, ∀ x ∈ a.mentions, P x := by
  simp only [Expr.mentions, forall_mem_flatMap]
  exact Expr.forall_parts

/-- What is mentioned where a place is assigned. -/
def Place.mentions : Place → List Entity
  | .global i => [.global i]
  | _ => []

/-- The functions and globals that a line mentions. -/
def Line.mentions : Line → List Entity
  | .openIf cond => cond.mentions
  | .run (.assign place value) => place.mentions ++ value.mentions
  | .run (.discard value) => value.mentions
  | .run (.call f args) => .function f :: args.flatMap Expr.mentions
  | .run (.store _ addr _ value) => addr.mentions ++ value.mentions
  | .run (.jumpIf cond carried _) =>
    cond.mentions ++ carried.toList.flatMap fun p => p.2.mentions
  | .run (.leave value) => value.toList.flatMap Expr.mentions
  | .run (.leaveIf cond value) => cond.mentions ++ value.toList.flatMap Expr.mentions
  | _ => []

/-- A place as an expression. -/
def Place.expr : Place → Expr
  | .var i => .var i
  | .temp i => .temp i
  | .global i => .global i

/-- What a line itself, apart from its expressions, assigns or calls. -/
def Line.subjects : Line → List Expr
  | .run (.assign place _) => [place.expr]
  | .run (.call f _) => [.call f []]
  | .run (.jumpIf _ carried _) => carried.toList.map fun p => .temp p.1
  | _ => []

/-- The expressions in a line, and everything inside them. -/
def Line.parts (line : Line) : List Expr := (line.subjects ++ line.exprs).flatMap Expr.parts

lemma Line.mem_mentions {line : Line} :
    x ∈ line.mentions ↔ ∃ part ∈ line.parts, x ∈ part.named := by
  have h (es : List Expr) :
      x ∈ es.flatMap Expr.mentions ↔ ∃ part ∈ es.flatMap Expr.parts, x ∈ part.named := by
    simp only [mem_flatMap, Expr.mentions]
    grind
  have hplace (place : Place) : place.expr.mentions = place.mentions := by cases place <;> rfl
  have htemp (i : Nat) : (Expr.temp i).mentions = [] := rfl
  have hcall (f : Nat) : (Expr.call f []).mentions = [.function f] := rfl
  rw [Line.parts, ← h]
  cases line with
  | label | openBlock | openElse | close | openIf => simp [Line.mentions, Line.subjects, Line.exprs]
  | run s =>
    cases s with
    | jumpIf cond carried =>
      cases carried <;> simp [Line.mentions, Line.subjects, Line.exprs, Stmt.exprs, htemp]
    | _ => simp [Line.mentions, Line.subjects, Line.exprs, Stmt.exprs, hplace, hcall]

/-- The functions and globals that statements mention. -/
def Stmt.mentions (ss : List Stmt) : List Entity := (Stmt.flattenAll ss).flatMap Line.mentions

end C

open C (Entity Expr Stmt)

/-- The functions and globals that have a type in a module. -/
def Module.Types (m : Module) : Entity → Prop
  | .function f => (m.functionType? f).isSome = true
  | .global g => (m.globalType? g).isSome = true
  | .initializer | .table _ => False

/-! ## What is well typed -/

variable {env : Surroundings} {temps : List ValueType}

/-- **A well-typed line names what is declared.** -/
theorem C.Line.WellTyped.inScope {line : C.Line} (h : line.WellTyped env temps) :
    ∀ part ∈ line.parts, part.InScope env temps := by
  refine forall_mem_flatMap.mpr (forall_mem_append.mpr ⟨?_, fun e he => ?_⟩)
  · -- a subject has the type that is declared for it
    cases line with
    | label | openBlock | openElse | close | openIf => exact forall_mem_nil _
    | run s =>
      cases s with
      | assign place value =>
        obtain ⟨t, hplace, -⟩ := h
        refine forall_mem_singleton.mpr (Expr.HasType.inScope (t := t) ?_)
        cases place with
        | var => exact .var hplace
        | temp => exact .temp hplace
        | global i =>
          obtain ⟨g, hg, rfl⟩ := Option.map_eq_some_iff.mp hplace
          exact .global hg
      | call f args =>
        obtain ⟨t, hf, -⟩ := h
        exact forall_mem_singleton.mpr
          (Expr.forall_parts.mpr ⟨by simp [Expr.InScope, hf], forall_mem_nil _⟩)
      | jumpIf cond carried label =>
        refine forall_mem_map.mpr fun p hp => ?_
        obtain ⟨t, ht, -⟩ := h.2 p (by simpa using hp)
        exact (Expr.HasType.temp ht).inScope
      | discard | store | leave | leaveIf | trap | jump | block | loop | onlyIf | ifElse =>
        exact forall_mem_nil _
  · obtain ⟨t, ht⟩ := h.exprs e he
    exact ht.inScope

/-- The lines of a finished body are well typed, with the temporaries that the function declares. -/
lemma Rebuilt.wellTyped (h : Rebuilt m pos f fn t r r1) : ∀ line ∈ Stmt.flattenAll f.body,
      line.WellTyped (surroundings m (m.importedFunctions + pos) fn t) f.temps := by
  intro line hl
  have hbuilt := (Rebuild.allBuilt_of_run h.run).finishes h.finishes
  rw [h.body] at hl
  refine (hbuilt.sound f.temps (h.temps ▸ prefix_rfl) line ?_).typed
  rw [Rebuild.lines_eq]
  exact mem_append_right _ hl

/-- **Everything that a finished body mentions has a type in the module.** -/
theorem Rebuilt.types_of_mem_mentions (h : Rebuilt m pos f fn t r r1)
    (hx : x ∈ Stmt.mentions f.body) : m.Types x := by
  obtain ⟨line, hline, hx⟩ := mem_flatMap.mp hx
  obtain ⟨part, hpart, hx⟩ := C.Line.mem_mentions.mp hx
  have hscope := (h.wellTyped line hline).inScope part hpart
  cases part with
  | global | call =>
    rw [mem_singleton.mp hx]
    exact hscope
  | _ => cases hx

end WasmToC

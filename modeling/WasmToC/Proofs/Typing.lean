import WasmToC.Proofs.Evaluation
import WasmToC.Proofs.Spilling

/-!
# The types of expressions and lines

A function declares its parameters, locals and temporaries, each with a type, and the module gives
types to functions and globals. By these, expressions have types, and a line is well typed if what
it assigns, passes on or returns has the type that is declared for it.

## Main definitions

* `C.Expr.HasType` — the type of an expression.
* `C.Expr.InScope` — an expression that names what is declared.
* `C.Line.WellTyped` — a line in which every expression has the type that it needs.
-/

namespace WasmToC.C

variable {env : Surroundings} {temps temps' : List ValueType}

/-- The type of an expression in a function whose temporaries have the given types. -/
inductive Expr.HasType (env : Surroundings) (temps : List ValueType) : Expr → ValueType → Prop
  /-- A constant. -/
  | const (v : Value) : HasType env temps (.const v) v.type
  /-- A zero. -/
  | zero (t : ValueType) : HasType env temps (.zero t) t
  /-- A parameter or local. -/
  | var {i : Nat} {t : ValueType} (h : env.locals[i]? = some t) : HasType env temps (.var i) t
  /-- A temporary. -/
  | temp {i : Nat} {t : ValueType} (h : temps[i]? = some t) : HasType env temps (.temp i) t
  /-- A global. -/
  | global {i : Nat} {g : GlobalType} (h : env.inModule.globalType? i = some g) :
      HasType env temps (.global i) g.content
  /-- The memory size. -/
  | memorySize : HasType env temps .memorySize .i32
  /-- Growing the memory. -/
  | memoryGrow {delta : Expr} (h : HasType env temps delta .i32) :
      HasType env temps (.memoryGrow delta) .i32
  /-- A load. -/
  | load (op : Load) {addr : Expr} (off : Nat) (h : HasType env temps addr .i32) :
      HasType env temps (.load op addr off) op.type
  /-- A call passes as many arguments as there are parameters, each of the parameter's type. -/
  | call {f : Nat} {args : List Expr} {t : FuncType} {result : ValueType}
      (hf : env.inModule.functionType? f = some t) (hres : t.result = some result)
      (hcount : args.length = t.params.length)
      (hargs : ∀ p ∈ args.zip t.params, HasType env temps p.1 p.2) :
      HasType env temps (.call f args) result
  /-- A numeric instruction. -/
  | numeric {op : Numeric} {args : List Expr} (hcount : args.length = op.shape.arity)
      (hargs : ∀ a ∈ args, HasType env temps a op.shape.operand) :
      HasType env temps (.numeric op args) op.shape.result
  /-- A choice between values of one type. -/
  | choose {cond yes no : Expr} {t : ValueType}
      (hcond : HasType env temps cond .i32) (hyes : HasType env temps yes t)
      (hno : HasType env temps no t) : HasType env temps (.choose cond yes no) t

/-- Temporaries that are declared later do not matter. -/
lemma Expr.HasType.mono {e : Expr} {t : ValueType} (h : e.HasType env temps t)
    (hle : temps <+: temps') : e.HasType env temps' t := by
  induction h with
  | const v => exact .const v
  | zero t => exact .zero t
  | var h => exact .var h
  | temp h => exact .temp (Rebuild.getElem?_of_prefix hle h)
  | global h => exact .global h
  | memorySize => exact .memorySize
  | memoryGrow _ ih => exact .memoryGrow ih
  | load op off _ ih => exact .load op off ih
  | call hf hres hn _ ih => exact .call hf hres hn ih
  | numeric hn _ ih => exact .numeric hn ih
  | choose _ _ _ ihcondition ihyes ihno => exact .choose ihcondition ihyes ihno

/-- Arguments for parameters of given types: there are as many, and each has the type of its
parameter. -/
def Expr.HaveTypes (env : Surroundings) (temps : List ValueType) (args : List Expr)
    (ts : List ValueType) : Prop :=
  args.length = ts.length ∧ ∀ p ∈ args.zip ts, p.1.HasType env temps p.2

/-- Every argument is for a parameter. -/
lemma Expr.exists_mem_zip {args : List Expr} {types : List ValueType}
    (hn : args.length = types.length) {a : Expr} (ha : a ∈ args) :
    ∃ t, (a, t) ∈ args.zip types := by
  rw [← List.map_fst_zip (Nat.le_of_eq hn), List.mem_map] at ha
  obtain ⟨⟨e, t⟩, hp, rfl⟩ := ha
  exact ⟨t, hp⟩

/-- Whether what an expression itself, apart from its operands, names is declared. -/
def Expr.InScope (env : Surroundings) (temps : List ValueType) : Expr → Prop
  | .var i => i < env.locals.length
  | .temp i => i < temps.length
  | .global i => (env.inModule.globalType? i).isSome = true
  | .call f _ => (env.inModule.functionType? f).isSome = true
  | _ => True

/-- A typed expression names what is declared. -/
lemma Expr.HasType.inScope {e : Expr} {t : ValueType} (h : e.HasType env temps t) :
    ∀ part ∈ e.parts, part.InScope env temps := by
  induction h with
  | const | zero | memorySize => exact Expr.forall_parts.mpr ⟨trivial, List.forall_mem_nil _⟩
  | var h | temp h =>
    exact Expr.forall_parts.mpr ⟨(List.getElem?_eq_some_iff.mp h).1, List.forall_mem_nil _⟩
  | global h =>
    exact Expr.forall_parts.mpr ⟨by simp [Expr.InScope, h], List.forall_mem_nil _⟩
  | memoryGrow _ ih | load _ _ _ ih =>
    exact Expr.forall_parts.mpr ⟨trivial, List.forall_mem_singleton.mpr ih⟩
  | call hf _ hn _ ih =>
    refine Expr.forall_parts.mpr ⟨by simp [Expr.InScope, hf], fun a ha => ?_⟩
    obtain ⟨t, ht⟩ := Expr.exists_mem_zip hn ha
    exact ih _ ht
  | numeric _ _ ih => exact Expr.forall_parts.mpr ⟨trivial, ih⟩
  | choose _ _ _ ihcondition ihyes ihno =>
    refine Expr.forall_parts.mpr ⟨trivial, ?_⟩
    simp only [Expr.operands, List.forall_mem_cons]
    exact ⟨ihcondition, ihyes, ihno, List.forall_mem_nil _⟩

/-- Operands that have the types that are recorded with them. -/
lemma Expr.haveTypes_map {args : List Pending} {types : List ValueType}
    (hts : args.map Pending.type = types)
    (hargs : ∀ a ∈ args, a.expr.HasType env temps a.type) :
    HaveTypes env temps (args.map Pending.expr) types := by
  subst hts
  refine ⟨by simp, fun p hp => ?_⟩
  rw [List.zip_map', List.mem_map] at hp
  obtain ⟨a, ha, rfl⟩ := hp
  exact hargs a ha

/-- The type that is declared for what can be assigned. -/
def Place.type? (env : Surroundings) (temps : List ValueType) : Place → Option ValueType
  | .var i => env.locals[i]?
  | .temp i => temps[i]?
  | .global i => (env.inModule.globalType? i).map GlobalType.content

/-- Whether a function returns the value that its type says, if any. -/
def Returns (env : Surroundings) (temps : List ValueType) : Option Expr → Prop
  | none => env.type.result = none
  | some e => ∃ t, env.type.result = some t ∧ e.HasType env temps t

/-- Whether every expression in a line has the type that it needs there. -/
def Line.WellTyped (env : Surroundings) (temps : List ValueType) : Line → Prop
  | .openIf cond => cond.HasType env temps .i32
  | .run (.assign place value) =>
    ∃ t, place.type? env temps = some t ∧ value.HasType env temps t
  | .run (.discard value) => ∃ t, value.HasType env temps t
  | .run (.call f args) => ∃ t, env.inModule.functionType? f = some t ∧ t.result = none ∧
      Expr.HaveTypes env temps args t.params
  | .run (.store op addr _ value) =>
    addr.HasType env temps .i32 ∧ value.HasType env temps op.type
  | .run (.jumpIf cond carried _) => cond.HasType env temps .i32 ∧
      ∀ p ∈ carried, ∃ t, temps[p.1]? = some t ∧ p.2.HasType env temps t
  | .run (.leave value) => Returns env temps value
  | .run (.leaveIf cond value) =>
    cond.HasType env temps .i32 ∧ Returns env temps value
  | _ => True

end WasmToC.C

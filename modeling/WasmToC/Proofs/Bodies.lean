import WasmToC.Proofs.Nesting

/-!
# Whole functions

What is known of a function once it has been rebuilt: its body was reconstructed from the first
instruction to the last, and every construct has been closed.

## Main definitions

* `Rebuild.Finishes` — the end of a body.
* `Rebuilt` — a function together with the reconstruction of its body.

## Main results

* `exists_rebuilt` — every function that is rebuilt has such a reconstruction.
-/

namespace WasmToC

open C (Stmt)

namespace Rebuild

variable {env : Surroundings} {r r1 : Rebuild}

/-- The end of a body. -/
inductive Finishes (env : Surroundings) (r : Rebuild) : Rebuild → Prop
  /-- The end cannot be reached. -/
  | unreached (hdead : r.reach = .dead 0) : Finishes env r r
  /-- The operand that is left is returned. -/
  | value {t : ValueType} {v : Pending} (hlive : r.reach = .live)
      (hres : env.type.result = some t) (hvs : r.scope.values = [v])
      (htyped : v.type = t) :
      Finishes env r ((r.withValues []).emit (.leave (some v.expr)))
  /-- There is no result. -/
  | plain (hlive : r.reach = .live) (hres : env.type.result = none)
      (hvs : r.scope.values = []) : Finishes env r r

/-- A body ends outside of all constructs. -/
lemma finishes_of_finish (h : r.finish env = .ok r1) :
    r.openConstructs = 0 ∧ Finishes env r r1 := by
  unfold finish at h
  dsimp only at h
  split at h
  · cases h
  · rename_i hopen
    have hopen : r.openConstructs = 0 := by simpa using hopen
    refine ⟨hopen, ?_⟩
    split at h
    · rename_i hd
      cases h
      cases hr : r.reach with
      | live => simp [hr, Reach.isLive] at hd
      | dead nested =>
        rw [openConstructs, hr] at hopen
        obtain rfl : nested = 0 := by simp only at hopen; omega
        exact .unreached hr
    · rename_i hl
      have hl : r.reach = .live := by
        cases hr : r.reach with
        | live => rfl
        | dead nested => simp [hr, Reach.isLive] at hl
      split at h
      · rename_i t hres
        split at h
        · cases h
        · rename_i hfound
          simp only [bind_eq_ok, Prod.exists, popTyped_eq_ok, pure_eq_ok] at h
          obtain ⟨v, _, ⟨vs, hv, ht, rfl⟩, rfl⟩ := h
          have hnil : vs = [] := by
            rw [hv] at hfound
            simpa using hfound
          subst hnil
          exact .value hl hres hv ht
      · rename_i hres
        split at h
        · cases h
        · rename_i hfound
          cases h
          exact .plain hl hres (by simpa using hfound)

lemma Finishes.grows (h : Finishes env r r1) : ∃ ss, Grows r r1 ss := by
  cases h with
  | unreached | plain => exact ⟨_, .refl r⟩
  | value => exact ⟨_, (grows_withValues []).trans (grows_emit _)⟩

end Rebuild

open Rebuild

/-- A function that has been rebuilt, and the reconstruction of its body. -/
structure Rebuilt (m : Module) (pos : Nat) (f : C.FunctionDef) (fn : Function) (t : FuncType)
    (r r1 : Rebuild) : Prop where
  /-- The function is one of the module's own. -/
  function : m.functions[pos]? = some fn
  /-- Its type is known. -/
  signature : m.types[fn.typeIndex]? = some t
  /-- Its body has been read. -/
  run : (Rebuild.run (surroundings m (m.importedFunctions + pos) fn t) fn.code {}).outcome = .ok r
  /-- All constructs of its body have been closed. -/
  closed : r.openConstructs = 0
  /-- The end of the body has been reached. -/
  finishes : Finishes (surroundings m (m.importedFunctions + pos) fn t) r r1
  /-- The C function has the index of the function. -/
  index : f.index = m.importedFunctions + pos
  /-- It is exported if the function is. -/
  exported : f.isExported = (m.exportName? .function (m.importedFunctions + pos)).isSome
  /-- It has the same type. -/
  type : f.type = t
  /-- It has the same locals. -/
  locals : f.locals = fn.locals
  /-- It declares all temporaries. -/
  temps : f.temps = r1.temps.toList
  /-- It has the statements that were emitted. -/
  body : f.body = r1.scope.code.toList

/-- **Every function that is rebuilt has a reconstruction.** -/
theorem exists_rebuilt {m : Module} {pos : Nat} {f : C.FunctionDef}
    (h : (rebuildFunction m pos).outcome = .ok f) :
    ∃ fn t r r1, Rebuilt m pos f fn t r r1 := by
  unfold rebuildFunction at h
  cases hfn : m.functions[pos]? with
  | none => simp [hfn, Traced.ofExcept] at h
  | some fn =>
    simp only [hfn] at h
    cases ht : m.types[fn.typeIndex]? with
    | none => simp [ht, Traced.fail] at h
    | some t =>
      have hlift : ∀ x : Except Failure Rebuild, (liftM x : Traced Rebuild).outcome = x :=
        fun _ => rfl
      have hbind : ∀ {α β : Type} (x : Except Failure α) (k : α → Except Failure β),
          x.bind k = x >>= k := fun _ _ => rfl
      simp only [ht, rebuildBody, Traced.outcome_bind, Traced.outcome_note, Traced.outcome_pure,
        hlift, hbind, bind_eq_ok, Except.ok.injEq] at h
      obtain ⟨r, hrun, r1, hfinish, _, -, rfl⟩ := h
      obtain ⟨hopen, hfin⟩ := finishes_of_finish hfinish
      exact ⟨fn, t, r, r1, hfn, ht, hrun, hopen, hfin, rfl, rfl, rfl, rfl, rfl, rfl⟩

/-- The text of a function is that of its definition. -/
lemma exists_function_of_text {m : Module} {s : C.Symbols} {pos : Nat} {text : String}
    (h : (functionText m s pos).outcome = .ok text) :
    ∃ f, (rebuildFunction m pos).outcome = .ok f ∧ text = f.text s := by
  simp only [functionText, Traced.outcome_bind] at h
  cases hf : (rebuildFunction m pos).outcome with
  | error e =>
    rw [hf] at h
    cases h
  | ok f =>
    rw [hf] at h
    exact ⟨f, rfl, (Except.ok.inj h).symm⟩

namespace Rebuilt

variable {m : Module} {pos : Nat} {f : C.FunctionDef} {fn : Function} {t : FuncType}
  {r r1 : Rebuild} (h : Rebuilt m pos f fn t r r1)
include h

/-- Its body has been passed. -/
lemma passes : Passes (surroundings m (m.importedFunctions + pos) fn t)
    (keepsLoads (surroundings m (m.importedFunctions + pos) fn t) fn.code {} = true) fn.code {} r :=
  passes_of_run h.run h.closed

/-- The statements of the body were emitted one after the other. -/
lemma grows : Grows {} r1 f.body := by
  obtain ⟨ss, hss⟩ := h.passes.grows
  obtain ⟨ts, hts⟩ := h.finishes.grows
  have hg := hss.trans hts
  have hbody : f.body = ss ++ ts := by
    rw [h.body, hg.code]
    rfl
  rwa [hbody]

lemma constructs : r1.constructs = [] := List.eq_nil_of_length_eq_zero h.grows.length

end Rebuilt

end WasmToC

import Mathlib.Tactic.Lemma
import WasmToC.Reconstruct.Function

/-!
# What reconstruction takes from its surroundings

An instruction looks up types in the module around it, and nothing else there. So a body is rebuilt
alike in any two modules that have the same types.

## Main definitions

* `Surroundings.SameTypes` — surroundings in which instructions find the same types.

## Main results

* `Rebuild.step_congr`, `Rebuild.run_congr` — one instruction, and a body, in
  surroundings with the same types.
-/

namespace WasmToC

/-- Surroundings of one function in which instructions find the same types. -/
structure Surroundings.SameTypes (env env' : Surroundings) : Prop where
  /-- The function has the same index. -/
  index : env.index = env'.index
  /-- It has the same type. -/
  type : env.type = env'.type
  /-- It has the same locals. -/
  locals : env.locals = env'.locals
  /-- The modules have the same types. -/
  types : env.inModule.types = env'.inModule.types
  /-- Their functions have the same types. -/
  functions : ∀ f, env.inModule.functionType? f = env'.inModule.functionType? f
  /-- Their globals have the same types. -/
  globals : ∀ g, env.inModule.globalType? g = env'.inModule.globalType? g

namespace Rebuild

variable {env env' : Surroundings} (h : env.SameTypes env')
include h

/-- The operands that are taken do not depend on the module. -/
lemma popEach_congr (op : Opcode) (ts : List ValueType) (taken : List Pending) (r : Rebuild) :
    popEach ⟨env, op⟩ ts taken r = popEach ⟨env', op⟩ ts taken r := by
  obtain ⟨m, index, type, locals⟩ := env
  obtain ⟨m', index', type', locals'⟩ := env'
  obtain ⟨rfl, rfl, rfl, -⟩ := h
  induction ts generalizing taken r with
  | nil => rfl
  | cons t ts ih =>
    rw [popEach, popEach]
    simp only [ih]
    rfl

/-- What an instruction takes from the module are types. -/
lemma stepLive_congr (op : Opcode) (imm : Immediate) (r : Rebuild) :
    r.stepLive ⟨env, op⟩ imm = r.stepLive ⟨env', op⟩ imm := by
  have hpop := popEach_congr h
  obtain ⟨m, index, type, locals⟩ := env
  obtain ⟨m', index', type', locals'⟩ := env'
  obtain ⟨rfl, rfl, rfl, htypes, hfunctions, hgs⟩ := h
  replace htypes : m.types = m'.types := htypes
  cases op with
  | call =>
    simp only [stepLive, call, popArgs, hpop, hfunctions]
    rfl
  | callIndirect =>
    simp only [stepLive, callIndirect, popArgs, hpop, htypes]
    rfl
  | numeric op =>
    simp only [stepLive, numeric, popArgs, hpop]
    rfl
  | getGlobal =>
    simp only [stepLive, hgs]
    rfl
  | setGlobal =>
    simp only [stepLive, assignGlobal, hgs]
    rfl
  | _ => rfl

/-- **One instruction** does the same in surroundings with the same types. -/
theorem step_congr (i : Instruction) (r : Rebuild) : r.step env i = r.step env' i := by
  unfold step
  split
  · exact stepLive_congr h i.op i.imm r
  · obtain ⟨m, index, type, locals⟩ := env
    obtain ⟨m', index', type', locals'⟩ := env'
    obtain ⟨rfl, rfl, rfl, -⟩ := h
    rfl

/-- **So do all instructions** of a body. -/
theorem run_congr (code : List Instruction) (r : Rebuild) : run env code r = run env' code r := by
  induction code generalizing r with
  | nil => rfl
  | cons i rest ih => simp only [run, step_congr h, ih, h.index]

end Rebuild

end WasmToC

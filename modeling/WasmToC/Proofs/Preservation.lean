import WasmToC.Proofs.Constructs
import WasmToC.Proofs.Skeleton

/-!
# Functions mean what they meant

A function that is rebuilt does what its WebAssembly body does: whenever a run of the body ends
without a trap, every run of the C function, in whatever order it evaluates operands, ends with the
same result, after the same calls, stores and assignments of globals in the same order, and leaves
the same memory and globals.

Indirect calls are the exception. The C code for one evaluates the operands and traps, whatever
the table holds, so a host on which an indirect call comes back tells the two apart.

## Main results

* `eventually_returned_of_invoke` — a function that is rebuilt does what its body does, where
  indirect calls trap.
* `indirect_call_lost` — where they do not, it need not.
-/

namespace WasmToC

open List
open C (Stmt Frame Line Config tempName localName)

/-! ## Variables -/

section Variables

variable {α : Type}

/-- The value listed for a numbered name. -/
lemma lookup_mapIdx (name : Nat → String) (hname : ∀ i j, name i = name j → i = j)
    (g : α → Value) (xs : List α) (j : Nat) :
    (xs.mapIdx fun i x => (name i, g x)).lookup (name j) = xs[j]?.map g := by
  induction xs generalizing name j with
  | nil => rfl
  | cons x xs ih =>
    rw [mapIdx_cons, lookup_cons]
    cases j with
    | zero => simp
    | succ j =>
      have hne : (name (j + 1) == name 0) = false := by
        simpa using fun h => Nat.succ_ne_zero j (hname _ _ h)
      rw [hne]
      exact ih _ (fun i k h => Nat.succ.inj (hname _ _ h)) j

/-- No value is listed for another name. -/
lemma lookup_mapIdx_eq_none {entry : Nat → α → String × Value} {y : String}
    (hentry : ∀ i x, (entry i x).1 ≠ y) (xs : List α) : (xs.mapIdx entry).lookup y = none := by
  induction xs generalizing entry with
  | nil => rfl
  | cons x xs ih =>
    have hne : (y == (entry 0 x).1) = false := by simpa using (hentry 0 x).symm
    rw [mapIdx_cons, lookup_cons, hne]
    exact ih fun i => hentry (i + 1)

end Variables

namespace C.FunctionDef

variable (f : FunctionDef) {args : List Value}

/-- The value that a variable starts with. -/
lemma lookup_bindings (x : String) : (f.bindings args).lookup x =
    (((args.mapIdx fun i v => (localName f.type.params.length i, v)).lookup x).or
      ((f.locals.mapIdx fun i t =>
        (localName f.type.params.length (f.type.params.length + i), t.zero)).lookup x)).or
      ((f.temps.mapIdx fun i t => (tempName i, t.zero)).lookup x) := by
  rw [bindings, lookup_append, lookup_append]

/-- Parameters start as the arguments, locals with zero. -/
lemma lookup_local (hargs : args.length = f.type.params.length) (i : Nat) :
    (f.bindings args).lookup (localName f.type.params.length i) =
      (args ++ f.locals.map ValueType.zero)[i]? := by
  have hparams := lookup_mapIdx (localName f.type.params.length) (fun _ _ => localName_inj)
    (fun v => v) args i
  simp only [Option.map_id_fun', id] at hparams
  rw [lookup_bindings, hparams, lookup_mapIdx_eq_none (fun j _ =>
    (localName_ne_tempName _ _ _).symm) f.temps, Option.or_none]
  by_cases hi : i < args.length
  · rw [getElem?_append_left hi, getElem?_eq_getElem hi]
    rfl
  · have hle : f.type.params.length ≤ i := by omega
    have hlocals := lookup_mapIdx
      (fun j => localName f.type.params.length (f.type.params.length + j))
      (fun _ _ h => Nat.add_left_cancel (localName_inj h)) ValueType.zero f.locals
      (i - f.type.params.length)
    rw [Nat.add_sub_cancel' hle] at hlocals
    rw [getElem?_append_right (by omega), getElem?_eq_none (by omega), Option.none_or,
      hlocals, hargs, getElem?_map]

lemma lookup_temp {t : Nat} (ht : t < f.temps.length) :
    ((f.bindings args).lookup (tempName t)).isSome = true := by
  have htemps := lookup_mapIdx tempName (fun _ _ => tempName_inj) ValueType.zero f.temps t
  rw [lookup_bindings, htemps, getElem?_eq_getElem ht]
  simp

/-- A name with an underscore is not that of a variable. -/
lemma lookup_eq_none {x : String} (hx : '_' ∈ x.toList) : (f.bindings args).lookup x = none := by
  have hlocal : ∀ i, localName f.type.params.length i ≠ x := fun i h =>
    underscore_notMem_localName _ i (h ▸ hx)
  have htemp : ∀ i, tempName i ≠ x := fun i h => underscore_notMem_tempName i (h ▸ hx)
  rw [lookup_bindings, lookup_mapIdx_eq_none fun i _ => hlocal i,
    lookup_mapIdx_eq_none fun i _ => hlocal _, lookup_mapIdx_eq_none fun i _ => htemp i]
  rfl

end C.FunctionDef

/-! ## Whole functions -/

/-- A function with a type is one of the module's. -/
lemma lt_of_functionType {m : Module} {i : Nat} {t : FuncType} (h : m.functionType? i = some t) :
    i < m.importedFunctions + m.signatures.length := by
  refine Nat.lt_of_not_le fun hle => ?_
  have hnone : m.function? i = none := by
    rw [Module.function?, if_neg (by omega), if_neg (by omega)]
  simp [Module.functionType?, hnone] at h

/-- A global with a type is one of the module's. -/
lemma lt_of_globalType {m : Module} {i : Nat} {t : GlobalType} (h : m.globalType? i = some t) :
    i < m.importedGlobals + m.globals.length := by
  refine Nat.lt_of_not_le fun hle => ?_
  have hnone : m.global? i = none := by
    rw [Module.global?, if_neg (by omega), if_neg (by omega)]
  simp [Module.globalType?, hnone] at h

namespace Rebuilt

variable {μ σ : Type} {m : Module} {pos : Nat} {f : C.FunctionDef} {fn : Function}
  {t : FuncType} {r r1 : Rebuild} {args : List Value} {w : World μ σ}

/-- The setting that a function which has been rebuilt runs in. -/
def setting (h : Rebuilt m pos f fn t r r1) (o : Options)
    (hImports : (m.imports.map C.importSymbol).Nodup) (H : Host μ σ)
    (hIndirect : ∀ typeIndex slot args shared, H.callIndirect typeIndex slot args shared = none) :
    Setting μ σ where
  host := H
  naming := f.naming (C.Symbols.ofModule m o)
  env := surroundings m (m.importedFunctions + pos) fn t
  temps := f.temps.length
  whole := f.bodyLines
  labels := h.nodup_labels
  function _ _ hi :=
    (C.Symbols.allotted_ofModule m o).idxOf?_function hImports (lt_of_functionType hi)
  global _ _ hi := (C.Symbols.allotted_ofModule m o).idxOf?_global hImports (lt_of_globalType hi)
  keeps := Rebuild.keepsLoads (surroundings m (m.importedFunctions + pos) fn t) fn.code {} = true
  indirect := hIndirect

variable (h : Rebuilt m pos f fn t r r1) (o : Options)
  (hImports : (m.imports.map C.importSymbol).Nodup) (H : Host μ σ)
  (hIndirect : ∀ typeIndex slot args shared, H.callIndirect typeIndex slot args shared = none)

/-- The variables that a function starts with. -/
lemma ready_start (hargs : args.length = f.type.params.length) :
    (h.setting o hImports H hIndirect).Ready (args ++ fn.locals.map ValueType.zero)
      (fun x => (f.bindings args).lookup x) where
  clear := by
    have hallotted := C.Symbols.allotted_ofModule m o
    refine ⟨fun i hmem => ?_, fun i hmem => ?_, fun i => ?_, fun i => ?_⟩
    · exact C.underscore_notMem_localName _ i (hallotted.underscore_mem_globals _ hmem)
    · exact C.underscore_notMem_tempName i (hallotted.underscore_mem_globals _ hmem)
    · exact f.lookup_eq_none (hallotted.underscore_mem_global i)
    · exact f.lookup_eq_none (hallotted.underscore_mem_function i)
  length := by
    simp [setting, surroundings, hargs, h.type]
  locals i := by
    rw [← h.locals]
    exact f.lookup_local hargs i
  temps _ ht := f.lookup_temp ht

/-- A run of the statements of a body ends as the body does. -/
lemma ends_of_answers {S : Setting μ σ}
    (hfin : Rebuild.Finishes S.env r r1) (hcs : r.constructs = []) {ss : List Stmt} {F : Frame}
    {start : Config μ σ} (hcode : r1.scope.code.toList = r.scope.code.toList ++ ss)
    (ht : r.Tidy S.env) {silent : Prop} {o : Wasm.Outcome μ σ}
    (h : S.Answers {} r silent (Stmt.flattenAll ss) F start o) :
    S.Crashes o start ∨
      ∃ s, (o = .next s ∨ o = .leave s ∨ o = .branch 0 s) ∧ S.Returns s start := by
  cases h with
  | crash _ h => exact .inl h
  | leave ho _ h =>
    rw [hcs] at ho
    exact .inr ⟨_, .inr ho, h⟩
  | jump _ _ hc =>
    rw [hcs] at hc
    cases hc
  | arrive hlive htr _ hl =>
    cases hfin with
    | unreached hd => rw [hd] at hlive; cases hlive
    | @value t v _ hres hvs =>
      obtain ⟨ls, hr, hv⟩ := htr.single hvs
      obtain rfl : ss = [.leave (some v.expr)] := by
        simpa [Rebuild.emit, Rebuild.withValues] using hcode.symm
      rcases Setting.line_cases_single (.run (.leave (some v.expr))) hr.clear rfl
        (ht.uncons hvs).1.sound.orderly hv with hcrash | ⟨x, w1, hx, hl'⟩
      · exact .inl ((hcrash []).after hl)
      · exact .inr ⟨_, .inl (Option.some.inj hx).symm, some x, by simp [Wasm.State.result?, hres],
          hl.trans (hl' rfl)⟩
    | plain _ hres hvs =>
      obtain rfl : ss = [] := by simpa using hcode
      obtain ⟨ls, hr, rfl⟩ := htr.nil hvs
      refine .inr ⟨_, .inl rfl, none, by simp [Wasm.State.result?, hres],
        hl.trans fun goal hgoal => .step ⟨_, .finish⟩ fun b hb => ?_⟩
      cases hb with
      | finish => exact hgoal

/-- **The run of a function that has been rebuilt** ends as that of its body does. -/
theorem ends_of_exec (ha : args.length = f.type.params.length) {fuel : Nat} {out : Wasm.Outcome μ σ}
    (hExec : Wasm.exec H m fuel fn.code ⟨[], args ++ fn.locals.map ValueType.zero, w⟩ = some out)
    (hgr : (h.setting o hImports H hIndirect).Granted out) :
    (h.setting o hImports H hIndirect).Crashes out (f.start args w) ∨
      ∃ s, (out = .next s ∨ out = .leave s ∨ out = .branch 0 s) ∧
        (h.setting o hImports H hIndirect).Returns s (f.start args w) := by
  obtain ⟨ss, hg⟩ := h.finishes.grows
  have hT : r.temps.size ≤ f.temps.length := by
    have := hg.size_temps
    rwa [h.temps, Array.length_toList]
  have hls : f.bodyLines = Stmt.flattenAll r.scope.code.toList ++ Stmt.flattenAll ss := by
    rw [C.FunctionDef.bodyLines, h.body, hg.code, Stmt.flattenAll_append]
  have hans := Setting.follows_of_passes (S := h.setting o hImports H hIndirect) h.passes
    Rebuild.tidy_empty rfl hT fuel (k := Stmt.flattenAll ss) rfl
    (by rw [← hls]; exact suffix_refl _)
    ⟨_, h.ready_start o hImports H hIndirect ha, hExec⟩ hgr
  rw [← hls] at hans
  exact ends_of_answers h.finishes (eq_nil_of_length_eq_zero h.passes.length_constructs) hg.code
    (h.passes.tidy Rebuild.tidy_empty) hans

end Rebuilt

/-- **A function that is rebuilt does what its body does**, where indirect calls trap. Whatever the
callees, the memory and the numeric instructions do, and in whatever order operands are evaluated:
if the WebAssembly body ends without a trap, the C function returns the same result, after the same
calls, stores, growths of the memory and assignments of globals, and leaves the same globals and
memory.

**Proof sketch.** The body is balanced, and by induction on it the statements for every part of it
answer that part (`follows_of_passes`): operands that wait mean what is on the stack, and variables
hold what the locals hold. The end of the body returns the operand that is left. -/
theorem eventually_returned_of_invoke {μ σ : Type} {m : Module} (pos : Nat)
    {f : C.FunctionDef} (o : Options) (hImports : (m.imports.map C.importSymbol).Nodup)
    (hRebuild : (rebuildFunction m pos).outcome = .ok f) (H : Host μ σ)
    (hIndirect : ∀ typeIndex slot args shared, H.callIndirect typeIndex slot args shared = none)
    {args : List Value} (hArgs : args.length = f.type.params.length) {w w' : World μ σ} (fuel : Nat)
    {v : Option Value} (hRun : Wasm.invoke H m pos args w fuel = some (v, w')) :
    Eventually (C.Step H (f.naming (C.Symbols.ofModule m o)) f.bodyLines) (· = .returned v w')
      (f.start args w) := by
  obtain ⟨fn, t, r, r1, h⟩ := exists_rebuilt hRebuild
  simp only [Wasm.invoke, h.function, h.signature, Option.bind_eq_bind, Option.bind_some,
    Option.bind_eq_some_iff] at hRun
  obtain ⟨out, hExec, hRun⟩ := hRun
  have hgr : (h.setting o hImports H hIndirect).Granted out := by
    cases out with
    | next | leave | branch => trivial
    | trap => cases hRun
  rcases h.ends_of_exec o hImports H hIndirect hArgs hExec hgr with
    ⟨_, _, rfl, -⟩ | ⟨s, hs, v', hv', hl⟩
  · cases hRun
  have hanswer : ((s.result? t.result).bind fun v => some (v, s.world)) = some (v, w') := by
    rcases hs with rfl | rfl | rfl <;> exact hRun
  rw [show s.result? t.result = some v' from hv'] at hanswer
  cases hanswer
  exact hl _ (.done rfl)

/-- A module with a loop that calls an import until its parameter is zero. -/
def countdown : Module where
  types := [⟨[.i32], some .i32⟩]
  imports := [⟨"env", "next", .function 0⟩]
  signatures := [0]
  functions := [⟨0, [], [⟨.block, .block none⟩, ⟨.loop, .block none⟩,
    ⟨.getLocal, .index 0⟩, ⟨.numeric .i32Eqz, .none⟩, ⟨.brIf, .depth 1⟩,
    ⟨.getLocal, .index 0⟩, ⟨.call, .index 0⟩, ⟨.setLocal, .index 0⟩, ⟨.br, .depth 0⟩,
    ⟨.endOp, .none⟩, ⟨.endOp, .none⟩, ⟨.getLocal, .index 0⟩]⟩]
  importedFunctions := 1

/-- A host on which every callee subtracts one and every numeric instruction tests for zero. Whether
an indirect call comes back is a parameter. -/
def countingHost (indirect : Bool) : Host Unit Unit where
  numeric _ args := .i32 (if args = [.i32 0] then 1 else 0)
  load _ _ _ _ := none
  store _ _ _ _ _ := none
  size _ := .i32 0
  grow _ _ := none
  call _ args shared := match args with
    | [.i32 v] => some (.i32 (v - 1), shared)
    | _ => none
  callIndirect _ _ _ shared := if indirect then some (.i32 0, shared) else none

/-- A world after some events. -/
def plainWorld (events : List Event) : World Unit Unit := ⟨⟨fun _ => .i32 0, (), ()⟩, events⟩

/-- From two, the loop calls the import twice and ends at zero. -/
theorem eventually_returned_countdown : ∃ f, (rebuildFunction countdown 0).outcome = .ok f ∧
    Eventually
      (C.Step (countingHost false) (f.naming (C.Symbols.ofModule countdown {})) f.bodyLines)
      (· = .returned (some (.i32 0)) (plainWorld [.call 0 [.i32 2], .call 0 [.i32 1]]))
      (f.start [.i32 2] (plainWorld [])) :=
  ⟨_, rfl, eventually_returned_of_invoke 0 {} (by decide) rfl (countingHost false)
    (fun _ _ _ _ => rfl) rfl 20 rfl⟩

/-! ## Indirect calls -/

/-- A run does not get to a goal from where it is stuck. -/
lemma not_eventually_of_stuck {α : Type} {step : α → α → Prop} {goal : α → Prop} {a : α}
    (hgoal : ¬ goal a) (hstuck : ∀ b, ¬ step a b) : ¬ Eventually step goal a := by
  intro h
  cases h with
  | done h => exact hgoal h
  | step next _ =>
    obtain ⟨b, hb⟩ := next
    exact hstuck b hb

/-- A trap ends every run. -/
lemma C.not_step_trap {μ σ : Type} (H : Host μ σ) (n : C.Naming) (whole k : List Line) (F : Frame)
    (w : World μ σ) (code : C.TrapCode) (c : Config μ σ) :
    ¬ C.Step H n whole (.running (.run (.trap code) :: k) F w) c := by
  intro h
  cases h with
  | operand h => cases h
  | perform _ h => simp [Line.perform] at h

/-- A module with an indirect call of a function that is in the table. -/
def dispatcher : Module where
  types := [⟨[], none⟩]
  imports := [⟨"env", "table", .table ⟨1, none⟩⟩]
  signatures := [0, 0]
  segments := [⟨0, ⟨.const .i32, .value (.i32 0)⟩, [0]⟩]
  functions := [⟨0, [], []⟩,
    ⟨0, [], [⟨.const .i32, .value (.i32 0)⟩, ⟨.callIndirect, .callIndirect 0 false⟩]⟩]
  importedTables := 1

/-- **An indirect call that comes back is lost**: the body ends without a trap, and the C function
does not. -/
theorem indirect_call_lost : ∃ f, (dispatcher.imports.map C.importSymbol).Nodup ∧
    (rebuildFunction dispatcher 1).outcome = .ok f ∧
    Wasm.invoke (countingHost true) dispatcher 1 [] (plainWorld []) 3 =
      some (none, plainWorld [.callIndirect 0 (.i32 0) []]) ∧
    ¬ Eventually (C.Step (countingHost true) (f.naming (C.Symbols.ofModule dispatcher {}))
      f.bodyLines) (· = .returned none (plainWorld [.callIndirect 0 (.i32 0) []]))
      (f.start [] (plainWorld [])) :=
  ⟨_, by decide, rfl, rfl, not_eventually_of_stuck (by simp [C.FunctionDef.start])
    fun _ => C.not_step_trap _ _ _ _ _ _ _ _⟩

end WasmToC

import WasmToC.Proofs.Lockstep

/-!
# No line disturbs an operand that waits

Operands wait as expressions until something takes them. While they wait lines are written, and no
line may change what they will read, or come in front of what they will do. Every state of writing
shows a state of reconstruction in which operands have been settled in time, so that every line that
an instruction writes is safe.

## Main results

* `Writer.exists_mirrors`, `Writer.exists_run` — writing and reconstruction come to
  the same states.
* `isStable_of_opens` — where a construct is opened, only stable operands wait.
* `pending_values_undisturbed` — every line that is written is safe, for every body.
-/

namespace WasmToC

open C (Line Stmt)
open Rebuild

variable {env : Surroundings} {code : List Instruction} {i : Instruction} {w : Writer}

/-- Where the second computation has a result, so has the first. -/
lemma Follows.exists_of_ok {α β : Type} {stops : Prop} {R : α → β → Prop} {x : Except Failure α}
    {y : Except Failure β} {b : β} (h : Follows stops R x y) (hy : y = .ok b) :
    ∃ a, x = .ok a ∧ R a b := by
  cases h with
  | ok h =>
    cases hy
    exact ⟨_, rfl, h⟩
  | error e => cases hy
  | stop => cases hy

/-- Where writing comes to, reconstruction comes to as well. -/
lemma Writer.exists_mirrors (hrun : Writer.run env code (Writer.start env.type) = .ok w) :
    ∃ r, (Rebuild.run env code {}).outcome = .ok r ∧ r.Tidy env ∧
      ∃ op past, Mirrors ⟨env.type.result, op, past⟩ r w := by
  have hfollows : Follows True _ _ _ :=
    (mirrors_start env.type).run env tidy_empty rfl code (.inr trivial)
  exact hfollows.exists_of_ok hrun

/-- Where reconstruction comes to, writing comes to as well, as long as there are fewer instructions
than numbers for labels. -/
lemma Writer.exists_run {r : Rebuild} (hcode : code.length < 2 ^ 32)
    (hrun : (Rebuild.run env code {}).outcome = .ok r) :
    ∃ w, Writer.run env code (Writer.start env.type) = .ok w := by
  have hfollows : Follows False _ _ _ := (mirrors_start env.type).run env tidy_empty rfl
    code (.inl (by simpa using hcode))
  rw [hrun] at hfollows
  generalize Writer.run env code (Writer.start env.type) = y at hfollows
  cases hfollows with
  | ok => exact ⟨_, rfl⟩
  | stop hstops => exact hstops.elim

/-- **Where a construct is opened, only stable operands wait.** -/
theorem isStable_of_opens {r r1 : Rebuild} {es : List Line} (hl : r.reach = .live)
    (hop : i.op.opensConstruct = true) (hss : Steps env i r es r1) (htidy : r1.Tidy env) :
    ∀ v ∈ r1.operands, v.uses.isStable = true := by
  have hvs : r1.scope.values = [] := by
    cases hss with
    | acts _ hplain => simp [(not_opensConstruct_of_isPlain hplain).1] at hop
    | enters _ _ henters =>
      generalize i.op = op at henters
      cases henters <;> rfl
    | switches h | closes h => simp [h, Opcode.opensConstruct] at hop
    | skips hd =>
      rw [hl] at hd
      cases hd
  intro v hv
  rw [Rebuild.operands, hvs, List.nil_append] at hv
  exact htidy.stable_outside v hv

/-- **No line disturbs an operand that waits.** Let a body lead to a state of writing, and let
another instruction be written from there, or the end of the body. Reconstruction comes to the same
states, with the same operands and lines. Everything that is new is on record, with the operands
that waited and were pushed before those that the line evaluates; and unless the instruction is an
indirect call, none of these reads the local that the line assigns, depends on the state if the line
changes that, or has effects if the line reads or changes the state or control may leave by it.
Where a construct is opened, all operands that wait are stable.

**Proof sketch.** The writer mirrors reconstruction (`Writer.exists_mirrors`), and each step keeps
that and records what it writes. What opens a construct has spilled everything. -/
theorem pending_values_undisturbed (env : Surroundings) (code : List Instruction) :
    (code.length < 2 ^ 32 → ∀ r, (Rebuild.run env code {}).outcome = .ok r →
      ∃ w, Writer.run env code (Writer.start env.type) = .ok w) ∧
    ∀ w, Writer.run env code (Writer.start env.type) = .ok w →
      ∃ r, (Rebuild.run env code {}).outcome = .ok r ∧ w.stack = r.operands.reverse ∧
        (∀ i w1, w.step env i = .ok w1 →
          ∃ r1 written, r.step env i = .ok r1 ∧ w1.stack = r1.operands.reverse ∧
            w1.lines = r1.listing ∧ Writes i.op w w1.lines w1.journal written ∧
            (w.dead = false → i.op.opensConstruct = true →
              ∀ v ∈ w1.stack, v.uses.isStable = true)) ∧
        ∀ w1, w.finish env = .ok w1 → ∃ r1 written, r.finish env = .ok r1 ∧ w1.lines = r1.listing ∧
            Writes .endOp w w1.lines w1.journal written := by
  refine ⟨fun hcode r hr => Writer.exists_run hcode hr, fun w hrun => ?_⟩
  obtain ⟨r, hr, htidy, op, past, h⟩ := Writer.exists_mirrors hrun
  refine ⟨r, hr, h.stack, fun i w1 hstep => ?_, fun w1 hfinish => ?_⟩
  · have hfollows : Follows True _ _ _ := h.step htidy (.inr trivial) rfl i
    obtain ⟨r1, hr1, h1⟩ := hfollows.exists_of_ok hstep
    obtain ⟨written, hwrites⟩ := h1.writes
    refine ⟨r1, written, hr1, h1.stack, h1.lines, hwrites, fun hdead hop v hv => ?_⟩
    have hl : r.reach = .live := by
      cases hreach : r.reach with
      | live => rfl
      | dead nested =>
        rw [h.dead, hreach] at hdead
        cases hdead
    obtain ⟨es, hsteps⟩ := steps_of_step hr1
    rw [h1.stack, List.mem_reverse] at hv
    exact isStable_of_opens hl hop hsteps (htidy.steps hsteps) v hv
  · have hfollows : Follows True _ _ _ := h.finish env htidy
    obtain ⟨r1, hr1, -, h1⟩ := hfollows.exists_of_ok hfinish
    obtain ⟨written, hwrites⟩ := h1.writes
    exact ⟨r1, written, hr1, h1.lines, hwrites⟩

/-- A function with one parameter that calls itself. -/
def callsItself : Surroundings where
  inModule := { types := [⟨[.i32], some .i32⟩], signatures := [0] }
  index := 0
  type := ⟨[.i32], some .i32⟩
  locals := [.i32]

/-- The parameter waits twice, and then one copy is passed to a call whose result is assigned to
the parameter. -/
theorem pending_values_undisturbed_callsItself :
    ∃ (w w1 : Writer) (r r1 : Rebuild) (written : List Entry), Writer.run callsItself
        [⟨.getLocal, .index 0⟩, ⟨.getLocal, .index 0⟩, ⟨.call, .index 0⟩]
        (Writer.start callsItself.type) = .ok w ∧
      w.step callsItself ⟨.setLocal, .index 0⟩ = .ok w1 ∧
      r.step callsItself ⟨.setLocal, .index 0⟩ = .ok r1 ∧ w1.lines = r1.listing ∧
      Writes .setLocal w w1.lines w1.journal written := by
  obtain ⟨r, -, -, hstep, -⟩ := (pending_values_undisturbed callsItself
    [⟨.getLocal, .index 0⟩, ⟨.getLocal, .index 0⟩, ⟨.call, .index 0⟩]).2 _ rfl
  obtain ⟨r1, written, hr1, -, hlines, hwrites, -⟩ := hstep ⟨.setLocal, .index 0⟩ _ rfl
  exact ⟨_, _, r, r1, written, rfl, rfl, hr1, hlines, hwrites⟩

end WasmToC

import WasmToC.Error

/-!
# Traced computations

A computation that may fail and that keeps a log. The log survives a failure. The outcome of a
sequence depends on the outcomes of its parts alone, never on their logs
(`Traced.outcome_bind`).

## Main definitions

* `Record` — a log record.
* `Traced` — an outcome with the records written on the way to it.
-/

namespace WasmToC

/-- How detailed a record is. -/
inductive Level where
  | warn | info | debug | trace
  deriving DecidableEq, Repr

/-- The name of a level. -/
def Level.name : Level → String
  | warn => "WARN"
  | info => "INFO"
  | debug => "DEBUG"
  | trace => "TRACE"

/-- A log record. -/
structure Record where
  /-- Its level. -/
  level : Level
  /-- What happened. -/
  text : String
  deriving DecidableEq, Repr

/-- A record on one line. -/
def Record.line (r : Record) : String := r.level.name ++ " " ++ r.text

/-- An outcome, and the records written on the way to it, oldest first. -/
structure Traced (α : Type) where
  /-- The records. -/
  log : List Record
  /-- The result, or why there is none. -/
  outcome : Except Failure α

namespace Traced

variable {α β : Type}

/-- A result without records. -/
def ok (a : α) : Traced α := ⟨[], .ok a⟩

/-- Runs a computation, and on success the one that depends on its result. -/
def andThen (x : Traced α) (f : α → Traced β) : Traced β :=
  match x.outcome with
  | .ok a =>
    let y := f a
    ⟨x.log ++ y.log, y.outcome⟩
  | .error e => ⟨x.log, .error e⟩

instance : Monad Traced where
  pure := ok
  bind := andThen

/-- An outcome without records. -/
def ofExcept (x : Except Failure α) : Traced α := ⟨[], x⟩

instance : MonadLift (Except Failure) Traced where
  monadLift := ofExcept

/-- Writes one record. -/
def note (level : Level) (text : String) : Traced Unit := ⟨[⟨level, text⟩], .ok ()⟩

/-- Writes several records. -/
def notes (records : List Record) : Traced Unit := ⟨records, .ok ()⟩

/-- Fails with an error. -/
def fail (e : Error) : Traced α := ⟨[], .error (.error e)⟩

/-- Changes the error of a failed computation. -/
def mapError (f : Error → Error) (x : Traced α) : Traced α :=
  ⟨x.log, x.outcome.mapError (Failure.map f)⟩

@[simp] theorem outcome_pure (a : α) : (pure a : Traced α).outcome = .ok a := rfl

@[simp] theorem outcome_ofExcept (x : Except Failure α) : (ofExcept x).outcome = x := rfl

@[simp] theorem outcome_note (level : Level) (text : String) :
    (note level text).outcome = .ok () := rfl

@[simp] theorem outcome_fail (e : Error) : (fail e : Traced α).outcome = .error (.error e) := rfl

/-- The outcome of a sequence is the sequence of the outcomes. -/
@[simp] theorem outcome_bind (x : Traced α) (f : α → Traced β) :
    (x >>= f).outcome = x.outcome.bind fun a => (f a).outcome := by
  change (andThen x f).outcome = _
  unfold andThen
  cases x.outcome <;> rfl

end Traced

end WasmToC

/-!
# Byte sources

A source is the bytes that are still to come and what waits at their end: a clean end of input, or
a fault that every further read meets.

## Main definitions

* `IoFault` — a failed read.
* `Ending` — what waits behind the last byte.
* `Source` — bytes with an ending.
* `Source.next` — the first byte, or the ending.
* `Source.region`, `Source.leave` — the part of a source that a declared length
  allows to be read, and the source after it.
-/

namespace WasmToC

/-- A failed read. -/
structure IoFault where
  /-- Whether the fault says that the input ended. -/
  atEnd : Bool
  /-- Its description. -/
  text : String
  deriving DecidableEq, Repr

/-- What waits behind the last byte of a source. -/
inductive Ending where
  /-- The input ends. -/
  | clean
  /-- Reading fails, and goes on failing. -/
  | broken (f : IoFault)
  deriving DecidableEq, Repr

/-- The bytes still to come, and what waits behind them. -/
structure Source where
  /-- The bytes still to come. -/
  rest : List UInt8
  /-- What waits behind them. -/
  ending : Ending := .clean
  deriving DecidableEq

namespace Source

/-- A source that holds `bytes`, and fails at `offset` or at the end, whichever comes first. -/
def failingAt (bytes : List UInt8) (offset : Nat) (f : IoFault) : Source :=
  ⟨bytes.take offset, .broken f⟩

/-- The first byte and the source behind it, or the ending. -/
def next (s : Source) : Except Ending (UInt8 × Source) :=
  match s.rest with
  | [] => .error s.ending
  | b :: rest => .ok (b, { s with rest })

/-- The first `n` bytes and the source behind them, or the ending when it comes earlier. -/
def take (s : Source) (n : Nat) : Except Ending (List UInt8 × Source) :=
  if n ≤ s.rest.length then .ok (s.rest.take n, { s with rest := s.rest.drop n })
  else .error s.ending

/-- The source that a declared length of `n` bytes allows to be read. When the bytes suffice,
nothing behind them can be seen, so it ends cleanly. -/
def region (s : Source) (n : Nat) : Source :=
  ⟨s.rest.take n, if n ≤ s.rest.length then .clean else s.ending⟩

/-- How many of the `n` declared bytes are unread when the region's source has become `inner`. -/
def unread (s : Source) (n : Nat) (inner : Source) : Nat :=
  (n - s.rest.length) + inner.rest.length

/-- The source after a region of `n` bytes whose own source has become `inner`. -/
def leave (s : Source) (n : Nat) (inner : Source) : Source :=
  { s with rest := inner.rest ++ s.rest.drop n }

end Source

end WasmToC

import LogSpool.Text.Utf8
set_option autoImplicit false

/-!
# Sinks: streams

A stream takes as many of the bytes it is offered as it likes.  `writeAll` offers
the rest of a record again and again until all of it is taken; it gives up when the
stream fails, or takes nothing.
-/

namespace LogSpool

/-- The answer of a stream to an offer of bytes. -/
inductive Response where
  /-- It took so many bytes from the front of the offer. -/
  | took (count : Nat)
  | failed (error : String)
  deriving DecidableEq, Repr, Inhabited

/-- A stream: what it answers to an offer, and its state after it. -/
abbrev Stream (σ : Type) := σ → Bytes → Response × σ

/-- The result of writing a whole record. -/
structure Written (σ : Type) where
  /-- Why the record was not taken whole, if it was not. -/
  failure? : Option String
  /-- The bytes of the record that the stream took. -/
  taken : Bytes
  /-- The stream afterwards. -/
  stream : σ

namespace Stream

/-- The error of a stream that takes nothing. -/
def writeZero : String := "write zero"

/-- Offer the bytes until all of them are taken.  A stream takes no more than it is
offered. -/
def writeAll {σ : Type} (write : Stream σ) (state : σ) (bytes : Bytes) : Written σ :=
  match bytes with
  | [] => ⟨none, [], state⟩
  | b :: rest =>
    match write state (b :: rest) with
    | (.failed error, state) => ⟨some error, [], state⟩
    | (.took 0, state) => ⟨some writeZero, [], state⟩
    | (.took (n + 1), state) =>
      let result := writeAll write state (rest.drop n)
      ⟨result.failure?, b :: rest.take n ++ result.taken, result.stream⟩
termination_by bytes.length
decreasing_by simp only [List.length_drop, List.length_cons]; omega

end Stream

/-- A stream that takes at most `chunk` bytes at a time and `limit` bytes in all. -/
structure Throttle where
  chunk : Option Nat := none
  limit : Option Nat := none
  /-- The error of a write that can take nothing; without one it just takes nothing. -/
  writeError : Option String := none
  /-- The error of every flush. -/
  flushError : Option String := none
  deriving DecidableEq, Repr, Inhabited

/-- What a throttled stream has taken so far, and the calls made to it. -/
structure ThrottleState where
  total : Nat := 0
  writes : Nat := 0
  flushes : Nat := 0
  deriving DecidableEq, Repr, Inhabited

/-- The smaller of a number and a bound, where there is one. -/
def atMost (bound : Option Nat) (n : Nat) : Nat :=
  match bound with
  | some b => min n b
  | none => n

namespace Throttle

/-- How many of the offered bytes the stream takes. -/
def room (t : Throttle) (total offered : Nat) : Nat :=
  atMost (t.limit.map (· - total)) (atMost t.chunk offered)

/-- One write call. -/
def write (t : Throttle) : Stream ThrottleState := fun state bytes =>
  let n := t.room state.total bytes.length
  let state := { state with total := state.total + n, writes := state.writes + 1 }
  match n, t.writeError with
  | 0, some error => (.failed error, state)
  | _, _ => (.took n, state)

/-- One flush call: its error, and the state after it. -/
def flush (t : Throttle) (state : ThrottleState) : Option String × ThrottleState :=
  (t.flushError, { state with flushes := state.flushes + 1 })

end Throttle

end LogSpool

import Piecemeal.Outcome.Dialogue
import Piecemeal.Parser.Run
import Piecemeal.Script.Value

/-!
# Parsers with rules of their own

Parsers that a script can use to look behind the scenes: to report the state, to move without
looking, to wait without being asked, and to end a run without handing it on.
-/

namespace Piecemeal.Script.Probe

variable {T E : Type} [Chunk T E]

def site : Parser T E (Value T E) := .custom fun _ s _ win => win s (.state (.of s))

/-- Moves `n` bytes on, whether they are there or not. -/
def skip (n : Nat) : Parser T E (Value T E) := .custom fun _ s _ win => win (s.advance n) .unit

/-- Waits for one increment even if the input is complete, and tells whether one came. -/
def prompted : Parser T E (Value T E) := .custom fun _ s _ win =>
  prompt s (fun s => win s (.bool false)) fun s _ => win s (.bool true)

/-- Waits `n` times, keeping every increment, and then goes on. -/
def await {R : Type} : Nat → State T → (State T → Outcome T R) → Outcome T R
  | 0, s, next => next s
  | n + 1, s, next => .suspended fun increment =>
    await n { s with buffer := Chunk.append s.buffer increment } next

/-- Waits `n` times, and at least once, without a word in the log; takes empty increments for
increments and forgets that the input was complete. -/
def wait (n : Nat) : Parser T E (Value T E) := .custom fun _ s _ win =>
  await (max n 1) s fun s => win { s with more := .incomplete } (.number (max n 1))

/-- Ends the run in a failure of its own, with the whole buffer left. -/
def stray (failure : Failure) : Parser T E (Value T E) :=
  .custom fun _ s _ _ => .failed s.buffer failure

/-- A run that waits until an increment has something in it, however many come before, and yields
the length of that one. -/
def idle : Dialogue T (Value T E) where
  Situation := Option Nat
  look
    | none => .suspended fun c => if Chunk.isEmpty c then none else some (Chunk.length c)
    | some n => .succeeded Chunk.empty (.number n)
  now := none

end Piecemeal.Script.Probe

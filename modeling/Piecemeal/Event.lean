import Piecemeal.Pos

/-!
# Log events

What a run records while it works: when it stops to wait for input, how it was resumed, when an
alternative is tried, and how a repetition ended. Events never influence a run.
-/

namespace Piecemeal

inductive Event where
  /-- The run waits at `pos` with `buffered` bytes held. -/
  | suspending (pos : Pos) (buffered : Nat)
  /-- The run that waits at `pos` is told that the input is complete. -/
  | inputEnded (pos : Pos)
  /-- The run that waits at `pos` is given `received` further bytes. -/
  | resuming (pos : Pos) (received : Nat)
  /-- A parser failed at `failedAt` and its alternative starts at `restart`. -/
  | backtracking (failedAt restart : Pos)
  /-- A repetition with `count` values ends because the attempt at `pos` failed. -/
  | repetitionStopped (pos : Pos) (count : Nat)
  /-- A repetition with `count` values ends because the attempt at `pos` consumed nothing. -/
  | noProgress (pos : Pos) (count : Nat)
  deriving DecidableEq, Repr

def Event.message : Event → String
  | suspending _ _ => "suspending for more input"
  | inputEnded _ => "end of input signalled"
  | resuming _ _ => "resuming with more input"
  | backtracking _ _ => "backtracking to alternative"
  | repetitionStopped _ _ => "repetition stopped"
  | noProgress _ _ => "repetition made no progress"

end Piecemeal

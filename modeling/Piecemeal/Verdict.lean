import Piecemeal.Outcome.Basic
import Piecemeal.State

/-!
# Verdicts

A parser ends in a state with a failure or with a value. What follows it is given as two ways to go
on, one for each. A verdict is the same choice as a value: a parser whose two ways to go on report a
verdict runs on its own, and `resolve` goes on from the report.
-/

namespace Piecemeal

/-- How a run goes on after a failure. -/
abbrev Lose (T R : Type) : Type := State T → Failure → Outcome T R

/-- How a run goes on after a success with a value. -/
abbrev Win (T A R : Type) : Type := State T → A → Outcome T R

/-- How a parser ended. -/
inductive Verdict (T A : Type) where
  /-- It failed in this state. -/
  | lost (state : State T) (failure : Failure)
  /-- It succeeded in this state. -/
  | won (state : State T) (value : A)

namespace Verdict

variable {T A R : Type}

def losing : Lose T (Verdict T A) := fun s failure => .succeeded s.buffer (lost s failure)

def winning : Win T A (Verdict T A) := fun s value => .succeeded s.buffer (won s value)

/-- Goes on as the verdict says. -/
def resolve (lose : Lose T R) (win : Win T A R) : Verdict T A → Outcome T R
  | lost s failure => lose s failure
  | won s value => win s value

end Verdict

end Piecemeal

import Piecemeal.Verdict

/-!
# Repetition

A repetition makes one attempt after another. An attempt runs on its own and reports a verdict,
so the repetition can look at how it ended before it goes on. It ends at the first attempt that
fails or consumes nothing, at the position where that attempt began, with all input that the
attempt waited for.

An attempt counts if it moves the position forward, which bounds the attempts. A parser that is put
together without `custom` ends no further back than it began (`Parser.heeds_verdict`), so for it an
attempt that does not count is one that ends where it began.
-/

namespace Piecemeal

variable {T A R : Type}

/-- Makes attempts from a state on, and goes on with the values found. The list `found` holds them
last one first. An attempt at a custom parser may succeed further back than it began. Here it ends
the repetition, as one that consumed nothing; a loop that stops at an unchanged position alone would
take its value and go on from there, perhaps for ever. -/
def repeating (attempt : State T → Outcome T (Verdict T A)) (s : State T) (found : List A)
    (win : Win T (List A) R) : Outcome T R :=
  (attempt s).bind fun verdict =>
    match verdict with
    | .lost next _ =>
      .logged (.repetitionStopped s.pos found.length) fun _ =>
        win (next.moveTo s.pos) found.reverse
    | .won next value =>
      if s.pos < next.pos then repeating attempt next (value :: found) win
      else
        .logged (.noProgress s.pos found.length) fun _ =>
          win (next.moveTo s.pos) found.reverse
termination_by s.pos.room
decreasing_by
  apply Pos.room_lt
  assumption

end Piecemeal

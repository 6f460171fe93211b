import Piecemeal.Verdict

/-!
# Waiting for input

`prompt` suspends a run until an increment comes. An empty increment ends the input, any other
makes the buffer wider. `ensuring` waits until enough elements are buffered; it ends because every
increment brings the buffer closer to the width at which any request is met.
-/

namespace Piecemeal

variable {T E R : Type}

/-- Suspends the run. It goes on by `ended` if the next increment is empty, and by `resumed` with a
wider buffer otherwise. -/
def prompt [Chunk T E] (s : State T) (ended : State T → Outcome T R)
    (resumed : (next : State T) → s.Wider next → Outcome T R) : Outcome T R :=
  .logged (.suspending s.pos (Chunk.width s.buffer)) fun _ =>
    .suspended fun increment =>
      if h : Chunk.isEmpty increment = true then
        .logged (.inputEnded s.pos) fun _ => ended s.ended
      else
        .logged (.resuming s.pos (Chunk.width increment)) fun _ =>
          resumed (s.grown increment) (s.wider_grown (Bool.eq_false_iff.2 h))

/-- Goes on with the next `n` elements, as soon as they are buffered. Loses once it is clear that
they will not be. -/
def ensuring [Chunk T E] (n : Nat) (s : State T) (lose : Lose T R) (win : Win T T R) :
    Outcome T R :=
  if Size.fits (s.pos.offset + n) then
    match _short : Chunk.lengthAtLeast s.buffer s.pos.offset n with
    | .ok true => .require (Chunk.substring s.buffer s.pos.offset n) (win s)
    | .ok false =>
      if s.more.isComplete then lose s .notEnoughInput
      else prompt s (fun s => lose s .notEnoughInput) fun next _wider => ensuring n next lose win
    | .error fault => .faulted fault
  else lose s .notEnoughInput
termination_by s.pos.offset + 4 * n - Chunk.width s.buffer
decreasing_by
  have := Chunk.width_lt_of_short _short
  rw [_wider.1]
  have := _wider.2
  omega

end Piecemeal

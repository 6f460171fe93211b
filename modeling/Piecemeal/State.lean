import Piecemeal.Chunk.Basic
import Piecemeal.More
import Piecemeal.Pos

/-!
# Parser states

The state that parsers hand on: all input so far, consumed part included, how far it is consumed,
and whether more may follow. Keeping the consumed part is what lets a parser start again further
back after it has waited for input.
-/

namespace Piecemeal

/-- What a parser starts from and hands on. -/
structure State (T : Type) where
  /-- All input so far. -/
  buffer : T
  /-- How much of the buffer is consumed. -/
  pos : Pos
  /-- Whether further input may follow. -/
  more : More

namespace State

variable {T E : Type}

def start (input : T) (more : More) : State T := ⟨input, .zero, more⟩

def advance (s : State T) (n : Nat) : State T := { s with pos := s.pos.advance n }

/-- The same input, consumed up to another position. -/
def moveTo (s : State T) (pos : Pos) : State T := { s with pos := pos }

def ended (s : State T) : State T := { s with more := .complete }

/-- The state after an increment; whether more may follow is open again. -/
def grown [Chunk T E] (s : State T) (increment : T) : State T :=
  { s with buffer := Chunk.append s.buffer increment, more := .incomplete }

/-- The next state holds more input, and no more of it is consumed. -/
def Wider [Chunk T E] (s next : State T) : Prop :=
  next.pos = s.pos ∧ Chunk.width s.buffer < Chunk.width next.buffer

theorem wider_grown [Chunk T E] (s : State T) {increment : T}
    (h : Chunk.isEmpty increment = false) : s.Wider (s.grown increment) := by
  have := Chunk.width_pos h
  refine ⟨rfl, ?_⟩
  rw [grown, Chunk.width_append]
  omega

end State

end Piecemeal

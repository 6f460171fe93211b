import Piecemeal.Size

/-!
# Positions

A position is an offset into the buffer, measured in bytes. Positions only move forward, and
stop at the largest size.
-/

namespace Piecemeal

/-- An offset into the buffer. -/
structure Pos where
  /-- The number of bytes before the position. -/
  offset : Nat
  offset_le : offset ≤ Size.max
  deriving DecidableEq, Repr

namespace Pos

@[ext] theorem ext {p q : Pos} (h : p.offset = q.offset) : p = q := by
  cases p; cases q; simp_all

def zero : Pos := ⟨0, Nat.zero_le _⟩

instance : Inhabited Pos := ⟨zero⟩

/-- The position at an offset, or the last position if the offset is beyond it. -/
def ofOffset (offset : Nat) : Pos := ⟨Size.saturate offset, Size.saturate_le _⟩

/-- The position `n` bytes further on, or the last position if that is beyond it. -/
def advance (p : Pos) (n : Nat) : Pos := ofOffset (p.offset + n)

instance : LT Pos := ⟨fun p q => p.offset < q.offset⟩

instance : LE Pos := ⟨fun p q => p.offset ≤ q.offset⟩

instance (p q : Pos) : Decidable (p < q) := inferInstanceAs (Decidable (p.offset < q.offset))

instance (p q : Pos) : Decidable (p ≤ q) := inferInstanceAs (Decidable (p.offset ≤ q.offset))

instance : Ord Pos := ⟨fun p q => compare p.offset q.offset⟩

instance : ToString Pos := ⟨fun p => toString p.offset⟩

def literal (p : Pos) : String := "Pos(" ++ toString p.offset ++ ")"

/-- How many positions lie ahead; what bounds a walk that only moves forward. -/
def room (p : Pos) : Nat := Size.max - p.offset

theorem lt_def {p q : Pos} : p < q ↔ p.offset < q.offset := Iff.rfl

theorem room_lt {p q : Pos} (h : p < q) : q.room < p.room := by
  have := q.offset_le
  simp only [lt_def] at h
  simp only [room]
  omega

theorem offset_advance {p : Pos} {n : Nat} (h : p.offset + n ≤ Size.max) :
    (p.advance n).offset = p.offset + n := Size.saturate_of_le h

theorem le_advance (p : Pos) (n : Nat) : p ≤ p.advance n :=
  Nat.le_min.2 ⟨Nat.le_add_right _ _, p.offset_le⟩

@[simp] theorem advance_zero (p : Pos) : p.advance 0 = p :=
  Pos.ext (Size.saturate_of_le p.offset_le)

end Pos

end Piecemeal

import Piecemeal.Proofs.Chunk.Elements
import Piecemeal.State

/-!
# States along a run

`State.given` is the state of a run that was given one more increment: the buffer grows, the
position stays, and an empty increment completes the input for good. `State.Sound` states have a
position between two elements of a buffer that storage can hold, and all chunk operations that
parsers make answer there. `s.Onward next`: `next` has the same input as `s`, no less of it
consumed.
-/

namespace Piecemeal.State

open LawfulChunk

variable {T E : Type} [Chunk T E]

/-- The state once an increment has come; an empty one says that there will be no more. -/
def given (s : State T) (c : T) : State T :=
  ⟨Chunk.append s.buffer c, s.pos, if Chunk.isEmpty c then .complete else s.more⟩

def givenAll (s : State T) (cs : List T) : State T := cs.foldl given s

@[simp] theorem given_buffer (s : State T) (c : T) :
    (s.given c).buffer = Chunk.append s.buffer c := rfl

@[simp] theorem given_pos (s : State T) (c : T) : (s.given c).pos = s.pos := rfl

@[simp] theorem givenAll_nil (s : State T) : s.givenAll [] = s := rfl

@[simp] theorem givenAll_cons (s : State T) (c : T) (cs : List T) :
    s.givenAll (c :: cs) = (s.given c).givenAll cs := rfl

theorem givenAll_buffer (s : State T) (cs : List T) :
    (s.givenAll cs).buffer = Chunk.appendAll s.buffer cs := by
  induction cs generalizing s with
  | nil => rfl
  | cons c cs ih => exact ih (s.given c)

theorem givenAll_pos (s : State T) (cs : List T) : (s.givenAll cs).pos = s.pos := by
  induction cs generalizing s with
  | nil => rfl
  | cons c cs ih => exact ih (s.given c)

/-- The input is complete if it was so at first or an empty increment came. -/
theorem givenAll_more (s : State T) (cs : List T) :
    (s.givenAll cs).more =
      if s.more.isComplete || cs.any Chunk.isEmpty then .complete else .incomplete := by
  induction cs generalizing s with
  | nil => cases h : s.more <;> simp [h, More.isComplete]
  | cons c cs ih =>
    rw [givenAll_cons, ih]
    cases hc : Chunk.isEmpty c <;> cases hm : s.more <;> simp [given, hc, hm, More.isComplete]

theorem width_givenAll (s : State T) (cs : List T) :
    Chunk.width (s.givenAll cs).buffer = Chunk.width s.buffer + Chunk.totalWidth cs := by
  induction cs generalizing s with
  | nil => rfl
  | cons c cs ih =>
    rw [givenAll_cons, ih, given_buffer, Chunk.width_append, Chunk.totalWidth_cons]
    omega

theorem givenAll_append (s : State T) (cs ds : List T) :
    s.givenAll (cs ++ ds) = (s.givenAll cs).givenAll ds := List.foldl_append

/-- The increments come one after the other, each of them while more may come. -/
def Takes (s : State T) : List T → Prop
  | [] => True
  | c :: cs => s.more = .incomplete ∧ (s.given c).Takes cs

theorem given_of_isEmpty [LawfulChunk T E] {s : State T} {c : T} (h : Chunk.isEmpty c = true) :
    s.given c = s.ended := by
  simp only [given, ended, h, if_true, Chunk.append_of_isEmpty s.buffer h]

theorem given_of_not_isEmpty {s : State T} {c : T} (hmore : s.more = .incomplete)
    (h : Chunk.isEmpty c = false) : s.given c = s.grown c := by
  simp [given, grown, h, hmore]

/-! ## Sound states -/

/-- The position is between two elements, and storage can hold the buffer. -/
structure Sound (s : State T) : Prop where
  storable : Chunk.width s.buffer < Size.storable
  boundary : Chunk.Boundary s.buffer s.pos.offset

namespace Sound

variable {s : State T}

theorem width_lt_max (hs : s.Sound) : Chunk.width s.buffer < Size.max :=
  Nat.lt_trans hs.storable Size.storable_lt_max

variable [LawfulChunk T E] {before after : List E}

theorem start {input : T} (more : More) (h : Chunk.width input < Size.storable) :
    (State.start input more).Sound := ⟨h, Chunk.boundary_zero input⟩

theorem given (hs : s.Sound) {c : T} (hc : Chunk.width s.buffer + Chunk.width c < Size.storable) :
    (s.given c).Sound := by
  refine ⟨?_, hs.boundary.append c⟩
  rw [given_buffer, Chunk.width_append]
  exact hc

theorem givenAll (hs : s.Sound) {cs : List T}
    (hcs : Chunk.width s.buffer + Chunk.totalWidth cs < Size.storable) : (s.givenAll cs).Sound := by
  induction cs generalizing s with
  | nil => exact hs
  | cons c cs ih =>
    rw [Chunk.totalWidth_cons] at hcs
    refine ih (hs.given (by omega)) ?_
    rw [given_buffer, Chunk.width_append]
    omega

theorem lengthAtLeast (hs : s.Sound) (h : Chunk.SplitsAt s.buffer s.pos.offset before after)
    (n : Nat) : Chunk.lengthAtLeast s.buffer s.pos.offset n = .ok (decide (n ≤ after.length)) :=
  lengthAtLeast_eq h hs.width_lt_max n

theorem substring (hs : s.Sound) (h : Chunk.SplitsAt s.buffer s.pos.offset before after)
    {n : Nat} (hn : n ≤ after.length) :
    Chunk.substring s.buffer s.pos.offset n = .ok (Chunk.ofList (after.take n)) :=
  substring_eq h hs.width_lt_max hn

theorem fits (hs : s.Sound) (h : Chunk.SplitsAt s.buffer s.pos.offset before after) {n : Nat}
    (hn : n ≤ after.length) : s.pos.offset + n ≤ Size.max := by
  have hwidth := h.width_eq
  have hlength := Chunk.length_le_widthOf (T := T) after
  have := hs.width_lt_max
  omega

theorem advance (hs : s.Sound) (h : Chunk.SplitsAt s.buffer s.pos.offset before after) (n : Nat) :
    Chunk.SplitsAt s.buffer (s.advance (Chunk.widthOf T (after.take n))).pos.offset
      (before ++ after.take n) (after.drop n) := by
  have hwidth := (h.advance n).width_eq
  have hmax := hs.width_lt_max
  have hoffset : (s.advance (Chunk.widthOf T (after.take n))).pos.offset
      = s.pos.offset + Chunk.widthOf T (after.take n) := Pos.offset_advance (by omega)
  rw [hoffset]
  exact h.advance n

end Sound

/-! ## Moving on -/

/-- The next state has the same input, and no less of it is consumed. -/
structure Onward (s next : State T) : Prop where
  buffer : next.buffer = s.buffer
  more : next.more = s.more
  pos : s.pos ≤ next.pos
  boundary : Chunk.Boundary next.buffer next.pos.offset

namespace Onward

variable {s next later : State T}

theorem refl (hs : s.Sound) : s.Onward s := ⟨rfl, rfl, Nat.le_refl _, hs.boundary⟩

theorem trans (h : s.Onward next) (h' : next.Onward later) : s.Onward later :=
  ⟨h'.buffer.trans h.buffer, h'.more.trans h.more, Nat.le_trans h.pos h'.pos, h'.boundary⟩

theorem sound (h : s.Onward next) (hs : s.Sound) : next.Sound :=
  ⟨by rw [h.buffer]; exact hs.storable, h.boundary⟩

/-- Going back to where a state began gives that state. -/
theorem moveTo (h : s.Onward next) : next.moveTo s.pos = s := by
  obtain ⟨hbuffer, hmore, -, -⟩ := h
  simp only [State.moveTo, hbuffer, hmore]

theorem given [LawfulChunk T E] (h : s.Onward next) (c : T) : (s.given c).Onward (next.given c) :=
  ⟨by simp only [given_buffer, h.buffer], by simp only [State.given, h.more], h.pos,
    h.boundary.append c⟩

theorem takes [LawfulChunk T E] (h : s.Onward next) {cs : List T} (hnext : next.Takes cs) :
    s.Takes cs := by
  induction cs generalizing s next with
  | nil => trivial
  | cons c cs ih => exact ⟨h.more.symm.trans hnext.1, ih (h.given c) hnext.2⟩

end Onward

theorem Sound.onward_advance [LawfulChunk T E] {s : State T} (hs : s.Sound)
    {before after : List E} (h : Chunk.SplitsAt s.buffer s.pos.offset before after) (n : Nat) :
    s.Onward (s.advance (Chunk.widthOf T (after.take n))) :=
  ⟨rfl, rfl, Pos.le_advance _ _, _, _, hs.advance h n⟩

end Piecemeal.State

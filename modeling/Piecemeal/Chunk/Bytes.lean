import Piecemeal.Chunk.Basic
import Piecemeal.Chunk.Segment
import Piecemeal.Size

/-!
# Chunks of bytes

Every element is one byte wide, so counts and widths agree and every offset up to the length is
on a boundary. Cutting out of range is a fault that names the window asked for.
-/

namespace Piecemeal

abbrev Bytes : Type := Segment UInt8

namespace Bytes

/-- The bytes from offset `start` up to and without offset `stop`. -/
def window (b : Bytes) (start stop : Nat) : Except Fault Bytes :=
  if start ≤ stop ∧ stop ≤ b.size then .ok (b.extract start stop)
  else .error (.byteWindow start stop b.size)

def head (b : Bytes) : Except Fault UInt8 :=
  match b.get? 0 with
  | some x => .ok x
  | none => .error .emptyBytes

def tail (b : Bytes) : Except Fault Bytes := b.window 1 b.size

/-- At least `n` bytes follow the offset. -/
def atLeast (b : Bytes) (offset n : Nat) : Bool := offset ≤ b.size && n ≤ b.size - offset

/-- The `n` bytes that follow the offset. -/
def substring (b : Bytes) (offset n : Nat) : Except Fault Bytes :=
  if Size.fits (offset + n) then b.window offset (offset + n) else .error .overflow

def dropFrom (b : Bytes) (offset : Nat) : Except Fault Bytes := b.window offset b.size

/-! ## What the operations answer -/

theorem head_of_cons {b : Bytes} {x : UInt8} {xs : List UInt8} (h : b.toList = x :: xs) :
    b.head = .ok x := by
  simp [head, Segment.get?_eq, h]

theorem head_of_nil {b : Bytes} (h : b.toList = []) : b.head = .error .emptyBytes := by
  simp [head, Segment.get?_eq, h]

theorem window_of_le {b : Bytes} {start stop : Nat} (h : start ≤ stop) (hstop : stop ≤ b.size) :
    b.window start stop = .ok (b.extract start stop) := if_pos ⟨h, hstop⟩

theorem window_of_not {b : Bytes} {start stop : Nat} (h : ¬(start ≤ stop ∧ stop ≤ b.size)) :
    b.window start stop = .error (.byteWindow start stop b.size) := if_neg h

theorem toList_of_window {b d : Bytes} {start stop : Nat} (h : b.window start stop = .ok d) :
    d.toList = (b.toList.drop start).take (stop - start) := by
  rw [window] at h
  split at h
  · cases h
    exact b.toList_extract start stop
  · cases h

theorem toList_of_substring {b d : Bytes} {offset n : Nat} (h : b.substring offset n = .ok d) :
    d.toList = (b.toList.drop offset).take n := by
  rw [substring] at h
  split at h
  · rw [toList_of_window h, Nat.add_sub_cancel_left]
  · cases h

theorem toList_of_dropFrom {b d : Bytes} {offset : Nat} (h : b.dropFrom offset = .ok d) :
    d.toList = b.toList.drop offset := by
  rw [toList_of_window h, List.take_of_length_le]
  simp

theorem atLeast_iff {b : Bytes} {offset n : Nat} :
    b.atLeast offset n = true ↔ offset + n ≤ b.size := by
  simp only [atLeast, Bool.and_eq_true, decide_eq_true_eq]
  omega

theorem size_lt_of_not_atLeast {b : Bytes} {offset n : Nat} (h : b.atLeast offset n = false) :
    b.size < offset + n := by
  rw [← Bool.not_eq_true, atLeast_iff] at h
  omega

instance : Chunk Bytes UInt8 where
  empty := Segment.empty
  ofList := Segment.ofList
  toList := Segment.toList
  isEmpty b := b.size == 0
  length := Segment.size
  width := Segment.size
  head := head
  tail := tail
  lengthAtLeast b offset n := .ok (b.atLeast offset n)
  substring := substring
  drop := dropFrom
  append := Segment.append
  toChar x := Char.ofNat x.toNat
  literal b := Literal.quoteBytes b.toList
  display? _ := none
  elementLiteral x := toString x.toNat
  width_append := Segment.size_append
  width_pos h := Nat.pos_of_ne_zero (by simpa using h)
  width_lt_of_short h := by
    have := size_lt_of_not_atLeast (Except.ok.inj h)
    omega

end Bytes

end Piecemeal

import Piecemeal.Literal.Quote

/-!
# Faults

A chunk operation whose precondition does not hold has no answer. It reports a fault instead,
which ends the run that asked. `Fault.message` is the wording.
-/

namespace Piecemeal

/-- A violated precondition of a chunk operation. -/
inductive Fault where
  /-- A window from `start` to `stop` of a byte chunk that has `length` bytes. -/
  | byteWindow (start stop length : Nat)
  /-- The first byte of an empty chunk. -/
  | emptyBytes
  /-- An offset and a count whose sum is no size. -/
  | overflow
  /-- An offset into a text that is past its end or inside a character. -/
  | offBoundary (offset : Nat) (text : String)
  /-- More characters than follow an offset into a text. -/
  | fewCharacters (count offset : Nat) (text : String)
  /-- The first character, or the rest after it, of an empty text. -/
  | emptyText
  deriving DecidableEq, Repr

def Fault.message : Fault → String
  | byteWindow start stop length =>
    s!"byte window {start}..{stop} out of range for chunk of length {length}"
  | emptyBytes => "index out of bounds: the len is 0 but the index is 0"
  | overflow => "attempt to add with overflow"
  | offBoundary offset text =>
    s!"offset {offset} is not a character boundary of text chunk " ++ Literal.quoteString text
  | fewCharacters count offset text =>
    s!"{count} characters requested at offset {offset} of text chunk " ++ Literal.quoteString text
  | emptyText => "unchecked_head on an empty text chunk"

end Piecemeal

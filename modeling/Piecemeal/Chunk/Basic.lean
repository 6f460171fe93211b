import Piecemeal.Fault

/-!
# Chunks

The buffers that parsers run over. A chunk of type `T` is a sequence of elements of type `E`,
seen through two measures: a *count* is a number of elements, an *offset* or *width* a number of
bytes. The two differ for text, where an element takes up to four bytes.

Operations that expect an offset on an element boundary, or enough elements behind it, report a
`Fault` when they are asked for what is not there. The laws at the end of the class say that a
request that cannot be met yet is met after finitely many non-empty increments, so waiting for
input ends.
-/

namespace Piecemeal

/-- A buffer type with its elements. -/
class Chunk (T : Type) (E : outParam Type) where
  /-- The chunk without elements. -/
  empty : T
  /-- The chunk of some elements. -/
  ofList : List E → T
  /-- The elements. -/
  toList : T → List E
  /-- There are no elements. -/
  isEmpty : T → Bool
  /-- The number of elements. -/
  length : T → Nat
  /-- The number of bytes that the elements take. -/
  width : T → Nat
  /-- The first element. -/
  head : T → Except Fault E
  /-- All elements but the first. -/
  tail : T → Except Fault T
  /-- At least `n` elements follow an offset. -/
  lengthAtLeast (c : T) (offset n : Nat) : Except Fault Bool
  /-- The `n` elements that follow an offset. -/
  substring (c : T) (offset n : Nat) : Except Fault T
  /-- All elements that follow an offset. -/
  drop (c : T) (offset : Nat) : Except Fault T
  /-- The elements of the one, then those of the other. -/
  append : T → T → T
  /-- The character that stands for an element. -/
  toChar : E → Char
  /-- The chunk in quotes. -/
  literal : T → String
  /-- The chunk as plain text, if its elements are characters. -/
  display? : T → Option String
  /-- An element on its own. -/
  elementLiteral : E → String
  width_append (c d : T) : width (append c d) = width c + width d
  width_pos {c : T} (h : isEmpty c = false) : 0 < width c
  width_lt_of_short {c : T} {offset n : Nat} (h : lengthAtLeast c offset n = .ok false) :
    width c < offset + 4 * n

end Piecemeal

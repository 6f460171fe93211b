import Piecemeal.Script.Value
import Piecemeal.Size

/-!
# Predicates and functions given as data

The predicates on elements and the functions on values that a script can name. Predicates look at
an element's code, and their named classes hold ASCII characters only. Arithmetic wraps around at
the largest size.
-/

namespace Piecemeal.Script

/-- A predicate on the code of an element. -/
inductive Predicate where
  | any
  | digit
  | alpha
  | upper
  | lower
  /-- Space, tab, line feed, form feed and carriage return. -/
  | space
  /-- The codes from `low` to `high`, both included. -/
  | range (low high : Nat)
  | oneOf (codes : List Nat)
  | not (p : Predicate)
  deriving DecidableEq, Repr

def Predicate.holds : Predicate → Nat → Bool
  | any, _ => true
  | digit, n => 48 ≤ n && n ≤ 57
  | alpha, n => (65 ≤ n && n ≤ 90) || (97 ≤ n && n ≤ 122)
  | upper, n => 65 ≤ n && n ≤ 90
  | lower, n => 97 ≤ n && n ≤ 122
  | space, n => n = 32 || n = 9 || n = 10 || n = 12 || n = 13
  | range low high, n => low ≤ n && n ≤ high
  | oneOf codes, n => codes.contains n
  | not p, n => !p.holds n

inductive Transform (T E : Type) where
  /-- The number that the value stands for. -/
  | length
  /-- That number and one more. -/
  | increment
  /-- The character of an element, as a string. -/
  | char
  | first
  | second
  | negate
  /-- The chunk of the elements in a list. -/
  | join
  | constant (value : Value T E)
  /-- The value behind a string. -/
  | tag (name : String)

namespace Transform

variable {T E : Type}

def element? : Value T E → Option E
  | .element e => some e
  | _ => none

/-- Applies a function; a value of the wrong form stays as it is. -/
def apply [Chunk T E] : Transform T E → Value T E → Value T E
  | length, v => .number v.code
  | increment, v => .number (Size.wrap (v.code + 1))
  | char, .element e => .string (Chunk.toChar T e).toString
  | first, .pair a _ => a
  | second, .pair _ b => b
  | negate, .bool b => .bool (!b)
  | join, .list items => .chunk (Chunk.ofList (items.filterMap element?))
  | constant value, _ => value
  | tag name, v => .pair (.string name) v
  | _, v => v

end Transform

end Piecemeal.Script

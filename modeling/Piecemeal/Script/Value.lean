import Piecemeal.Chunk.Bytes
import Piecemeal.Chunk.Text.Basic
import Piecemeal.Verdict

/-!
# Values of scripted parsers

Grammars that are given as data yield values of one type. A value has a number that later parsers
may depend on, an equality by form, a rendering, and a compact data notation. The rendering of a
reported state is its data notation.
-/

namespace Piecemeal

/-- How chunks and elements are written in the data notation. -/
class DataForm (T : Type) (E : outParam Type) where
  /-- The text that stands for a chunk. -/
  chunkText : T → String
  /-- An element. -/
  element : E → String

instance : DataForm Bytes UInt8 where
  chunkText b := String.ofList (b.toList.flatMap fun x => Literal.paddedHex 2 x.toNat)
  element x := toString x.toNat

instance : DataForm Text Char where
  chunkText t := t.toString
  element c := "\x7b\"char\":" ++ Literal.quoteData c.toString ++ "\x7d"

namespace Script

/-- What a parser state shows of itself. -/
structure Site where
  pos : Pos
  more : More
  /-- The width of the whole buffer, consumed part included. -/
  buffered : Nat
  deriving DecidableEq, Repr

def Site.of {T E : Type} [Chunk T E] (s : State T) : Site :=
  ⟨s.pos, s.more, Chunk.width s.buffer⟩

/-- A value of a scripted parser. -/
inductive Value (T E : Type) where
  | unit
  | bool (b : Bool)
  | element (e : E)
  | number (n : Nat)
  | string (s : String)
  | chunk (c : T)
  | list (items : List (Value T E))
  | pair (first second : Value T E)
  /-- A parser state that was asked for. -/
  | state (site : Site)
  /-- A success, with the state it was reached in. -/
  | won (site : Site) (value : Value T E)
  /-- A failure, with the state it was reached in. -/
  | lost (site : Site) (failure : Failure)

namespace Value

variable {T E : Type}

/-- The number that a value stands for: its own, the code of an element, the length of a chunk or a
list, and zero for all else. -/
def code [Chunk T E] : Value T E → Nat
  | number n => n
  | element e => (Chunk.toChar T e).toNat
  | chunk c => Chunk.length c
  | list items => items.length
  | _ => 0

def ofVerdict [Chunk T E] : Verdict T (Value T E) → Value T E
  | .lost s failure => lost (.of s) failure
  | .won s value => won (.of s) value

mutual

def same [DecidableEq T] [DecidableEq E] : Value T E → Value T E → Bool
  | unit, unit => true
  | bool a, bool b => a = b
  | element a, element b => a = b
  | number a, number b => a = b
  | string a, string b => a = b
  | chunk a, chunk b => a = b
  | list as, list bs => sameAll as bs
  | pair a a', pair b b' => a.same b && a'.same b'
  | state a, state b => a = b
  | won a v, won b w => a = b && v.same w
  | lost a f, lost b g => a = b && f = g
  | _, _ => false

def sameAll [DecidableEq T] [DecidableEq E] : List (Value T E) → List (Value T E) → Bool
  | [], [] => true
  | a :: as, b :: bs => a.same b && sameAll as bs
  | _, _ => false

end

end Value

/-! ## Data notation -/

def record (fields : List (String × String)) : String :=
  "\x7b" ++ ",".intercalate (fields.map fun f => Literal.quoteData f.1 ++ ":" ++ f.2) ++ "\x7d"

def sequence (items : List String) : String := "[" ++ ",".intercalate items ++ "]"

def moreName : More → String
  | .complete => "complete"
  | .incomplete => "incomplete"

def Site.data (s : Site) : String :=
  record [("buffered", toString s.buffered), ("more", Literal.quoteData (moreName s.more)),
    ("pos", Literal.quoteData (toString s.pos))]

def failureFields (f : Failure) : List (String × String) :=
  [("context", sequence (f.context.map Literal.quoteData)),
    ("message", Literal.quoteData f.message)]

namespace Value

variable {T E : Type}

mutual

def data [DataForm T E] : Value T E → String
  | unit => "null"
  | bool b => if b then "true" else "false"
  | element e => DataForm.element T e
  | number n => record [("num", Literal.quoteData (toString n))]
  | string s => record [("str", Literal.quoteData s)]
  | chunk c => record [("chunk", Literal.quoteData (DataForm.chunkText c))]
  | list items => sequence (dataAll items)
  | pair a b => record [("pair", sequence [a.data, b.data])]
  | state site => record [("state", site.data)]
  | won site value => record [("won", record [("at", site.data), ("value", value.data)])]
  | lost site failure => record [("lost", record (("at", site.data) :: failureFields failure))]

def dataAll [DataForm T E] : List (Value T E) → List String
  | [] => []
  | v :: vs => v.data :: dataAll vs

end

mutual

def literal [Chunk T E] [DataForm T E] : Value T E → String
  | unit => "()"
  | bool b => if b then "true" else "false"
  | element e => Chunk.elementLiteral T e
  | number n => toString n
  | string s => Literal.quoteString s
  | chunk c => Chunk.literal c
  | list items => Literal.bracketed (literalAll items)
  | pair a b => "(" ++ a.literal ++ ", " ++ b.literal ++ ")"
  | v => v.data

def literalAll [Chunk T E] [DataForm T E] : List (Value T E) → List String
  | [] => []
  | v :: vs => v.literal :: literalAll vs

end

end Value

end Script

end Piecemeal

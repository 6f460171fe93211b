import Piecemeal.Verdict

/-!
# Parsers

A parser is a description: what to read, and how parsers are put together. `Parser.run` gives it
its meaning. The type lists the parsers that need a rule of their own; the others are definitions
over them.

`custom` is the door for parsers of the user's own making. It takes the whole rule, so nothing is
known of such a parser but what its author says; `Parser.Closed` holds of the parsers that are
put together without it.
-/

namespace Piecemeal

/-- A parser over chunks of type `T` with elements of type `E`. -/
inductive Parser (T E : Type) : Type → Type 1 where
  /-- Yields a value and reads nothing. -/
  | succeed {A : Type} (value : A) : Parser T E A
  /-- Fails for a reason and reads nothing. -/
  | fail {A : Type} (reason : String) : Parser T E A
  /-- Consumes one element, unless `refusal` gives a reason not to. -/
  | accept (refusal : E → Option String) : Parser T E E
  /-- Waits for an increment, whatever is buffered. -/
  | demandInput : Parser T E Unit
  /-- Tells whether an element follows. -/
  | wantInput : Parser T E Bool
  /-- Yields the next `n` elements and consumes none. -/
  | ensure (n : Nat) : Parser T E T
  /-- Consumes the next `n` elements. -/
  | take (n : Nat) : Parser T E T
  /-- Succeeds if no element follows. -/
  | endOfInput : Parser T E Unit
  /-- Tries a second parser from the same position if the first one fails. -/
  | orElse {A : Type} (first second : Parser T E A) : Parser T E A
  /-- Goes on with the parser that the value of the first one selects. -/
  | andThen {A B : Type} (first : Parser T E A) (next : A → Parser T E B) : Parser T E B
  /-- Applies a function to the value. -/
  | map {A B : Type} (f : A → B) (parser : Parser T E A) : Parser T E B
  /-- Repeats a parser and yields its values behind those already `found`. -/
  | manyAfter {A : Type} (found : List A) (parser : Parser T E A) : Parser T E (List A)
  /-- Names the parser in the context of its failures. -/
  | label {A : Type} (name : String) (parser : Parser T E A) : Parser T E A
  /-- Runs by a rule of the user's own. -/
  | custom {A : Type} (rule : (R : Type) → State T → Lose T R → Win T A R → Outcome T R) :
    Parser T E A

namespace Parser

variable {T E A B : Type}

/-- Fails always; leaves an alternative as it is. -/
def never : Parser T E A := fail "empty"

def satisfy (predicate : E → Bool) : Parser T E E :=
  accept fun found => if predicate found then none else some "satisfy"

/-- Consumes the element given; a refusal names it and the one found. -/
def element [Chunk T E] [DecidableEq E] (expected : E) : Parser T E E :=
  accept fun found =>
    if found = expected then none
    else some ("expected " ++ Literal.quoteChar (Chunk.toChar T expected) ++ ", found "
      ++ Literal.quoteChar (Chunk.toChar T found))

def anyElement : Parser T E E := accept fun _ => none

def atEnd : Parser T E Bool := map not wantInput

def both (first : Parser T E A) (second : Parser T E B) : Parser T E (A × B) :=
  andThen first fun a => map (fun b => (a, b)) second

/-- Repeats a parser until it fails or consumes nothing. -/
def many (parser : Parser T E A) : Parser T E (List A) := manyAfter [] parser

/-- Repeats a parser that must succeed once. -/
def many1 (parser : Parser T E A) : Parser T E (List A) :=
  andThen parser fun first => manyAfter [first] parser

/-- The parser is put together without `custom`. -/
def Closed : {A : Type} → Parser T E A → Prop
  | _, orElse first second => first.Closed ∧ second.Closed
  | _, andThen first next => first.Closed ∧ ∀ a, (next a).Closed
  | _, map _ parser => parser.Closed
  | _, manyAfter _ parser => parser.Closed
  | _, label _ parser => parser.Closed
  | _, custom _ => False
  | _, _ => True

end Parser

end Piecemeal

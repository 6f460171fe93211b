import Piecemeal.Literal.Quote

/-!
# Failures

A parser fails with a message and with the names of the labels around the place that failed,
outermost first. Whoever asks for the result of a run may also learn that the run still waits;
`ParseError` is either.
-/

namespace Piecemeal

/-- Why and where in the grammar a parser failed. -/
structure Failure where
  /-- The labels around the failing parser, outermost first. -/
  context : List String
  /-- What went wrong. -/
  message : String
  deriving DecidableEq, Repr

namespace Failure

/-- A failure outside every label. -/
def of (message : String) : Failure := ⟨[], message⟩

/-- A parser needed more elements than the input has. -/
def notEnoughInput : Failure := of "not enough input"

/-- The input goes on where it should end. -/
def endOfInput : Failure := of "endOfInput"

/-- A parser refused what it read, for the reason given. -/
def reading (reason : String) : Failure := of ("Failed reading: " ++ reason)

/-- The failure as seen from outside a label. -/
def within (name : String) (f : Failure) : Failure := { f with context := name :: f.context }

/-- The message, behind the labels that lead to it. -/
def display (f : Failure) : String :=
  if f.context.isEmpty then f.message else " > ".intercalate f.context ++ ": " ++ f.message

def contextLiteral (f : Failure) : String :=
  Literal.bracketed (f.context.map Literal.quoteString)

end Failure

/-- Why a run has no value. -/
inductive ParseError where
  /-- The parser failed. -/
  | failed (failure : Failure)
  /-- The run waits for more input. -/
  | incomplete
  deriving DecidableEq, Repr

namespace ParseError

def kind : ParseError → String
  | failed _ => "Failed"
  | incomplete => "Incomplete"

def display : ParseError → String
  | failed f => f.display
  | incomplete => "incomplete input"

def literal : ParseError → String
  | failed f =>
    "Failed \x7b context: " ++ f.contextLiteral ++ ", message: " ++ Literal.quoteString f.message
      ++ " \x7d"
  | incomplete => "Incomplete"

end ParseError

end Piecemeal

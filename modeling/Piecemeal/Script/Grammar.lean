import Piecemeal.Script.Transform
import Piecemeal.Script.Probe

/-!
# Grammars given as data

A grammar names a parser for each of its nodes; `Grammar.parser` puts the parser together. Grammars
may refer to definitions by name. A reference is looked up when the run reaches it, so definitions
may refer to each other and to themselves.
-/

namespace Piecemeal.Script

mutual

/-- A parser, given as data. -/
inductive Grammar (T E : Type) where
  | succeed (value : Value T E)
  | fail (reason : String)
  | never
  | satisfy (predicate : Predicate)
  | element (expected : E)
  | any
  | demand
  | want
  | ensure (n : Nat)
  | take (n : Nat)
  | endOfInput
  | atEnd
  | or (first second : Grammar T E)
  | and (first second : Grammar T E)
  | bind (first : Grammar T E) (next : Next T E)
  | map (f : Transform T E) (body : Grammar T E)
  | many (body : Grammar T E)
  | many1 (body : Grammar T E)
  | label (name : String) (body : Grammar T E)
  /-- The definition with this name. -/
  | ref (name : String)
  | site
  | skip (n : Nat)
  | prompted
  | wait (n : Nat)
  | stray (failure : Failure)

/-- How a value selects the parser to go on with. -/
inductive Next (T E : Type) where
  /-- The same parser whatever the value. -/
  | always (body : Grammar T E)
  /-- As many elements as the value's number. -/
  | take
  /-- As many elements as the digit with the value's number. -/
  | takeDigit
  | ensure
  | skip
  /-- The same element again, or the value itself if it is none. -/
  | same
  | succeed
  /-- A failure with the value's number as its reason. -/
  | fail
  /-- The branch for the value's number. -/
  | branch (branches : Branches T E)

/-- Parsers by number, and one for all other numbers. -/
inductive Branches (T E : Type) where
  | otherwise (body : Grammar T E)
  /-- The body for the number that reads `code`, before the others. -/
  | case (code : String) (body : Grammar T E) (rest : Branches T E)

end

variable {T E : Type} [Chunk T E] [DecidableEq E]

mutual

def Grammar.parser (define : String → Parser T E (Value T E)) :
    Grammar T E → Parser T E (Value T E)
  | .succeed value => .succeed value
  | .fail reason => .fail reason
  | .never => .never
  | .satisfy predicate =>
    .map .element (.satisfy fun e => predicate.holds (Chunk.toChar T e).toNat)
  | .element expected => .map .element (.element expected)
  | .any => .map .element .anyElement
  | .demand => .map (fun _ => .unit) .demandInput
  | .want => .map .bool .wantInput
  | .ensure n => .map .chunk (.ensure n)
  | .take n => .map .chunk (.take n)
  | .endOfInput => .map (fun _ => .unit) .endOfInput
  | .atEnd => .map .bool .atEnd
  | .or first second => .orElse (first.parser define) (second.parser define)
  | .and first second =>
    .map (fun p => .pair p.1 p.2) (.both (first.parser define) (second.parser define))
  | .bind first next => .andThen (first.parser define) (next.parser define)
  | .map f body => .map f.apply (body.parser define)
  | .many body => .map .list (.many (body.parser define))
  | .many1 body => .map .list (.many1 (body.parser define))
  | .label name body => .label name (body.parser define)
  | .ref name => define name
  | .site => Probe.site
  | .skip n => Probe.skip n
  | .prompted => Probe.prompted
  | .wait n => Probe.wait n
  | .stray failure => Probe.stray failure

def Next.parser (define : String → Parser T E (Value T E)) :
    Next T E → Value T E → Parser T E (Value T E)
  | .always body, _ => body.parser define
  | .take, v => .map .chunk (.take v.code)
  | .takeDigit, v => .map .chunk (.take (Size.wrapSub v.code 48))
  | .ensure, v => .map .chunk (.ensure v.code)
  | .skip, v => Probe.skip v.code
  | .same, .element e => .map .element (.element e)
  | .same, v => .succeed v
  | .succeed, v => .succeed v
  | .fail, v => .fail (toString v.code)
  | .branch branches, v => branches.parser define (toString v.code)

/-- The parser of the first branch whose number reads `code`. -/
def Branches.parser (define : String → Parser T E (Value T E)) :
    Branches T E → String → Parser T E (Value T E)
  | .otherwise body, _ => body.parser define
  | .case label body rest, code =>
    if label = code then body.parser define else rest.parser define code

end

abbrev Definitions (T E : Type) : Type := List (String × Grammar T E)

namespace Definitions

/-- The parser of a definition, looked up when it is reached. Each look-up takes one from
`depth`. -/
def resolve (defs : Definitions T E) : (depth : Nat) → String → Parser T E (Value T E)
  | 0, _ => .fail "definitions nested too deeply"
  | depth + 1, name =>
    .andThen (.succeed ()) fun _ =>
      match defs.lookup name with
      | some body => body.parser (defs.resolve depth)
      | none => .fail ("no definition of " ++ name)

/-- More look-ups than any run makes. -/
def depth : Nat := Nat.pow 2 62

def parser (defs : Definitions T E) (grammar : Grammar T E) : Parser T E (Value T E) :=
  grammar.parser (defs.resolve depth)

end Definitions

end Piecemeal.Script

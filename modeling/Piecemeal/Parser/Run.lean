import Piecemeal.Parser.Basic
import Piecemeal.Parser.Repetition
import Piecemeal.Parser.Waiting

/-!
# Running parsers

`Parser.run` starts a parser in a state and says how to go on after a failure and after a success.
What comes after is part of the run, so a parser that waits is resumed with everything that
follows it. `parse` starts at the beginning of an input and stops where the parser stops.
-/

namespace Piecemeal.Parser

variable {T E : Type} [Chunk T E]

/-- Runs a parser, and goes on by `lose` or `win`. -/
def run : {A : Type} → Parser T E A → {R : Type} → State T → Lose T R → Win T A R → Outcome T R
  | _, succeed value, _, s, _, win => win s value
  | _, fail reason, _, s, lose, _ => lose s (.reading reason)
  | _, accept refusal, _, s, lose, win =>
    ensuring 1 s lose fun s window =>
      .require (Chunk.head window) fun found =>
        match refusal found with
        | none => win (s.advance (Chunk.width window)) found
        | some reason => lose s (.reading reason)
  | _, demandInput, _, s, lose, win =>
    if s.more.isComplete then lose s .notEnoughInput
    else prompt s (fun s => lose s .notEnoughInput) fun s _ => win s ()
  | _, wantInput, _, s, _, win =>
    .require (Chunk.lengthAtLeast s.buffer s.pos.offset 1) fun available =>
      if available then win s true
      else if s.more.isComplete then win s false
      else prompt s (fun s => win s false) fun s _ => win s true
  | _, ensure n, _, s, lose, win => ensuring n s lose win
  | _, take n, _, s, lose, win =>
    ensuring n s lose fun s taken => win (s.advance (Chunk.width taken)) taken
  | _, endOfInput, _, s, lose, win =>
    .require (Chunk.lengthAtLeast s.buffer s.pos.offset 1) fun available =>
      if available then lose s .endOfInput
      else if s.more.isComplete then win s ()
      else prompt s (fun s => win s ()) fun s _ => lose s .endOfInput
  | _, orElse first second, _, s, lose, win =>
    first.run s
      (fun failed _ =>
        .logged (.backtracking failed.pos s.pos) fun _ => second.run (failed.moveTo s.pos) lose win)
      win
  | _, andThen first next, _, s, lose, win =>
    first.run s lose fun s value => (next value).run s lose win
  | _, map f parser, _, s, lose, win => parser.run s lose fun s value => win s (f value)
  | _, manyAfter found parser, _, s, _, win =>
    repeating (fun s => parser.run s Verdict.losing Verdict.winning) s found.reverse win
  | _, label name parser, _, s, lose, win =>
    parser.run s (fun s failure => lose s (failure.within name)) win
  | _, custom rule, R, s, lose, win => rule R s lose win

variable {A : Type}

/-- Runs a parser on its own and reports how it ended. -/
def verdict (parser : Parser T E A) (s : State T) : Outcome T (Verdict T A) :=
  parser.run s Verdict.losing Verdict.winning

/-- Stops after a failure, with the input that is not consumed. -/
def stopFailed {R : Type} : Lose T R := fun s failure =>
  .require (Chunk.drop s.buffer s.pos.offset) fun leftover => .failed leftover failure

def stopSucceeded : Win T A A := fun s value =>
  .require (Chunk.drop s.buffer s.pos.offset) fun leftover => .succeeded leftover value

def runFrom (parser : Parser T E A) (s : State T) : Outcome T A :=
  parser.run s stopFailed stopSucceeded

/-- Runs a parser over an input that may or may not be complete. -/
def parseWith (parser : Parser T E A) (input : T) (more : More) : Outcome T A :=
  parser.runFrom (.start input more)

/-- Runs a parser over an input that increments may follow. -/
def parse (parser : Parser T E A) (input : T) : Outcome T A := parser.parseWith input .incomplete

end Piecemeal.Parser

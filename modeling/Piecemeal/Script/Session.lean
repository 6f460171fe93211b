import Piecemeal.Outcome.Status
import Piecemeal.Script.Grammar

/-!
# Sessions

A session starts a run and feeds it step by step. After the start and after each step it takes a
snapshot: the events logged since the last one, and where the run stands. A fault ends the session.
-/

namespace Piecemeal.Script

variable {T E : Type}

inductive Start (T : Type) where
  /-- At the beginning of an input that increments may follow. -/
  | parse (input : T)
  /-- At the beginning of an input. -/
  | parseWith (input : T) (more : More)
  /-- In any state. -/
  | state (s : State T)
  /-- In any state, with the verdict as the value. -/
  | verdict (s : State T)

def Start.outcome [Chunk T E] (parser : Parser T E (Value T E)) :
    Start T → Outcome T (Value T E)
  | parse input => parser.parse input
  | parseWith input more => parser.parseWith input more
  | state s => parser.runFrom s
  | verdict s => (parser.verdict s).map .ofVerdict

inductive Step (T E : Type) where
  /-- Feeds a chunk a number of times. -/
  | feed (chunk : T) (times : Nat)
  /-- Feeds the elements of a chunk one by one. -/
  | each (chunk : T)
  /-- Applies a function to the value. -/
  | map (f : Transform T E)

def Step.increments [Chunk T E] : Step T E → List T
  | feed chunk times => List.replicate times chunk
  | each chunk => (Chunk.toList chunk).map fun e => Chunk.ofList [e]
  | map _ => []

/-- A run without a parser, to start a session from. -/
inductive Given (T E : Type) where
  | failed (leftover : T) (failure : Failure)
  | succeeded (leftover : T) (value : Value T E)
  /-- Waits until an increment is not empty. -/
  | idle

/-- The given run; one that waits is followed as far as the steps go. -/
def Given.outcome [Chunk T E] (steps : List (Step T E)) : Given T E → Outcome T (Value T E)
  | failed leftover failure => .failed leftover failure
  | succeeded leftover value => .succeeded leftover value
  | idle => Probe.idle.unroll (steps.flatMap Step.increments).length

/-- What a session sees of a run at one moment. -/
structure Snapshot (T E : Type) where
  /-- The events since the last snapshot. -/
  events : List Event
  status : Status T (Value T E)

/-- Feeds a run one increment after another, unless it breaks off, and adds to the log. -/
def feedAll [Chunk T E] (log : Array Event) (status : Status T (Value T E)) :
    List T → Array Event × Status T (Value T E)
  | [] => (log, status)
  | c :: rest =>
    if status.isFaulted then (log, status)
    else
      let (log, status) := (status.toOutcome.feed c).settleInto log
      feedAll log status rest

def Step.snapshot [Chunk T E] (status : Status T (Value T E)) (step : Step T E) : Snapshot T E :=
  match step with
  | .map f => ⟨[], status.map f.apply⟩
  | step =>
    let (log, status) := feedAll #[] status step.increments
    ⟨log.toList, status⟩

def play [Chunk T E] (status : Status T (Value T E)) : List (Step T E) → List (Snapshot T E)
  | [] => []
  | step :: rest =>
    if status.isFaulted then []
    else
      let snapshot := step.snapshot status
      snapshot :: play snapshot.status rest

/-- The snapshots of a session: the first one and the later ones. -/
structure Session (T E : Type) where
  first : Snapshot T E
  later : List (Snapshot T E)

namespace Session

def run [Chunk T E] (o : Outcome T (Value T E)) (steps : List (Step T E)) : Session T E :=
  let (events, status) := o.settle
  ⟨⟨events, status⟩, play status steps⟩

def snapshots (session : Session T E) : List (Snapshot T E) := session.first :: session.later

def last (session : Session T E) : Snapshot T E := session.later.getLast?.getD session.first

/-- The two sessions ended alike. -/
def agrees [DecidableEq T] [DecidableEq E] (left right : Session T E) : Bool :=
  left.last.status.agrees Value.same right.last.status

end Session

end Piecemeal.Script

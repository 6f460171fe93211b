import Piecemeal.Chunk.Basic
import Piecemeal.Event
import Piecemeal.Failure

/-!
# Outcomes

What a run comes to. An outcome is a tree: it ends in a failure, in a value or in a fault, it
waits for an increment and goes on depending on it, or it logs an event before it goes on. What
is left of the input travels with a finished outcome, and feeding one only adds to it.

`map` changes the value at the end, `bind` goes on from it. `map` keeps identities and
compositions (`map_id`, `map_map`) and may be done before or after feeding (`feed_map`).
-/

namespace Piecemeal

/-- What a run over chunks of type `T` with values of type `R` comes to. The waits on each path are
bounded: whatever increments come, there is an end after some of them. A run that may wait for ever
is a `Dialogue`. -/
inductive Outcome (T R : Type) where
  /-- The parser failed, with this much input left. -/
  | failed (leftover : T) (failure : Failure)
  /-- The parser succeeded, with this much input left. -/
  | succeeded (leftover : T) (value : R)
  /-- The run waits for an increment; an empty one says that the input is complete. -/
  | suspended (resume : T → Outcome T R)
  /-- The run logs an event and goes on. -/
  | logged (event : Event) (rest : Unit → Outcome T R)
  /-- The run asked a chunk for something that is not there. -/
  | faulted (fault : Fault)

namespace Outcome

variable {T E A B R : Type}

/-- Goes on with the answer of a chunk operation. -/
def require (answer : Except Fault A) (next : A → Outcome T R) : Outcome T R :=
  match answer with
  | .ok a => next a
  | .error fault => faulted fault

def map (f : A → B) : Outcome T A → Outcome T B
  | failed leftover failure => failed leftover failure
  | succeeded leftover value => succeeded leftover (f value)
  | suspended resume => suspended fun c => (resume c).map f
  | logged event rest => logged event fun u => (rest u).map f
  | faulted fault => faulted fault

/-- Goes on from the value at the end, and forgets what was left of the input there. Failures
and faults stand. -/
def bind (o : Outcome T A) (next : A → Outcome T B) : Outcome T B :=
  match o with
  | failed leftover failure => failed leftover failure
  | succeeded _ value => next value
  | suspended resume => suspended fun c => (resume c).bind next
  | logged event rest => logged event fun u => (rest u).bind next
  | faulted fault => faulted fault

/-- Gives the run an increment. A run that waits goes on with it; a finished one keeps it with
the rest of the input. -/
def feed [Chunk T E] (o : Outcome T R) (c : T) : Outcome T R :=
  match o with
  | failed leftover failure => failed (Chunk.append leftover c) failure
  | succeeded leftover value => succeeded (Chunk.append leftover c) value
  | suspended resume => resume c
  | logged event rest => logged event fun u => (rest u).feed c
  | faulted fault => faulted fault

/-! ## Laws -/

@[simp] theorem map_id (o : Outcome T A) : o.map id = o := by
  induction o with
  | failed => rfl
  | succeeded => rfl
  | suspended _ ih => exact congrArg suspended (funext ih)
  | logged _ _ ih => exact congrArg (logged _) (funext ih)
  | faulted => rfl

theorem map_map (f : A → B) (g : B → R) (o : Outcome T A) :
    (o.map f).map g = o.map (g ∘ f) := by
  induction o with
  | failed => rfl
  | succeeded => rfl
  | suspended _ ih => exact congrArg suspended (funext ih)
  | logged _ _ ih => exact congrArg (logged _) (funext ih)
  | faulted => rfl

theorem feed_map [Chunk T E] (f : A → B) (o : Outcome T A) (c : T) :
    (o.map f).feed c = (o.feed c).map f := by
  induction o with
  | failed => rfl
  | succeeded => rfl
  | suspended => rfl
  | logged _ _ ih => exact congrArg (logged _) (funext ih)
  | faulted => rfl

theorem bind_assoc (o : Outcome T A) (f : A → Outcome T B) (g : B → Outcome T R) :
    (o.bind f).bind g = o.bind fun a => (f a).bind g := by
  induction o with
  | failed => rfl
  | succeeded => rfl
  | suspended _ ih => exact congrArg suspended (funext ih)
  | logged _ _ ih => exact congrArg (logged _) (funext ih)
  | faulted => rfl

end Outcome

end Piecemeal

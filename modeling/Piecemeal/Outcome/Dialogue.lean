import Piecemeal.Outcome.Status

/-!
# Dialogues

The waits on a path through an outcome come to an end. A dialogue may wait for ever: it is given by
the situations that it can be in and by what is seen in each, and an increment takes it from one to
the next. It is mapped and fed as an outcome is, and an outcome is a dialogue that ends on every
path.

`unroll` goes along with a dialogue through a number of increments. What it gives is an outcome,
which can be run.
-/

namespace Piecemeal

/-- What is seen of a run at one moment, with `S` for where an increment takes it. -/
inductive Stage (T R S : Type) where
  /-- The parser failed, with this much input left. -/
  | failed (leftover : T) (failure : Failure)
  /-- The parser succeeded, with this much input left. -/
  | succeeded (leftover : T) (value : R)
  /-- The run waits for an increment. -/
  | suspended (resume : T → S)
  /-- The run was broken off by a fault. -/
  | faulted (fault : Fault)

namespace Stage

variable {T E A B R S : Type}

def map (f : A → B) : Stage T A S → Stage T B S
  | failed leftover failure => failed leftover failure
  | succeeded leftover value => succeeded leftover (f value)
  | suspended resume => suspended resume
  | faulted fault => faulted fault

/-- The outcome that starts with a stage, given what follows an increment. -/
def outcome (next : T → S → Outcome T R) : Stage T R S → Outcome T R
  | failed leftover failure => .failed leftover failure
  | succeeded leftover value => .succeeded leftover value
  | suspended resume => .suspended fun c => next c (resume c)
  | faulted fault => .faulted fault

/-- What can be told without an increment. -/
def seen : Stage T R S → Stage T R Unit
  | failed leftover failure => failed leftover failure
  | succeeded leftover value => succeeded leftover value
  | suspended _ => suspended fun _ => ()
  | faulted fault => faulted fault

@[simp] theorem map_id (stage : Stage T A S) : stage.map id = stage := by cases stage <;> rfl

theorem map_map (f : A → B) (g : B → R) (stage : Stage T A S) :
    (stage.map f).map g = stage.map (g ∘ f) := by
  cases stage <;> rfl

theorem seen_map (f : A → B) (stage : Stage T A S) : (stage.map f).seen = stage.seen.map f := by
  cases stage <;> rfl

end Stage

def Status.stage {T R : Type} : Status T R → Stage T R (Status T R)
  | failed leftover failure => .failed leftover failure
  | succeeded leftover value => .succeeded leftover value
  | suspended resume => .suspended fun c => (resume c).status
  | faulted fault => .faulted fault

/-- A run that may wait for ever. -/
structure Dialogue (T R : Type) where
  /-- Where it can be. -/
  Situation : Type
  /-- What is seen there. -/
  look : Situation → Stage T R Situation
  /-- Where it is. -/
  now : Situation

def Outcome.dialogue {T R : Type} (o : Outcome T R) : Dialogue T R :=
  ⟨Status T R, Status.stage, o.status⟩

namespace Dialogue

variable {T E A B R : Type}

def seen (d : Dialogue T R) : Stage T R Unit := (d.look d.now).seen

/-- The dialogue in which the same is seen always. -/
def always (stage : Stage T R Unit) : Dialogue T R := ⟨Unit, fun _ => stage, ()⟩

def map (f : A → B) (d : Dialogue T A) : Dialogue T B :=
  ⟨d.Situation, fun s => (d.look s).map f, d.now⟩

/-- The dialogue after an increment, from what was seen before. One that waits goes on with the
increment; a finished one keeps it with the rest of the input. -/
def after [Chunk T E] {S : Type} (look : S → Stage T R S) (c : T) : Stage T R S → Dialogue T R
  | .failed leftover failure => always (.failed (Chunk.append leftover c) failure)
  | .succeeded leftover value => always (.succeeded (Chunk.append leftover c) value)
  | .suspended resume => ⟨S, look, resume c⟩
  | .faulted fault => always (.faulted fault)

def feed [Chunk T E] (d : Dialogue T R) (c : T) : Dialogue T R := after d.look c (d.look d.now)

/-- The outcome that goes along with a dialogue through `n` increments from a situation. It fails
at one more. -/
def follow {S : Type} (look : S → Stage T R S) : (n : Nat) → S → Outcome T R
  | 0, s => (look s).outcome fun c _ => .failed c .notEnoughInput
  | n + 1, s => (look s).outcome fun _ next => follow look n next

def unroll (d : Dialogue T R) (n : Nat) : Outcome T R := follow d.look n d.now

/-! ## Laws -/

theorem map_id (d : Dialogue T A) : d.map id = d := by
  have hlook : (fun s => (d.look s).map id) = d.look := funext fun s => Stage.map_id _
  unfold map
  rw [hlook]

theorem map_map (f : A → B) (g : B → R) (d : Dialogue T A) :
    (d.map f).map g = d.map (g ∘ f) := by
  have hlook : (fun s => ((d.look s).map f).map g) = fun s => (d.look s).map (g ∘ f) :=
    funext fun s => Stage.map_map f g _
  unfold map
  rw [hlook]

theorem seen_map (f : A → B) (d : Dialogue T A) : (d.map f).seen = d.seen.map f :=
  Stage.seen_map f _

theorem feed_map [Chunk T E] (f : A → B) (d : Dialogue T A) (c : T) :
    (d.map f).feed c = (d.feed c).map f := by
  have hafter : ∀ stage, after (d.map f).look c (stage.map f) = (after d.look c stage).map f := by
    intro stage
    cases stage <;> rfl
  exact hafter _

end Dialogue

end Piecemeal

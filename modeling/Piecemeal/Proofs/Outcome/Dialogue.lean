import Piecemeal.Proofs.Outcome.Feeding
import Piecemeal.Script.Probe

/-!
# Mapping and feeding

Outcomes and dialogues are two kinds of runs (`RunKind`): both are mapped and fed, and of both it is
seen where they stand. `RunKind.StepLaws` says what mapping does and what one increment does, and
`RunKind.Laws` what follows for any increments. Runs are `Alike` that show the same whatever they
are fed.

Outcomes are dialogues that end (`seen_feedAll_dialogue`), and a dialogue is an outcome as far as
one follows it (`feedAll_unroll`).
-/

namespace Piecemeal

universe u

variable {T E A B R S : Type}

namespace Chunk

def concat [Chunk T E] (cs : List T) : T := appendAll empty cs

variable [Chunk T E] [LawfulChunk T E]

theorem toList_concat (cs : List T) : toList (concat cs) = cs.flatMap toList := by
  rw [concat, toList_appendAll, LawfulChunk.toList_empty, List.nil_append]

theorem concat_cons (c : T) (cs : List T) : concat (c :: cs) = append c (concat cs) := by
  apply ext_toList
  rw [LawfulChunk.toList_append, toList_concat, toList_concat, List.flatMap_cons]

end Chunk

/-! ## What is seen -/

namespace Stage

/-- The run does not wait any more. -/
def Over : Stage T R S → Prop
  | suspended _ => False
  | _ => True

/-- The same end, with more input left. -/
def grown [Chunk T E] (c : T) : Stage T R S → Stage T R S
  | failed leftover failure => failed (Chunk.append leftover c) failure
  | succeeded leftover value => succeeded (Chunk.append leftover c) value
  | suspended resume => suspended resume
  | faulted fault => faulted fault

variable [Chunk T E]

theorem over_grown (c : T) (stage : Stage T R S) : (stage.grown c).Over ↔ stage.Over := by
  cases stage <;> rfl

variable [LawfulChunk T E]

theorem grown_empty (stage : Stage T R S) : stage.grown (Chunk.empty : T) = stage := by
  cases stage with
  | failed leftover failure =>
    exact congrArg (failed · failure) (Chunk.append_of_isEmpty leftover Chunk.isEmpty_empty)
  | succeeded leftover value =>
    exact congrArg (succeeded · value) (Chunk.append_of_isEmpty leftover Chunk.isEmpty_empty)
  | suspended => rfl
  | faulted => rfl

theorem grown_grown (c d : T) (stage : Stage T R S) :
    (stage.grown c).grown d = stage.grown (Chunk.append c d) := by
  have hassoc : ∀ l : T, Chunk.append (Chunk.append l c) d = Chunk.append l (Chunk.append c d) := by
    intro l
    apply Chunk.ext_toList
    simp only [LawfulChunk.toList_append, List.append_assoc]
  cases stage with
  | failed leftover failure => exact congrArg (failed · failure) (hassoc leftover)
  | succeeded leftover value => exact congrArg (succeeded · value) (hassoc leftover)
  | suspended => rfl
  | faulted => rfl

end Stage

def Outcome.seen (o : Outcome T R) : Stage T R Unit := o.status.stage.seen

theorem Outcome.seen_map (f : A → B) (o : Outcome T A) : (o.map f).seen = o.seen.map f := by
  unfold seen
  rw [Status.status_map]
  cases o.status <;> rfl

theorem Outcome.seen_feed [Chunk T E] {o : Outcome T R} (h : o.seen.Over) (c : T) :
    (o.feed c).seen = o.seen.grown c := by
  unfold seen at h ⊢
  rw [status_feed]
  cases hstatus : o.status with
  | suspended resume =>
    rw [hstatus] at h
    exact h.elim
  | _ => rfl

theorem Dialogue.seen_feed [Chunk T E] {d : Dialogue T R} (h : d.seen.Over) (c : T) :
    (d.feed c).seen = d.seen.grown c := by
  unfold seen at h
  unfold feed
  cases hlook : d.look d.now with
  | suspended resume =>
    rw [hlook] at h
    exact h.elim
  | _ => simp only [seen, hlook]; rfl

theorem Stage.seen_outcome (next : T → S → Outcome T R) (stage : Stage T R S) :
    (stage.outcome next).seen = stage.seen := by
  cases stage <;> rfl

/-! ## Kinds of runs -/

/-- One kind of runs: how they are mapped and fed, and what is seen of them. -/
structure RunKind (T : Type) where
  Run : Type → Type u
  map : {A B : Type} → (A → B) → Run A → Run B
  feed : {R : Type} → Run R → T → Run R
  seen : {R : Type} → Run R → Stage T R Unit

namespace RunKind

def outcomes [Chunk T E] : RunKind T where
  Run := Outcome T
  map := Outcome.map
  feed := Outcome.feed
  seen := Outcome.seen

def dialogues [Chunk T E] : RunKind T where
  Run := Dialogue T
  map := Dialogue.map
  feed := Dialogue.feed
  seen := Dialogue.seen

section

variable (k : RunKind.{u} T)

def feedAll (o : k.Run R) (cs : List T) : k.Run R := cs.foldl k.feed o

/-- The runs show the same, whatever they are fed. -/
def Alike (o o' : k.Run R) : Prop :=
  ∀ cs : List T, k.seen (k.feedAll o cs) = k.seen (k.feedAll o' cs)

structure StepLaws [Chunk T E] : Prop where
  map_id {A : Type} (o : k.Run A) : k.map id o = o
  map_map {A B R : Type} (f : A → B) (g : B → R) (o : k.Run A) :
    k.map g (k.map f o) = k.map (g ∘ f) o
  seen_map {A B : Type} (f : A → B) (o : k.Run A) : k.seen (k.map f o) = (k.seen o).map f
  feed_map {A B : Type} (f : A → B) (o : k.Run A) (c : T) :
    k.feed (k.map f o) c = k.map f (k.feed o c)
  seen_feed {R : Type} {o : k.Run R} (h : (k.seen o).Over) (c : T) :
    k.seen (k.feed o c) = (k.seen o).grown c

/-- What mapping does, and what any increments do, as far as can be seen. -/
structure Laws [Chunk T E] : Prop where
  map_id {A : Type} (o : k.Run A) : k.Alike (k.map id o) o
  map_map {A B R : Type} (f : A → B) (g : B → R) (o : k.Run A) :
    k.Alike (k.map g (k.map f o)) (k.map (g ∘ f) o)
  /-- Mapping changes the value and nothing else. -/
  seen_map {A B : Type} (f : A → B) (o : k.Run A) (cs : List T) :
    k.seen (k.feedAll (k.map f o) cs) = (k.seen (k.feedAll o cs)).map f
  /-- A function may be applied before the increments or after them. -/
  feedAll_map {A B : Type} (f : A → B) (o : k.Run A) (cs : List T) :
    k.Alike (k.feedAll (k.map f o) cs) (k.map f (k.feedAll o cs))
  /-- A run that is over keeps its end, and increments go behind what it left. -/
  seen_feedAll {R : Type} {o : k.Run R} (h : (k.seen o).Over) (cs : List T) :
    k.seen (k.feedAll o cs) = (k.seen o).grown (Chunk.concat cs)
  /-- To a run that is over, several increments are one. -/
  feed_concat {R : Type} {o : k.Run R} (h : (k.seen o).Over) (cs : List T) :
    k.Alike (k.feedAll o cs) (k.feed o (Chunk.concat cs))

end

variable {k : RunKind.{u} T}

theorem alike_of_eq {o o' : k.Run R} (h : o = o') : k.Alike o o' := fun _ => h ▸ rfl

namespace StepLaws

variable [Chunk T E]

theorem feedAll_map (h : k.StepLaws) (f : A → B) (o : k.Run A) (cs : List T) :
    k.feedAll (k.map f o) cs = k.map f (k.feedAll o cs) := by
  induction cs generalizing o with
  | nil => rfl
  | cons c cs ih =>
    have hfirst := h.feed_map f o c
    exact (congrArg (k.feedAll · cs) hfirst).trans (ih (k.feed o c))

variable [LawfulChunk T E]

theorem seen_feedAll (h : k.StepLaws) {o : k.Run R} (hover : (k.seen o).Over) (cs : List T) :
    k.seen (k.feedAll o cs) = (k.seen o).grown (Chunk.concat cs) := by
  induction cs generalizing o with
  | nil => exact (Stage.grown_empty _).symm
  | cons c cs ih =>
    have hfirst := h.seen_feed hover c
    have hrest := ih (o := k.feed o c) (by rwa [hfirst, Stage.over_grown])
    rw [hfirst, Stage.grown_grown, ← Chunk.concat_cons] at hrest
    exact hrest

theorem laws (h : k.StepLaws) : k.Laws where
  map_id o := alike_of_eq (h.map_id o)
  map_map f g o := alike_of_eq (h.map_map f g o)
  seen_map f o cs := by
    rw [h.feedAll_map, h.seen_map]
  feedAll_map f o cs := alike_of_eq (h.feedAll_map f o cs)
  seen_feedAll hover cs := h.seen_feedAll hover cs
  feed_concat {R o} hover cs ds := by
    have hone := h.seen_feed hover (Chunk.concat cs)
    have hall := h.seen_feedAll hover cs
    rw [h.seen_feedAll (by rwa [hall, Stage.over_grown]), hall,
      h.seen_feedAll (by rwa [hone, Stage.over_grown]), hone]

end StepLaws

variable [Chunk T E]

theorem outcomes_stepLaws : (outcomes : RunKind T).StepLaws where
  map_id := Outcome.map_id
  map_map := Outcome.map_map
  seen_map := Outcome.seen_map
  feed_map := Outcome.feed_map
  seen_feed hover c := Outcome.seen_feed hover c

theorem dialogues_stepLaws : (dialogues : RunKind T).StepLaws where
  map_id := Dialogue.map_id
  map_map := Dialogue.map_map
  seen_map := Dialogue.seen_map
  feed_map := Dialogue.feed_map
  seen_feed hover c := Dialogue.seen_feed hover c

end RunKind

/-! ## Outcomes as dialogues, dialogues as outcomes -/

open RunKind

section

variable [Chunk T E] [LawfulChunk T E]

theorem seen_feedAll_dialogue (o : Outcome T R) (cs : List T) :
    dialogues.seen (dialogues.feedAll o.dialogue cs) = outcomes.seen (outcomes.feedAll o cs) := by
  induction cs generalizing o with
  | nil => rfl
  | cons c cs ih =>
    cases hstatus : o.status with
    | suspended resume =>
      have hdialogue : o.dialogue.feed c = (resume c).dialogue := by
        unfold Outcome.dialogue Dialogue.feed
        rw [hstatus]
        rfl
      have houtcome : (o.feed c).status = (resume c).status := by
        rw [Outcome.status_feed, hstatus]
        rfl
      have hsame : (o.feed c).dialogue = (resume c).dialogue := by
        unfold Outcome.dialogue
        rw [houtcome]
      have hrest := ih (o.feed c)
      rw [hsame, ← hdialogue] at hrest
      exact hrest
    | _ =>
      have hover : o.seen.Over := by
        unfold Outcome.seen
        rw [hstatus]
        trivial
      have hleft := dialogues_stepLaws.seen_feedAll (o := o.dialogue) hover (c :: cs)
      exact hleft.trans (outcomes_stepLaws.seen_feedAll hover (c :: cs)).symm

end

namespace Dialogue

theorem seen_unroll (d : Dialogue T R) (n : Nat) : (d.unroll n).seen = d.seen := by
  unfold unroll seen
  cases n with
  | zero =>
    rw [follow]
    exact Stage.seen_outcome _ _
  | succ n =>
    rw [follow]
    exact Stage.seen_outcome _ _

variable [Chunk T E]

theorem feed_unroll (d : Dialogue T R) (n : Nat) (c : T) :
    (d.unroll (n + 1)).feed c = (d.feed c).unroll n := by
  have hfeed : ∀ stage : Stage T R d.Situation,
      (stage.outcome fun _ next => follow d.look n next).feed c
        = (after d.look c stage).unroll n := by
    intro stage
    cases stage with
    | suspended => rfl
    | _ => cases n <;> rfl
  exact hfeed _

theorem feedAll_unroll (d : Dialogue T R) (cs : List T) (n : Nat) :
    (d.unroll (n + cs.length)).feedAll cs = (dialogues.feedAll d cs : Dialogue T R).unroll n := by
  induction cs generalizing d with
  | nil => rfl
  | cons c cs ih =>
    have hfirst := d.feed_unroll (n + cs.length) c
    exact (congrArg (Outcome.feedAll · cs) hfirst).trans (ih (d.feed c))

end Dialogue

/-- Mapping is a functor that commutes with feeding, for outcomes and for dialogues, which may wait
for ever; and once a run is over, increments only go behind what it left, as one. An outcome shows
the same as a dialogue, and a dialogue the same as an outcome that follows it for long enough. -/
theorem mapping_commutes_with_feeding [Chunk T E] [LawfulChunk T E] :
    (outcomes : RunKind T).Laws ∧ (dialogues : RunKind T).Laws ∧
    (∀ {R : Type} (o : Outcome T R) (cs : List T),
      dialogues.seen (dialogues.feedAll o.dialogue cs) = outcomes.seen (outcomes.feedAll o cs)) ∧
    ∀ {R : Type} (d : Dialogue T R) (n : Nat) (cs : List T), cs.length ≤ n →
      outcomes.seen (outcomes.feedAll (d.unroll n) cs) = dialogues.seen (dialogues.feedAll d cs) := by
  refine ⟨outcomes_stepLaws.laws, dialogues_stepLaws.laws, seen_feedAll_dialogue, ?_⟩
  intro R d n cs hlength
  obtain ⟨more, rfl⟩ := Nat.exists_eq_add_of_le' hlength
  have hfollow := d.feedAll_unroll cs more
  exact (congrArg Outcome.seen hfollow).trans (Dialogue.seen_unroll _ more)

/-- A run that waits through empty increments, mapped while it waits and fed after its end. -/
theorem mapping_commutes_with_feeding_idle :
    dialogues.seen (dialogues.feedAll (Script.Probe.idle : Dialogue Bytes (Script.Value Bytes UInt8))
      [Chunk.empty, Chunk.empty, Chunk.empty]) = .suspended (fun _ => ()) ∧
    dialogues.seen (dialogues.feedAll (dialogues.map Script.Value.code
        (Script.Probe.idle : Dialogue Bytes (Script.Value Bytes UInt8)))
      [Chunk.empty, Segment.ofList [97, 98], Segment.ofList [99], Segment.ofList [100]])
      = .succeeded (Segment.ofList [99, 100]) 2 ∧
    outcomes.seen (outcomes.feedAll (outcomes.map Script.Value.code
        ((Script.Probe.idle : Dialogue Bytes (Script.Value Bytes UInt8)).unroll 4))
      [Chunk.empty, Segment.ofList [97, 98], Segment.ofList [99], Segment.ofList [100]])
      = .succeeded (Segment.ofList [99, 100]) 2 := by
  obtain ⟨houtcomes, hdialogues, -, hunroll⟩ := mapping_commutes_with_feeding (T := Bytes)
  have hend : (Chunk.append Chunk.empty (Chunk.concat [Segment.ofList [99], Segment.ofList [100]])
      : Bytes) = Segment.ofList [99, 100] := Segment.ext (by decide +kernel)
  have hmapped := hdialogues.feedAll_map Script.Value.code Script.Probe.idle
    [Chunk.empty, Segment.ofList [97, 98]] [Segment.ofList [99], Segment.ofList [100]]
  have hfed := hdialogues.seen_feedAll (o := dialogues.map Script.Value.code (dialogues.feedAll
    Script.Probe.idle [Chunk.empty, Segment.ofList [97, 98]])) trivial
    [Segment.ofList [99], Segment.ofList [100]]
  have hdialogue := (hmapped.trans hfed).trans (congrArg (Stage.succeeded · 2) hend)
  refine ⟨rfl, hdialogue, ?_⟩
  have hfollowed := hunroll Script.Probe.idle 4 [Chunk.empty, Segment.ofList [97, 98],
    Segment.ofList [99], Segment.ofList [100]] (by decide)
  have houtcome := (houtcomes.seen_map Script.Value.code _ _).trans
    (congrArg (Stage.map _) hfollowed)
  exact houtcome.trans ((hdialogues.seen_map Script.Value.code _ _).symm.trans hdialogue)

end Piecemeal

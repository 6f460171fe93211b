import Mathlib.Data.List.Forall2
import Piecemeal.Proofs.Outcome.Feeding

/-!
# Runs in lockstep

A `Pairing` sets two kinds of input side by side. Elements of the one kind stand for elements of the
other, of the same width, and the first input may have bytes in front that the second one lacks.
Chunks correspond if their elements do, one by one.

`pairing.Lockstep ends cs cs' o o'`: given the increments `cs` and `cs'`, the two runs log the same
events, but for positions and widths that count the bytes in front, they wait at the same moments,
and they finish together. So they stand alike after these increments (`Lockstep.feedAll`).
-/

namespace Piecemeal

variable {T T' E E' R R' : Type} [Chunk T E] [Chunk T' E']

/-- Two kinds of input, set side by side. -/
structure Pairing (T T' : Type) {E E' : Type} [Chunk T E] [Chunk T' E'] where
  /-- The one element stands for the other. -/
  elements : E → E' → Prop
  widthOf_eq {e : E} {e' : E'} (h : elements e e') : Chunk.widthOf T [e] = Chunk.widthOf T' [e']
  /-- The number of bytes in front that only the first input has. -/
  skip : Nat

/-- The event as logged by a run that has `n` more bytes in front. -/
def Event.shifted (n : Nat) : Event → Event
  | suspending pos buffered => suspending (pos.advance n) (buffered + n)
  | inputEnded pos => inputEnded (pos.advance n)
  | resuming pos received => resuming (pos.advance n) received
  | backtracking failedAt restart => backtracking (failedAt.advance n) (restart.advance n)
  | repetitionStopped pos count => repetitionStopped (pos.advance n) count
  | noProgress pos count => noProgress (pos.advance n) count

theorem Event.shifted_zero (event : Event) : event.shifted 0 = event := by
  cases event <;> simp [shifted]

namespace Pairing

/-- The elements of the one chunk stand for those of the other. -/
def chunks (pairing : Pairing T T') (c : T) (c' : T') : Prop :=
  List.Forall₂ pairing.elements (Chunk.toList c) (Chunk.toList c')

/-- Both runs wait, or both have finished in the same way, with inputs left that correspond. -/
def StandAlike (pairing : Pairing T T') (rel : R → R' → Prop) : Status T R → Status T' R' → Prop
  | .failed leftover failure, .failed leftover' failure' =>
    pairing.chunks leftover leftover' ∧ failure = failure'
  | .succeeded leftover value, .succeeded leftover' value' =>
    pairing.chunks leftover leftover' ∧ rel value value'
  | .suspended _, .suspended _ => True
  | _, _ => False

/-- Two runs that are given these increments go on together. Where they succeed, `ends` relates the
increments still to come, what is left, and the values. -/
inductive Lockstep (pairing : Pairing T T')
    (ends : List T → T → R → List T' → T' → R' → Prop) :
    List T → List T' → Outcome T R → Outcome T' R' → Prop where
  | failed {cs : List T} {cs' : List T'} {leftover : T} {leftover' : T'} {failure : Failure} :
      pairing.chunks leftover leftover' →
      Lockstep pairing ends cs cs' (.failed leftover failure) (.failed leftover' failure)
  | succeeded {cs : List T} {cs' : List T'} {leftover : T} {leftover' : T'} {value : R}
      {value' : R'} : ends cs leftover value cs' leftover' value' →
      Lockstep pairing ends cs cs' (.succeeded leftover value) (.succeeded leftover' value')
  | waiting {resume : T → Outcome T R} {resume' : T' → Outcome T' R'} :
      Lockstep pairing ends [] [] (.suspended resume) (.suspended resume')
  | resumed {c : T} {c' : T'} {cs : List T} {cs' : List T'} {resume : T → Outcome T R}
      {resume' : T' → Outcome T' R'} : Lockstep pairing ends cs cs' (resume c) (resume' c') →
      Lockstep pairing ends (c :: cs) (c' :: cs') (.suspended resume) (.suspended resume')
  | logged {cs : List T} {cs' : List T'} {event event' : Event} {rest : Unit → Outcome T R}
      {rest' : Unit → Outcome T' R'} : event = event'.shifted pairing.skip →
      Lockstep pairing ends cs cs' (rest ()) (rest' ()) →
      Lockstep pairing ends cs cs' (.logged event rest) (.logged event' rest')

abbrev Finishing (pairing : Pairing T T') (rel : R → R' → Prop) :
    List T → List T' → Outcome T R → Outcome T' R' → Prop :=
  pairing.Lockstep fun _ leftover value _ leftover' value' =>
    pairing.chunks leftover leftover' ∧ rel value value'

variable {pairing : Pairing T T'}

theorem Lockstep.mono {ends ends' : List T → T → R → List T' → T' → R' → Prop} {cs : List T}
    {cs' : List T'} {o : Outcome T R} {o' : Outcome T' R'} (h : pairing.Lockstep ends cs cs' o o')
    (hends : ∀ ds l a ds' l' a', ends ds l a ds' l' a' → ends' ds l a ds' l' a') :
    pairing.Lockstep ends' cs cs' o o' := by
  induction h with
  | failed hleft => exact .failed hleft
  | succeeded hend => exact .succeeded (hends _ _ _ _ _ _ hend)
  | waiting => exact .waiting
  | resumed _ ih => exact .resumed ih
  | logged hevent _ ih => exact .logged hevent ih

variable [LawfulChunk T E] [LawfulChunk T' E']

/-! ## Chunks that correspond -/

theorem chunks_append {c d : T} {c' d' : T'} (hc : pairing.chunks c c') (hd : pairing.chunks d d') :
    pairing.chunks (Chunk.append c d) (Chunk.append c' d') := by
  unfold chunks
  rw [LawfulChunk.toList_append, LawfulChunk.toList_append]
  exact List.rel_append hc hd

theorem chunks_appendAll {c : T} {c' : T'} {cs : List T} {cs' : List T'}
    (hc : pairing.chunks c c') (hcs : List.Forall₂ pairing.chunks cs cs') :
    pairing.chunks (Chunk.appendAll c cs) (Chunk.appendAll c' cs') := by
  induction hcs generalizing c c' with
  | nil => exact hc
  | cons hd _ ih => exact ih (chunks_append hc hd)

theorem chunks_ofList {es : List E} {es' : List E'} (h : List.Forall₂ pairing.elements es es') :
    pairing.chunks (Chunk.ofList es) (Chunk.ofList es') := by
  unfold chunks
  rw [LawfulChunk.toList_ofList, LawfulChunk.toList_ofList]
  exact h

theorem widthOf_eq_of_forall₂ {es : List E} {es' : List E'}
    (h : List.Forall₂ pairing.elements es es') : Chunk.widthOf T es = Chunk.widthOf T' es' := by
  induction h with
  | nil => rw [Chunk.widthOf_nil, Chunk.widthOf_nil]
  | @cons e e' es es' he _ ih =>
    rw [← List.singleton_append, ← List.singleton_append (l := es'), Chunk.widthOf_append,
      Chunk.widthOf_append, pairing.widthOf_eq he, ih]

theorem width_eq {c : T} {c' : T'} (h : pairing.chunks c c') : Chunk.width c = Chunk.width c' := by
  rw [← Chunk.widthOf_toList c, ← Chunk.widthOf_toList c']
  exact widthOf_eq_of_forall₂ h

theorem isEmpty_eq {c : T} {c' : T'} (h : pairing.chunks c c') :
    Chunk.isEmpty c = Chunk.isEmpty c' := by
  rw [Bool.eq_iff_iff, LawfulChunk.isEmpty_iff, LawfulChunk.isEmpty_iff,
    ← List.length_eq_zero_iff, ← List.length_eq_zero_iff, h.length_eq]

/-! ## Feeding both runs -/

/-- After the increments the two runs stand alike, and they have logged the same. -/
theorem Lockstep.feedAll {rel : R → R' → Prop} {cs : List T} {cs' : List T'} {o : Outcome T R}
    {o' : Outcome T' R'} (h : pairing.Finishing rel cs cs' o o')
    (hcs : List.Forall₂ pairing.chunks cs cs') :
    pairing.StandAlike rel (o.feedAll cs).status (o'.feedAll cs').status ∧
      (o.feedAll cs).events = (o'.feedAll cs').events.map (Event.shifted pairing.skip) := by
  induction h with
  | failed hleft =>
    rw [Outcome.feedAll_failed, Outcome.feedAll_failed]
    exact ⟨⟨chunks_appendAll hleft hcs, rfl⟩, rfl⟩
  | succeeded hend =>
    rw [Outcome.feedAll_succeeded, Outcome.feedAll_succeeded]
    exact ⟨⟨chunks_appendAll hend.1 hcs, hend.2⟩, rfl⟩
  | waiting => exact ⟨trivial, rfl⟩
  | resumed _ ih =>
    rw [List.forall₂_cons] at hcs
    exact ih hcs.2
  | logged hevent _ ih =>
    obtain ⟨hstatus, hevents⟩ := ih hcs
    rw [Outcome.feedAll_logged, Outcome.feedAll_logged]
    refine ⟨hstatus, ?_⟩
    simp only [Outcome.events, List.map_cons]
    rw [hevents, hevent]

end Pairing

end Piecemeal

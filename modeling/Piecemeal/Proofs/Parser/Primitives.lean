import Piecemeal.Proofs.Outcome.Tracking
import Piecemeal.Proofs.Parser.Verdict

/-!
# What the primitive parsers find

In a sound state the primitive parsers decide by the elements behind the position alone
(`value?_ensure`, `value?_wantInput`, `value?_endOfInput`). When they wait and are resumed, they do
what they would have done if the increment had been there from the start: they replay
(`Replays`). `demandInput` does not, for it waits whatever is there.
-/

namespace Piecemeal

variable {T E A R : Type} [Chunk T E]

theorem Outcome.tracks_of_value? {waits : State T → Prop} {ends : State T → R → Prop}
    {o : Outcome T R} {s : State T} {value : R} (h : o.value? = some value)
    (hend : ends s value) : o.Tracks waits ends s := by
  induction o with
  | succeeded _ v => exact Option.some.inj h ▸ hend
  | logged _ _ ih => exact ih () h
  | _ => cases h

/-- However the run is resumed, it waits and ends as a new run on the input so far does. -/
abbrev RunsAs (start : State T → Outcome T R) (o : Outcome T R) (s : State T) : Prop :=
  o.Tracks (fun t => (start t).value? = none) (fun t v => (start t).value? = some v) s

/-- The run from this state does, when resumed, what a new run does. -/
def ReplaysAt (start : State T → Outcome T R) (s : State T) : Prop := RunsAs start (start s) s

def Replays (start : State T → Outcome T R) : Prop := ∀ s : State T, s.Sound → ReplaysAt start s

theorem replaysAt_of_value? {start : State T → Outcome T R} {s : State T} {value : R}
    (h : (start s).value? = some value) : ReplaysAt start s :=
  Outcome.tracks_of_value? h h

theorem value?_prompt (s : State T) (ended : State T → Outcome T R)
    (resumed : (next : State T) → s.Wider next → Outcome T R) :
    (prompt s ended resumed).value? = none := rfl

theorem State.Sound.grown [LawfulChunk T E] {s : State T} (hs : s.Sound) {c : T}
    (hc : Chunk.width s.buffer + Chunk.width c < Size.storable) : (s.grown c).Sound :=
  ⟨(hs.given hc).storable, (hs.given hc).boundary⟩

theorem State.Sound.ended {s : State T} (hs : s.Sound) : s.ended.Sound :=
  ⟨hs.storable, hs.boundary⟩

namespace Parser

open Verdict

variable [LawfulChunk T E] {s : State T} {before after : List E}

/-! ## Waiting for elements -/

theorem ensuring_eq (hs : s.Sound) (h : Chunk.SplitsAt s.buffer s.pos.offset before after)
    (n : Nat) (lose : Lose T R) (win : Win T T R) :
    ensuring n s lose win =
      if n ≤ after.length then win s (Chunk.ofList (after.take n))
      else if s.more.isComplete || !Size.fits (s.pos.offset + n) then lose s .notEnoughInput
      else prompt s (fun s => lose s .notEnoughInput) fun next _ => ensuring n next lose win := by
  have hlength := hs.lengthAtLeast h n
  rw [ensuring]
  by_cases hn : n ≤ after.length
  · rw [if_pos (Size.fits_iff _ |>.2 (hs.fits h hn)), if_pos hn]
    rw [decide_eq_true hn] at hlength
    split
    · rw [hs.substring h hn, Outcome.require_ok]
    · next hfew => rw [hlength] at hfew; cases hfew
    · next hfault => rw [hlength] at hfault; cases hfault
  · rw [if_neg hn]
    rw [decide_eq_false hn] at hlength
    cases hfits : Size.fits (s.pos.offset + n) with
    | false => simp
    | true =>
      rw [if_pos rfl]
      split
      · next hmany => rw [hlength] at hmany; cases hmany
      · simp
      · next hfault => rw [hlength] at hfault; cases hfault

theorem value?_ensure (hs : s.Sound) (h : Chunk.SplitsAt s.buffer s.pos.offset before after)
    (n : Nat) :
    ((ensure n : Parser T E T).verdict s).value? =
      if n ≤ after.length then some (won s (Chunk.ofList (after.take n)))
      else if s.more.isComplete || !Size.fits (s.pos.offset + n) then some (lost s .notEnoughInput)
      else none := by
  show (ensuring n s losing winning).value? = _
  rw [ensuring_eq hs h]
  split
  · rfl
  · split <;> rfl

/-- An increment brings the buffer closer to the width at which any request is met, so the waits of
one request come to an end. -/
theorem replays_ensure (n : Nat) : Replays (ensure n : Parser T E T).verdict := by
  intro s hs
  induction hroom : s.pos.offset + 4 * n - Chunk.width s.buffer using Nat.strongRecOn
    generalizing s with
  | ind room ih =>
    obtain ⟨before, after, h⟩ := hs.boundary
    have hvalue := value?_ensure hs h n
    by_cases hn : n ≤ after.length
    · rw [if_pos hn] at hvalue
      exact replaysAt_of_value? hvalue
    · rw [if_neg hn] at hvalue
      by_cases hend : (s.more.isComplete || !Size.fits (s.pos.offset + n)) = true
      · rw [if_pos hend] at hvalue
        exact replaysAt_of_value? hvalue
      · rw [if_neg hend] at hvalue
        have hmore : s.more = .incomplete := by
          cases hm : s.more with
          | incomplete => rfl
          | complete => simp [hm, More.isComplete] at hend
        have hshort := Chunk.width_lt_of_short (hs.lengthAtLeast h n |>.trans
          (congrArg Except.ok (decide_eq_false hn)))
        show (ensuring n s losing winning).Tracks _ _ s
        rw [ensuring_eq hs h, if_neg hn, if_neg hend]
        apply Outcome.tracks_prompt hmore hvalue
        · have hended := value?_ensure hs.ended h n
          rw [if_neg hn, if_pos (by rfl)] at hended
          exact hended
        · intro c hwider _ hc
          have := hwider.2
          exact ih _ (by simp only [State.grown] at this ⊢; omega) _ (hs.grown hc) rfl

/-! ## Looking for the end of the input -/

theorem verdict_wantInput (hs : s.Sound)
    (h : Chunk.SplitsAt s.buffer s.pos.offset before after) :
    (wantInput : Parser T E Bool).verdict s =
      if 1 ≤ after.length then winning s true
      else if s.more.isComplete then winning s false
      else prompt s (fun s => winning s false) fun s _ => winning s true := by
  simp only [verdict, run, hs.lengthAtLeast h 1, Outcome.require_ok, decide_eq_true_eq]

theorem verdict_endOfInput (hs : s.Sound)
    (h : Chunk.SplitsAt s.buffer s.pos.offset before after) :
    (endOfInput : Parser T E Unit).verdict s =
      if 1 ≤ after.length then losing s .endOfInput
      else if s.more.isComplete then winning s ()
      else prompt s (fun s => winning s ()) fun s _ => losing s .endOfInput := by
  simp only [verdict, run, hs.lengthAtLeast h 1, Outcome.require_ok, decide_eq_true_eq]

theorem value?_wantInput (hs : s.Sound)
    (h : Chunk.SplitsAt s.buffer s.pos.offset before after) :
    ((wantInput : Parser T E Bool).verdict s).value? =
      if 1 ≤ after.length then some (won s true)
      else if s.more.isComplete then some (won s false) else none := by
  rw [verdict_wantInput hs h]
  split
  · rfl
  · split <;> rfl

theorem value?_endOfInput (hs : s.Sound)
    (h : Chunk.SplitsAt s.buffer s.pos.offset before after) :
    ((endOfInput : Parser T E Unit).verdict s).value? =
      if 1 ≤ after.length then some (lost s .endOfInput)
      else if s.more.isComplete then some (won s ()) else none := by
  rw [verdict_endOfInput hs h]
  split
  · rfl
  · split <;> rfl

/-- A run that looks whether an element follows, and waits if it cannot tell yet, replays. -/
theorem replays_of_looking {start found ended : State T → Outcome T R}
    (hstart : ∀ {s before after}, s.Sound → Chunk.SplitsAt s.buffer s.pos.offset before after →
      start s = if 1 ≤ after.length then found s else if s.more.isComplete then ended s
        else prompt s ended fun s _ => found s)
    (hfound : ∀ s, ∃ v, (found s).value? = some v) (hended : ∀ s, ∃ v, (ended s).value? = some v) :
    Replays start := by
  intro s hs
  obtain ⟨before, after, h⟩ := hs.boundary
  have heq := hstart hs h
  by_cases hafter : 1 ≤ after.length
  · rw [if_pos hafter] at heq
    obtain ⟨v, hv⟩ := hfound s
    rw [← heq] at hv
    exact replaysAt_of_value? hv
  · rw [if_neg hafter] at heq
    cases hmore : s.more with
    | complete =>
      rw [hmore] at heq
      change start s = ended s at heq
      obtain ⟨v, hv⟩ := hended s
      rw [← heq] at hv
      exact replaysAt_of_value? hv
    | incomplete =>
      rw [hmore] at heq
      change start s = prompt s ended fun s _ => found s at heq
      have hnone : (start s).value? = none := by rw [heq, value?_prompt]
      unfold ReplaysAt
      rw [heq]
      apply Outcome.tracks_prompt hmore hnone
      · have hthen : start s.ended = ended s.ended := by
          rw [hstart hs.ended h, if_neg hafter]
          rfl
        obtain ⟨v, hv⟩ := hended s.ended
        exact Outcome.tracks_of_value? hv (hthen ▸ hv)
      · intro c _ hempty hc
        have hthen : start (s.grown c) = found (s.grown c) := by
          have hlength := List.length_pos_iff.2 (Chunk.isEmpty_eq_false.1 hempty)
          rw [hstart (hs.grown hc) (h.append c), if_pos]
          rw [List.length_append]
          omega
        obtain ⟨v, hv⟩ := hfound (s.grown c)
        exact Outcome.tracks_of_value? hv (hthen ▸ hv)

theorem replays_wantInput : Replays (wantInput : Parser T E Bool).verdict :=
  replays_of_looking verdict_wantInput (fun _ => ⟨_, rfl⟩) (fun _ => ⟨_, rfl⟩)

theorem replays_endOfInput : Replays (endOfInput : Parser T E Unit).verdict :=
  replays_of_looking verdict_endOfInput (fun _ => ⟨_, rfl⟩) (fun _ => ⟨_, rfl⟩)

end Parser

end Piecemeal

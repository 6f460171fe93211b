import Piecemeal.Proofs.Parser.Primitives

/-!
# Looking for the end of the input

There are several ways to find out whether another element follows (`endTests`). Some answer from
the increment that they waited for, some look at the buffer again, and some come to their answer by
way of an alternative. `LooksAhead` is what they have in common: the run goes on after a success
with the truth about the state that it hands on, at once if that can be told, and otherwise after
one wait. It holds for all of them because an increment that is not empty brings an element to the
position.
-/

namespace Piecemeal

open Verdict Outcome

variable {T E R : Type} [Chunk T E]

def State.Continues (s : State T) : Prop :=
  ∃ before e after, Chunk.SplitsAt s.buffer s.pos.offset before (e :: after)

theorem State.continues_iff [LawfulChunk T E] {s : State T} {before after : List E}
    (h : Chunk.SplitsAt s.buffer s.pos.offset before after) :
    s.Continues ↔ 1 ≤ after.length := by
  constructor
  · rintro ⟨before', e, after', h'⟩
    obtain ⟨-, rfl⟩ := h.unique h'
    exact Nat.le_add_left 1 _
  · intro hlength
    cases after with
    | nil => cases hlength
    | cons e after => exact ⟨before, e, after, h⟩

/-- The run logs some events and goes on after a success in this state, with the truth about what
follows there. -/
def Tells (win : Win T Bool R) (s : State T) (o : Outcome T R) : Prop :=
  ∃ events answer, o = logAll events (win s answer) ∧ (answer = true ↔ s.Continues)

/-- The run tells whether an element follows, as soon as that can be told. -/
structure LooksAhead (win : Win T Bool R) (s : State T) (o : Outcome T R) : Prop where
  /-- What is there decides, or that nothing more will come. -/
  decided : s.more = .complete ∨ s.Continues → Tells win s o
  /-- Otherwise the next increment does. -/
  waits : s.more = .incomplete → ¬ s.Continues → ∃ events resume,
    o = logAll events (.suspended resume) ∧
      ∀ c, Chunk.width s.buffer + Chunk.width c < Size.storable → Tells win (s.given c) (resume c)

/-- A run that goes on by `found` or `ended`, and to `found` from every wait that an increment ends,
looks ahead if each of the two gives its answer. -/
theorem looksAhead_of_looking [LawfulChunk T E] {s : State T} {before after : List E}
    {win : Win T Bool R} {resumed : (next : State T) → s.Wider next → Outcome T R}
    (found ended : State T → Outcome T R)
    (h : Chunk.SplitsAt s.buffer s.pos.offset before after)
    (hfound : ∀ t : State T, t.pos = s.pos → ∃ events, found t = logAll events (win t true))
    (hended : ∀ t : State T, t.pos = s.pos → ∃ events, ended t = logAll events (win t false))
    (hresumed : ∀ c hwider, Chunk.isEmpty c = false →
      Chunk.width s.buffer + Chunk.width c < Size.storable →
      resumed (s.grown c) hwider = found (s.grown c)) :
    LooksAhead win s (if 1 ≤ after.length then found s else if s.more.isComplete then ended s
      else prompt s ended resumed) := by
  have hcontinues := State.continues_iff h
  constructor
  · intro hdecided
    by_cases hafter : 1 ≤ after.length
    · obtain ⟨events, heq⟩ := hfound s rfl
      rw [if_pos hafter]
      exact ⟨events, true, heq, by rw [hcontinues]; simpa using hafter⟩
    · obtain ⟨events, heq⟩ := hended s rfl
      have hmore : s.more = .complete := hdecided.resolve_right (mt hcontinues.1 hafter)
      rw [if_neg hafter, hmore]
      exact ⟨events, false, heq, by rw [hcontinues]; simpa using hafter⟩
  · intro hmore hnone
    have hafter : ¬ 1 ≤ after.length := mt hcontinues.2 hnone
    rw [if_neg hafter, hmore, if_neg (by decide)]
    refine ⟨[.suspending s.pos (Chunk.width s.buffer)], _, rfl, ?_⟩
    intro c hc
    have hthen := State.continues_iff (s := s.given c) (h.append c)
    rw [List.length_append] at hthen
    split
    · next hempty =>
      obtain ⟨events, heq⟩ := hended s.ended rfl
      have hnil := LawfulChunk.isEmpty_iff.1 hempty
      refine ⟨.inputEnded s.pos :: events, false, ?_, ?_⟩
      · rw [State.given_of_isEmpty hempty, heq]
        rfl
      · rw [hthen, hnil]
        simpa using hafter
    · next hempty =>
      have hfull : Chunk.isEmpty c = false := Bool.eq_false_iff.2 hempty
      have hlength := List.length_pos_iff.2 (Chunk.isEmpty_eq_false.1 hfull)
      obtain ⟨events, heq⟩ := hfound (s.grown c) rfl
      refine ⟨.resuming s.pos (Chunk.width c) :: events, true, ?_, ?_⟩
      · rw [State.given_of_not_isEmpty hmore hfull, hresumed c _ hfull hc, heq]
        rfl
      · rw [hthen]
        exact ⟨fun _ => by omega, fun _ => rfl⟩

/-! ## Runs that look ahead cannot be told apart -/

theorem Tells.status_eq {win : Win T Bool R} {s : State T} {o o' : Outcome T R}
    (h : Tells win s o) (h' : Tells win s o') : o.status = o'.status := by
  obtain ⟨events, answer, rfl, htrue⟩ := h
  obtain ⟨events', answer', rfl, htrue'⟩ := h'
  have hsame : answer = answer' := Bool.eq_iff_iff.2 (htrue.trans htrue'.symm)
  rw [status_logAll, status_logAll, hsame]

theorem Tells.alike {s : State T} {o o' : Outcome T (Verdict T Bool)} (h : Tells winning s o)
    (h' : Tells winning s o') (room : Nat) : o.Alike room o' := by
  refine alike_of_finished (h.status_eq h') ?_
  obtain ⟨events, answer, rfl, -⟩ := h
  rw [status_logAll]
  exact Option.some_ne_none _

theorem LooksAhead.alike {s : State T} {o o' : Outcome T (Verdict T Bool)}
    (h : LooksAhead winning s o) (h' : LooksAhead winning s o') :
    o.Alike (Size.storable - Chunk.width s.buffer) o' := by
  by_cases hdecided : s.more = .complete ∨ s.Continues
  · exact (h.decided hdecided).alike (h'.decided hdecided) _
  · obtain ⟨hopen, hnone⟩ := not_or.1 hdecided
    have hmore : s.more = .incomplete := by
      cases hm : s.more with
      | incomplete => rfl
      | complete => exact absurd hm hopen
    obtain ⟨events, resume, rfl, htells⟩ := h.waits hmore hnone
    obtain ⟨events', resume', rfl, htells'⟩ := h'.waits hmore hnone
    intro cs hcs
    rw [status_feedAll, status_feedAll (logAll events' _), status_logAll, status_logAll]
    cases cs with
    | nil => trivial
    | cons c cs =>
      rw [Chunk.totalWidth_cons] at hcs
      have hc : Chunk.width s.buffer + Chunk.width c < Size.storable := by omega
      exact (htells c hc).alike (htells' c hc) Size.storable cs (by omega)

namespace Parser

/-- Ways to find out whether an element follows. -/
def endTests : List (Parser T E Bool) :=
  [wantInput, map not atEnd, orElse (map (fun _ => true) (ensure 1)) (succeed false),
    orElse (map (fun _ => false) endOfInput) (succeed true)]

theorem run_endTest_irrelevant {parser : Parser T E Bool} (h : parser ∈ endTests) (s : State T)
    (lose lose' : Lose T R) (win : Win T Bool R) :
    parser.run s lose win = parser.run s lose' win := by
  simp only [endTests, List.mem_cons, List.not_mem_nil, or_false] at h
  rcases h with rfl | rfl | rfl | rfl <;> rfl

section

variable [LawfulChunk T E] {s : State T} (lose : Lose T R)

theorem looksAhead_wantInput (hs : s.Sound) (win : Win T Bool R) :
    LooksAhead win s ((wantInput : Parser T E Bool).run s lose win) := by
  obtain ⟨before, after, h⟩ := hs.boundary
  simp only [run, hs.lengthAtLeast h 1, Outcome.require_ok, decide_eq_true_eq]
  exact looksAhead_of_looking (fun t => win t true) (fun t => win t false) h
    (fun _ _ => ⟨[], rfl⟩) (fun _ _ => ⟨[], rfl⟩) fun _ _ _ _ => rfl

theorem looksAhead_atEnd (hs : s.Sound) (win : Win T Bool R) :
    LooksAhead win s ((map not atEnd : Parser T E Bool).run s lose win) := by
  have hrun : (map not atEnd : Parser T E Bool).run s lose win
      = (wantInput : Parser T E Bool).run s lose win := by
    show (wantInput : Parser T E Bool).run s lose (fun t answer => win t (!(!answer))) = _
    simp only [Bool.not_not]
  rw [hrun]
  exact looksAhead_wantInput lose hs win

theorem looksAhead_ensure (hs : s.Sound) (win : Win T Bool R) :
    LooksAhead win s
      ((orElse (map (fun _ => true) (ensure 1)) (succeed false) : Parser T E Bool).run s lose
        win) := by
  obtain ⟨before, after, h⟩ := hs.boundary
  have hfits : Size.fits (s.pos.offset + 1) = true := by
    have hwidth := h.width_eq
    have hmax := hs.width_lt_max
    rw [Size.fits_iff]
    omega
  simp only [run]
  rw [ensuring_eq hs h, hfits, Bool.not_true, Bool.or_false]
  refine looksAhead_of_looking (fun t => win t true) _ h (fun _ _ => ⟨[], rfl⟩) ?_ ?_
  · intro t ht
    refine ⟨[.backtracking t.pos s.pos], ?_⟩
    rw [← ht]
    rfl
  · intro c _ hfull hc
    have hlength := List.length_pos_iff.2 (Chunk.isEmpty_eq_false.1 hfull)
    rw [ensuring_eq (hs.grown hc) (h.append c), if_pos]
    rw [List.length_append]
    omega

theorem looksAhead_endOfInput (hs : s.Sound) (win : Win T Bool R) :
    LooksAhead win s
      ((orElse (map (fun _ => false) endOfInput) (succeed true) : Parser T E Bool).run s lose
        win) := by
  obtain ⟨before, after, h⟩ := hs.boundary
  simp only [run, hs.lengthAtLeast h 1, Outcome.require_ok, decide_eq_true_eq]
  refine looksAhead_of_looking
    (fun t => .logged (.backtracking t.pos s.pos) fun _ => win (t.moveTo s.pos) true)
    (fun t => win t false) h ?_ (fun _ _ => ⟨[], rfl⟩) fun _ _ _ _ => rfl
  intro t ht
  refine ⟨[.backtracking t.pos s.pos], ?_⟩
  rw [← ht]
  rfl

theorem looksAhead_endTest {parser : Parser T E Bool} (h : parser ∈ endTests) (hs : s.Sound)
    (win : Win T Bool R) : LooksAhead win s (parser.run s lose win) := by
  simp only [endTests, List.mem_cons, List.not_mem_nil, or_false] at h
  rcases h with rfl | rfl | rfl | rfl
  · exact looksAhead_wantInput lose hs win
  · exact looksAhead_atEnd lose hs win
  · exact looksAhead_ensure lose hs win
  · exact looksAhead_endOfInput lose hs win

end

/-- The tests for the end of the input wait in the same states, and hand on the same state with the
same answer, which is the truth about what follows there. None of them goes on after a failure or
waits twice. -/
theorem endTests_interchangeable [LawfulChunk T E] (s : State T)
    (hpos : Chunk.Boundary s.buffer s.pos.offset)
    (hwidth : Chunk.width s.buffer < Size.storable) :
    (∀ parser ∈ (endTests : List (Parser T E Bool)), ∀ (R : Type) (lose lose' : Lose T R)
      (win : Win T Bool R), LooksAhead win s (parser.run s lose win) ∧
        parser.run s lose win = parser.run s lose' win) ∧
    ∀ first ∈ (endTests : List (Parser T E Bool)), ∀ second ∈ (endTests : List (Parser T E Bool)),
      (first.verdict s).Alike (Size.storable - Chunk.width s.buffer) (second.verdict s) := by
  have hs : s.Sound := ⟨hwidth, hpos⟩
  constructor
  · intro parser hparser R lose lose' win
    exact ⟨looksAhead_endTest lose hparser hs win,
      run_endTest_irrelevant hparser s lose lose' win⟩
  · intro first hfirst second hsecond
    exact (looksAhead_endTest losing hfirst hs winning).alike
      (looksAhead_endTest losing hsecond hs winning)

theorem endTests_interchangeable_waiting :
    Tells (winning : Win Text Bool (Verdict Text Bool))
      ⟨Text.ofList ['é'], .ofOffset 2, .complete⟩
      ((orElse (map (fun _ => true) (ensure 1)) (succeed false) : Parser Text Char Bool).run
        ⟨Text.ofList ['é'], .ofOffset 2, .complete⟩ losing winning) ∧
    ((orElse (map (fun _ => true) (ensure 1)) (succeed false) : Parser Bytes UInt8 Bool).verdict
        ⟨Segment.ofList [7, 8], .ofOffset 2, .incomplete⟩).Alike (Size.storable - 2)
      ((orElse (map (fun _ => false) endOfInput) (succeed true) : Parser Bytes UInt8 Bool).verdict
        ⟨Segment.ofList [7, 8], .ofOffset 2, .incomplete⟩) := by
  constructor
  · have h := endTests_interchangeable (⟨Text.ofList ['é'], .ofOffset 2, .complete⟩ : State Text)
      (Text.boundary_iff.2 (Text.isBoundary_iff.1 (by decide))) (by decide)
    refine (h.1 _ ?_ _ losing losing winning).1.decided (.inl rfl)
    exact .tail _ (.tail _ (.head _))
  · have h := endTests_interchangeable
      (⟨Segment.ofList [7, 8], .ofOffset 2, .incomplete⟩ : State Bytes)
      (Bytes.boundary_iff.2 (by decide)) (by decide)
    exact h.2 _ (.tail _ (.tail _ (.head _))) _ (.tail _ (.tail _ (.tail _ (.head _))))

end Parser

end Piecemeal

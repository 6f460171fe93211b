import Piecemeal.Parser.Waiting
import Piecemeal.Proofs.Outcome.Feeding
import Piecemeal.Proofs.State

/-!
# Runs that keep track of their input

`o.Tracks waits ends s`: the outcome `o` belongs to a run that was given what `s` holds. However the
run is resumed, the state moves along with the increments; the run waits only in states where
`waits` holds and more may come, and it ends only in values that `ends` relates to the state then.
It neither fails by itself nor breaks off. Increments are those that storage can hold.

`Tracks.bind` follows a run into what goes on after it, `Tracks.along` reads the same run against
other states, and `Tracks.leads` gives the state at any point of a path.
-/

namespace Piecemeal.Outcome

variable {T E A B R : Type} [Chunk T E]

/-- Along every way to resume the run, it waits and ends as said of the state reached. -/
def Tracks (waits : State T → Prop) (ends : State T → R → Prop) : Outcome T R → State T → Prop
  | failed _ _, _ => False
  | succeeded _ value, s => ends s value
  | suspended resume, s =>
    s.more = .incomplete ∧ waits s ∧
      ∀ c, Chunk.width s.buffer + Chunk.width c < Size.storable →
        (resume c).Tracks waits ends (s.given c)
  | logged _ rest, s => (rest ()).Tracks waits ends s
  | faulted _, _ => False

namespace Tracks

variable {waits waits' : State T → Prop} {ends ends' : State T → R → Prop} {s s' : State T}
  {o : Outcome T R}

/-- The same run against other states: related states move along together, and what is asked of
the one kind follows from what is known of the other. -/
theorem along (related : State T → State T → Prop)
    (hstep : ∀ t u c, related t u → t.more = .incomplete →
      Chunk.width t.buffer + Chunk.width c < Size.storable → related (t.given c) (u.given c))
    (hsame : ∀ t u, related t u → u.buffer = t.buffer ∧ u.more = t.more)
    (hwaits : ∀ t u, related t u → waits t → waits' u)
    (hends : ∀ t u value, related t u → ends t value → ends' u value)
    (h : o.Tracks waits ends s) (hs : related s s') : o.Tracks waits' ends' s' := by
  induction o generalizing s s' with
  | failed => exact h
  | succeeded _ value => exact hends s s' value hs h
  | suspended resume ih =>
    obtain ⟨hmore, hwait, hresume⟩ := h
    obtain ⟨hbuffer, hflag⟩ := hsame s s' hs
    refine ⟨hflag.trans hmore, hwaits s s' hs hwait, ?_⟩
    intro c hc
    rw [hbuffer] at hc
    exact ih c (hresume c hc) (hstep s s' c hs hmore hc)
  | logged _ _ ih => exact ih () h hs
  | faulted => exact h

theorem mono (hwaits : ∀ t, waits t → waits' t) (hends : ∀ t value, ends t value → ends' t value)
    (h : o.Tracks waits ends s) : o.Tracks waits' ends' s :=
  h.along Eq (fun _ _ _ heq _ _ => heq ▸ rfl) (fun _ _ heq => heq ▸ ⟨rfl, rfl⟩)
    (fun _ _ heq => heq ▸ hwaits _) (fun _ _ _ heq => heq ▸ hends _ _) rfl

/-- What increments keep true of the state may be used at every wait and at the end. -/
theorem keep (holds : State T → Prop)
    (hstep : ∀ t c, holds t → t.more = .incomplete →
      Chunk.width t.buffer + Chunk.width c < Size.storable → holds (t.given c))
    (h : o.Tracks waits ends s) (hs : holds s) :
    o.Tracks (fun t => waits t ∧ holds t) (fun t value => ends t value ∧ holds t) s := by
  refine h.along (fun t u => t = u ∧ holds t) ?_ ?_ ?_ ?_ ⟨rfl, hs⟩
  · rintro t _ c ⟨rfl, ht⟩ hmore hc
    exact ⟨rfl, hstep t c ht hmore hc⟩
  · rintro t _ ⟨rfl, -⟩
    exact ⟨rfl, rfl⟩
  · rintro t _ ⟨rfl, ht⟩ hwait
    exact ⟨hwait, ht⟩
  · rintro t _ value ⟨rfl, ht⟩ hend
    exact ⟨hend, ht⟩

theorem bind {o : Outcome T A} {mid : State T → A → Prop} {next : A → Outcome T R}
    (h : o.Tracks waits mid s)
    (hnext : ∀ t value, mid t value → (next value).Tracks waits ends t) :
    (o.bind next).Tracks waits ends s := by
  induction o generalizing s with
  | failed => exact h
  | succeeded _ value => exact hnext s value h
  | suspended resume ih =>
    obtain ⟨hmore, hwait, hresume⟩ := h
    exact ⟨hmore, hwait, fun c hc => ih c (hresume c hc)⟩
  | logged _ _ ih => exact ih () h
  | faulted => exact h

/-- A run is resumed only while more may come, and the state at a point of a path holds the
increments of the path. -/
theorem leads {o' : Outcome T R} {events : List Event} {cs : List T} (h : o.Tracks waits ends s)
    (hlead : o.Leads events cs o')
    (hcs : Chunk.width s.buffer + Chunk.totalWidth cs < Size.storable) :
    s.Takes cs ∧ o'.Tracks waits ends (s.givenAll cs) := by
  induction hlead generalizing s with
  | here => exact ⟨trivial, h⟩
  | logged _ ih => exact ih h hcs
  | @resumed resume c events cs o _ ih =>
    obtain ⟨hmore, -, hresume⟩ := h
    rw [Chunk.totalWidth_cons] at hcs
    have hrest : Chunk.width (s.given c).buffer + Chunk.totalWidth cs < Size.storable := by
      rw [State.given_buffer, Chunk.width_append]
      omega
    obtain ⟨htakes, hreached⟩ := ih (hresume c (by omega)) hrest
    exact ⟨⟨hmore, htakes⟩, hreached⟩

/-- Given increments, a run ends on the way through them, or it waits after the last one. -/
theorem exists_leads (h : o.Tracks waits ends s) (cs : List T)
    (hcs : Chunk.width s.buffer + Chunk.totalWidth cs < Size.storable) :
    (∃ events before behind leftover value, cs = before ++ behind ∧
      o.Leads events before (.succeeded leftover value)) ∨
    ∃ events resume, o.Leads events cs (.suspended resume) := by
  induction o generalizing s cs with
  | failed => exact h.elim
  | succeeded leftover value => exact .inl ⟨[], [], cs, leftover, value, rfl, .here _⟩
  | suspended resume ih =>
    cases cs with
    | nil => exact .inr ⟨[], resume, .here _⟩
    | cons c cs =>
      rw [Chunk.totalWidth_cons] at hcs
      have hrest : Chunk.width (s.given c).buffer + Chunk.totalWidth cs < Size.storable := by
        rw [State.given_buffer, Chunk.width_append]
        omega
      rcases ih c (h.2.2 c (by omega)) cs hrest with
        ⟨events, before, behind, l, v, rfl, hlead⟩ | ⟨events, later, hlead⟩
      · exact .inl ⟨events, c :: before, behind, l, v, rfl, .resumed hlead⟩
      · exact .inr ⟨events, later, .resumed hlead⟩
  | logged event rest ih =>
    rcases ih () h cs hcs with ⟨events, before, behind, l, v, rfl, hlead⟩ | ⟨events, later, hlead⟩
    · exact .inl ⟨event :: events, before, behind, l, v, rfl, .logged hlead⟩
    · exact .inr ⟨event :: events, later, .logged hlead⟩
  | faulted => exact h.elim

theorem value?_cases (h : o.Tracks waits ends s) :
    (∃ value, o.value? = some value ∧ ends s value) ∨
      (o.value? = none ∧ s.more = .incomplete ∧ waits s ∧ ∃ resume, o.status = .suspended resume ∧
        ∀ c, Chunk.width s.buffer + Chunk.width c < Size.storable →
          (resume c).Tracks waits ends (s.given c)) := by
  induction o with
  | failed => exact h.elim
  | succeeded _ value => exact .inl ⟨value, rfl, h⟩
  | suspended resume => exact .inr ⟨rfl, h.1, h.2.1, resume, rfl, h.2.2⟩
  | logged _ _ ih => exact ih () h
  | faulted => exact h.elim

theorem ends_of_value? {value : R} (h : o.Tracks waits ends s) (hvalue : o.value? = some value) :
    ends s value := by
  rcases h.value?_cases with ⟨v, hv, hend⟩ | ⟨hnone, -⟩
  · rw [hvalue] at hv
    exact Option.some.inj hv ▸ hend
  · rw [hvalue] at hnone
    cases hnone

end Tracks

/-- A prompt waits once. The state is then complete with the same input, or holds more of it. -/
theorem tracks_prompt [LawfulChunk T E] {waits : State T → Prop} {ends : State T → R → Prop}
    {s : State T} {ended : State T → Outcome T R}
    {resumed : (next : State T) → s.Wider next → Outcome T R}
    (hmore : s.more = .incomplete) (hwait : waits s)
    (hended : (ended s.ended).Tracks waits ends s.ended)
    (hresumed : ∀ c (h : s.Wider (s.grown c)), Chunk.isEmpty c = false →
      Chunk.width s.buffer + Chunk.width c < Size.storable →
      (resumed (s.grown c) h).Tracks waits ends (s.grown c)) :
    (prompt s ended resumed).Tracks waits ends s := by
  refine ⟨hmore, hwait, ?_⟩
  intro c hc
  simp only
  split
  · next hempty =>
    rw [State.given_of_isEmpty hempty]
    exact hended
  · next hempty =>
    have hempty' : Chunk.isEmpty c = false := Bool.eq_false_iff.2 hempty
    rw [State.given_of_not_isEmpty hmore hempty']
    exact hresumed c _ hempty' hc

end Piecemeal.Outcome

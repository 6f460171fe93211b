import Piecemeal.Proofs.Parser.Threading

/-!
# The course of a run

`Course parser s cs`: somewhere on the way through the increments `cs` the parser comes to its
verdict, or it waits after the last of them. A run with ways to go on follows its parser's course
(`feedAll_run_decided`, `isSuspended_run_waiting`), so where it stands is said by cases on the
course, and nothing is left to break it off but the ways to go on (`isFaulted_run`).
-/

namespace Piecemeal.Parser

open Verdict Outcome

variable {T E A R : Type} [Chunk T E]

/-- What becomes of a parser that is given increments. -/
inductive Course (parser : Parser T E A) (s : State T) : List T → Prop where
  /-- It comes to a verdict, and some increments are left over. -/
  | decided {events : List Event} {before : List T} {buffer : T} {v : Verdict T A}
      (behind : List T) :
      (parser.verdict s).Leads events before (.succeeded buffer v) →
      Course parser s (before ++ behind)
  /-- It takes all of them and waits for more. -/
  | waiting {events : List Event} {cs : List T} {resume : T → Outcome T (Verdict T A)} :
      (parser.verdict s).Leads events cs (.suspended resume) → Course parser s cs

section

variable {parser : Parser T E A} {s : State T} {events : List Event} {before cs : List T}
  {buffer : T} {v : Verdict T A} {resume : T → Outcome T (Verdict T A)}

/-- A run that is given more than its parser takes goes on from the verdict with the rest. -/
theorem feedAll_run_decided (closed : parser.Closed)
    (hlead : (parser.verdict s).Leads events before (.succeeded buffer v)) (lose : Lose T R)
    (win : Win T A R) (behind : List T) :
    (parser.run s lose win).feedAll (before ++ behind) =
      logAll events ((v.resolve lose win).feedAll behind) := by
  rw [run_eq_bind_verdict parser closed]
  exact (hlead.bind (Verdict.resolve lose win)).feedAll_append behind

theorem status_run_decided (closed : parser.Closed)
    (hlead : (parser.verdict s).Leads events before (.succeeded buffer v)) (lose : Lose T R)
    (win : Win T A R) (behind : List T) :
    ((parser.run s lose win).feedAll (before ++ behind)).status =
      ((v.resolve lose win).feedAll behind).status := by
  rw [feedAll_run_decided closed hlead, status_logAll]

theorem isSuspended_run_waiting (closed : parser.Closed)
    (hlead : (parser.verdict s).Leads events cs (.suspended resume)) (lose : Lose T R)
    (win : Win T A R) : ((parser.run s lose win).feedAll cs).status.isSuspended = true := by
  have hfed := (hlead.bind (Verdict.resolve lose win)).feedAll_append []
  rw [List.append_nil] at hfed
  rw [run_eq_bind_verdict parser closed, hfed, status_logAll]
  rfl

/-- While the parser waits, it makes no difference what comes after it. -/
theorem matches_run_waiting (closed : parser.Closed)
    (hlead : (parser.verdict s).Leads events cs (.suspended resume)) (lose lose' : Lose T R)
    (win win' : Win T A R) :
    ((parser.run s lose win).feedAll cs).status.Matches
      ((parser.run s lose' win').feedAll cs).status :=
  Status.matches_of_isSuspended (isSuspended_run_waiting closed hlead lose win)
    (isSuspended_run_waiting closed hlead lose' win')

/-- A run that stops has finished, and whatever it is fed then is left behind the rest. -/
theorem status_stop_of_drop (v : Verdict T A) {rest : T}
    (h : Chunk.drop v.state.buffer v.state.pos.offset = .ok rest) (ds : List T) :
    ((v.resolve stopFailed stopSucceeded).feedAll ds).status
      = (v.finish (Chunk.appendAll rest ds)).status := by
  rw [resolve_stop v h]
  cases v with
  | lost next failure => exact congrArg Outcome.status (feedAll_failed rest failure ds)
  | won next value => exact congrArg Outcome.status (feedAll_succeeded rest value ds)

end

variable [LawfulChunk T E] {s : State T} {cs : List T}

theorem course (parser : Parser T E A) (closed : parser.Closed) (hs : s.Sound)
    (hcs : Chunk.width s.buffer + Chunk.totalWidth cs < Size.storable) : Course parser s cs := by
  rcases (tracks_verdict parser closed hs).exists_leads cs hcs with
    ⟨events, before, behind, buffer, v, rfl, hlead⟩ | ⟨events, resume, hlead⟩
  · exact .decided behind hlead
  · exact .waiting hlead

theorem takes_of_leads (parser : Parser T E A) (closed : parser.Closed) (hs : s.Sound)
    {events : List Event} {o : Outcome T (Verdict T A)}
    (hcs : Chunk.width s.buffer + Chunk.totalWidth cs < Size.storable)
    (hlead : (parser.verdict s).Leads events cs o) : s.Takes cs :=
  ((tracks_verdict parser closed hs).leads hlead hcs).1

/-! ## Nothing breaks a run off -/

/-- A run is broken off only by what goes on after the parser. -/
theorem isFaulted_run (parser : Parser T E A) (closed : parser.Closed) (hs : s.Sound)
    (hcs : Chunk.width s.buffer + Chunk.totalWidth cs < Size.storable) {lose : Lose T R}
    {win : Win T A R}
    (hgo : ∀ (v : Verdict T A) (ds : List T), v.state.Sound →
      Chunk.width v.state.buffer + Chunk.totalWidth ds < Size.storable →
      ((v.resolve lose win).feedAll ds).status.isFaulted = false) :
    ((parser.run s lose win).feedAll cs).status.isFaulted = false := by
  cases course parser closed hs hcs with
  | @decided events before buffer v behind hlead =>
    rw [Chunk.totalWidth_append] at hcs
    have honward := onward_of_leads parser closed hs (by omega) hlead
    rw [status_run_decided closed hlead]
    refine hgo v behind (honward.sound (hs.givenAll (by omega))) ?_
    rw [honward.buffer, State.width_givenAll]
    omega
  | waiting hlead =>
    have hwait := isSuspended_run_waiting closed hlead lose win
    cases hstatus : ((parser.run s lose win).feedAll cs).status with
    | suspended => rfl
    | _ => rw [hstatus] at hwait; cases hwait

theorem status_stop (v : Verdict T A) (h : Chunk.Boundary v.state.buffer v.state.pos.offset)
    (ds : List T) : ∃ leftover,
      ((v.resolve stopFailed stopSucceeded).feedAll ds).status = (v.finish leftover).status := by
  obtain ⟨before, after, hsplit⟩ := h
  exact ⟨_, status_stop_of_drop v (LawfulChunk.drop_eq hsplit) ds⟩

theorem status_runFrom_decided {parser : Parser T E A} (closed : parser.Closed)
    {events : List Event} {before : List T} {buffer : T} {v : Verdict T A}
    (hlead : (parser.verdict s).Leads events before (.succeeded buffer v))
    (h : Chunk.Boundary v.state.buffer v.state.pos.offset) (behind : List T) : ∃ leftover,
      ((parser.runFrom s).feedAll (before ++ behind)).status = (v.finish leftover).status := by
  unfold runFrom
  rw [status_run_decided closed hlead]
  exact status_stop v h behind

theorem isFaulted_runFrom (parser : Parser T E A) (closed : parser.Closed) (hs : s.Sound)
    (hcs : Chunk.width s.buffer + Chunk.totalWidth cs < Size.storable) :
    ((parser.runFrom s).feedAll cs).status.isFaulted = false := by
  refine isFaulted_run parser closed hs hcs ?_
  intro v ds hv _
  obtain ⟨leftover, hstatus⟩ := status_stop v hv.boundary ds
  rw [hstatus]
  cases v <;> rfl

end Piecemeal.Parser

import Piecemeal.Proofs.Parser.Heeding

/-!
# One way to go on decides a run

A closed parser never finishes a run by itself. It runs to a verdict, through any number of waits,
and then makes one call: of the way to go on after a failure or of the way to go on after a
success. `leads_call` finds that call on every path through the run.

Parsers with rules of their own are left out: such a rule may fail by itself.
-/

namespace Piecemeal

variable {T E A R : Type}

namespace Parser

open Outcome

variable [Chunk T E]

/-- A finished run has gone through one call: the parser's own verdict comes first, with its events
and its waits, and what follows is the way to go on that the verdict selects. -/
theorem leads_call (parser : Parser T E A) (closed : parser.Closed) {s : State T} {lose : Lose T R}
    {win : Win T A R} {events : List Event} {cs : List T} {q : Outcome T R}
    (h : (parser.run s lose win).Leads events cs q) (hq : q.Finished) :
    ∃ first later before behind leftover v, events = first ++ later ∧ cs = before ++ behind ∧
      (parser.verdict s).Leads first before (.succeeded leftover v) ∧
      (v.resolve lose win).Leads later behind q := by
  rw [run_eq_bind_verdict parser closed] at h
  rcases leads_bind_inv h with ⟨o', hlead, rfl⟩ | hcall
  · cases o' with
    | failed => exact absurd hlead (parser.heeds_verdict closed s).not_leads_failed
    | succeeded leftover v =>
      refine ⟨events, [], cs, [], leftover, v, ?_, ?_, hlead, .here _⟩
      · rw [List.append_nil]
      · rw [List.append_nil]
    | suspended => exact hq.elim
    | logged => exact hq.elim
    | faulted => exact hq.elim
  · exact hcall

/-- The run of a closed parser is its own run to a verdict, with one call in place of each verdict.
No attempt of the parser, as a repetition makes them, ends in a failure of its own. -/
theorem run_decided_by_call (parser : Parser T E A) (closed : parser.Closed) (s : State T)
    (lose : Lose T R) (win : Win T A R) :
    parser.run s lose win = (parser.verdict s).bind (Verdict.resolve lose win) ∧
    (∀ t events cs leftover failure,
      ¬ (parser.verdict t).Leads events cs (.failed leftover failure)) ∧
    (∀ events cs leftover v, (parser.verdict s).Leads events cs (.succeeded leftover v) →
      (parser.run s lose win).Leads events cs (v.resolve lose win)) ∧
    (∀ events cs q, (parser.run s lose win).Leads events cs q → q.Finished →
      ∃ first later before behind leftover v, events = first ++ later ∧ cs = before ++ behind ∧
        (parser.verdict s).Leads first before (.succeeded leftover v) ∧
        (v.resolve lose win).Leads later behind q) := by
  refine ⟨run_eq_bind_verdict parser closed s lose win, ?_, ?_, ?_⟩
  · intro t events cs leftover failure
    exact (parser.heeds_verdict closed t).not_leads_failed
  · intro events cs leftover v hlead
    rw [run_eq_bind_verdict parser closed]
    exact hlead.bind (Verdict.resolve lose win)
  · intro events cs q hlead hq
    exact leads_call parser closed hlead hq

theorem run_decided_by_call_backtracking :
    ((orElse endOfInput demandInput : Parser Bytes UInt8 Unit).run
        ⟨Segment.ofList [7], .zero, .incomplete⟩ stopFailed stopSucceeded).Leads
      [.backtracking .zero .zero, .suspending .zero 1, .resuming .zero 2] [Segment.ofList [8, 9]]
      (stopSucceeded ⟨Segment.ofList [7, 8, 9], .zero, .incomplete⟩ ()) :=
  (run_decided_by_call (orElse endOfInput demandInput : Parser Bytes UInt8 Unit)
    ⟨trivial, trivial⟩ ⟨Segment.ofList [7], .zero, .incomplete⟩ stopFailed stopSucceeded).2.2.1
    _ _ (Segment.ofList [7, 8, 9]) (.won ⟨Segment.ofList [7, 8, 9], .zero, .incomplete⟩ ())
    (.logged (.logged (.resumed (.logged (.here _)))))

end Parser

end Piecemeal

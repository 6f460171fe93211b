import Piecemeal.Proofs.Parser.Course

/-!
# The end of the input is final

Every parser looks at the flag before it waits and hands on the flag that it was given, so the runs
of closed parsers heed it (`heeds_run`), whatever they are given. A run that heeds the flag does not
wait any more once an empty increment has told it that nothing will come.
-/

namespace Piecemeal.Parser

open Outcome

variable {T E A R : Type} [Chunk T E]

theorem isSuspended_stopFailed (s : State T) (failure : Failure) :
    (stopFailed s failure : Outcome T R).status.isSuspended = false := by
  unfold stopFailed
  cases Chunk.drop s.buffer s.pos.offset <;> rfl

theorem isSuspended_stopSucceeded (s : State T) (value : A) :
    (stopSucceeded s value).status.isSuspended = false := by
  unfold stopSucceeded
  cases Chunk.drop s.buffer s.pos.offset <;> rfl

theorem result?_ne_incomplete {st : Status T R} (h : st.isSuspended = false) :
    st.result? ≠ some (.error .incomplete) := by
  cases st with
  | suspended => cases h
  | _ => simp [Status.result?]

/-- Once the input is complete, by the flag at first or by an empty increment since, no run waits
whose ways to go on do not wait; it has finished, as long as storage can hold what it was given. -/
theorem run_finishes_at_end [LawfulChunk T E] (parser : Parser T E A) (closed : parser.Closed)
    (s : State T) (hpos : Chunk.Boundary s.buffer s.pos.offset) (cs : List T)
    (hend : (s.more.isComplete || cs.any Chunk.isEmpty) = true) :
    (∀ (R : Type) (lose : Lose T R) (win : Win T A R),
      (∀ t f, (lose t f).status.isSuspended = false) →
      (∀ t a, (win t a).status.isSuspended = false) →
      ((parser.run s lose win).feedAll cs).status.isSuspended = false ∧
      ((parser.run s lose win).feedAll cs).status.result? ≠ some (.error .incomplete)) ∧
    ((parser.runFrom s).feedAll cs).status.isSuspended = false ∧
    ((parser.runFrom s).feedAll cs).status.result? ≠ some (.error .incomplete) ∧
    (Chunk.width s.buffer + Chunk.totalWidth cs < Size.storable →
      ∃ leftover, ((parser.runFrom s).feedAll cs).status.leftover? = some leftover) := by
  have hwaits : ∀ (R : Type) (lose : Lose T R) (win : Win T A R),
      (∀ t f, (lose t f).status.isSuspended = false) →
      (∀ t a, (win t a).status.isSuspended = false) →
      ((parser.run s lose win).feedAll cs).status.isSuspended = false := by
    intro R lose win hlose hwin
    have hheeds := parser.heeds_run closed s
      (fun t f _ => heeds_of_not_suspended t.more (hlose t f))
      fun t a _ => heeds_of_not_suspended t.more (hwin t a)
    exact hheeds.isSuspended_feedAll cs hend
  have hstop : ((parser.runFrom s).feedAll cs).status.isSuspended = false :=
    hwaits A stopFailed stopSucceeded isSuspended_stopFailed isSuspended_stopSucceeded
  refine ⟨?_, hstop, result?_ne_incomplete hstop, ?_⟩
  · intro R lose win hlose hwin
    have hwait := hwaits R lose win hlose hwin
    exact ⟨hwait, result?_ne_incomplete hwait⟩
  · intro hcs
    exact Status.exists_leftover? hstop (isFaulted_runFrom parser closed ⟨by omega, hpos⟩ hcs)

theorem run_finishes_at_end_waiting :
    (∃ leftover, (((both (many demandInput) (take 1) : Parser Text Char (List Unit × Text)).runFrom
        ⟨Text.ofList ['é', 'a'], .ofOffset 2, .incomplete⟩).feedAll
        [Text.ofList ['ж'], Text.ofList [], Text.ofList ['b']]).status.leftover? = some leftover) ∧
    ((orElse demandInput (map (fun _ => ()) (take 9)) : Parser Bytes UInt8 Unit).run
        ⟨Segment.ofList [7], .zero, .complete⟩ stopFailed stopSucceeded).status.isSuspended
      = false := by
  constructor
  · exact (run_finishes_at_end
      (both (many demandInput) (take 1) : Parser Text Char (List Unit × Text))
      ⟨trivial, fun _ => trivial⟩ ⟨Text.ofList ['é', 'a'], .ofOffset 2, .incomplete⟩
      (Text.boundary_iff.2 (Text.isBoundary_iff.1 (by decide)))
      [Text.ofList ['ж'], Text.ofList [], Text.ofList ['b']] (by decide)).2.2.2 (by decide)
  · exact ((run_finishes_at_end
      (orElse demandInput (map (fun _ => ()) (take 9)) : Parser Bytes UInt8 Unit)
      ⟨trivial, trivial⟩ ⟨Segment.ofList [7], .zero, .complete⟩ (Chunk.boundary_zero _) []
      (by decide)).1 Unit stopFailed stopSucceeded isSuspended_stopFailed
      isSuspended_stopSucceeded).1

end Piecemeal.Parser

import Piecemeal.Proofs.Parser.Backtracking
import Piecemeal.Proofs.Parser.Repetition

/-!
# Repeating once more

A repetition stops at an attempt that fails or consumes nothing, and takes back what that attempt
read, but not what it waited for. The place is then `Exhausted`: a parser that demands nothing,
started there on all input so far, comes to the same end at once, without a wait. So a repetition
right after a repetition of the same parser finds nothing and leaves everything as it is.
-/

namespace Piecemeal

open Verdict Outcome

variable {T E A R : Type}

/-- The attempt from this state fails or consumes nothing, and it needs no more input for that. -/
def Exhausted (attempt : State T → Outcome T (Verdict T A)) (s : State T) : Prop :=
  ∃ v, (attempt s).value? = some v ∧ ∀ next value, v = .won next value → ¬ s.pos < next.pos

variable [Chunk T E]

/-- A repetition that has come to its end has exhausted the place where it ended. -/
theorem exhausted_of_repeating {attempt : State T → Outcome T (Verdict T A)}
    (honward : ∀ {t v}, t.Sound → (attempt t).value? = some v → t.Onward v.state) {s next : State T}
    (hs : s.Sound) {found values : List A}
    (h : (repeating attempt s found winning).value? = some (won next values)) :
    s.Onward next ∧ Exhausted attempt next := by
  fun_induction repeating attempt s found winning with
  | case1 s found ih =>
    rw [value?_bind] at h
    obtain ⟨v, hv, h⟩ := Option.bind_eq_some_iff.1 h
    have hon := honward hs hv
    have hback := hon.moveTo
    cases v with
    | lost failed failure =>
      cases h
      rw [state_lost] at hback
      rw [hback]
      refine ⟨.refl hs, _, hv, ?_⟩
      intro other value hother
      cases hother
    | won mid value =>
      rw [state_won] at hback hon
      simp only at h
      split at h
      · next hlt =>
        obtain ⟨hnext, hexhausted⟩ := ih mid value hlt (hon.sound hs) h
        exact ⟨hon.trans hnext, hexhausted⟩
      · next hstays =>
        cases h
        rw [hback]
        refine ⟨.refl hs, _, hv, ?_⟩
        intro other value' hother
        cases hother
        exact hstays

/-- From an exhausted place a repetition finds nothing, and stays there. -/
theorem Exhausted.value?_repeating {attempt : State T → Outcome T (Verdict T A)} {s : State T}
    (h : Exhausted attempt s)
    (honward : ∀ {v}, (attempt s).value? = some v → s.Onward v.state) (found : List A) :
    (repeating attempt s found winning).value? = some (won s found.reverse) := by
  obtain ⟨v, hv, hstays⟩ := h
  have hback := (honward hv).moveTo
  rw [repeating, value?_bind_of_value? hv]
  cases v with
  | lost failed failure =>
    rw [state_lost] at hback
    simp only [hback]
    rfl
  | won mid value =>
    rw [state_won] at hback
    simp only [if_neg (hstays mid value rfl), hback]
    rfl

namespace Parser

variable [LawfulChunk T E]

/-- After a repetition that has succeeded, the same repetition succeeds with nothing, where the
first one ended. -/
theorem value?_many_again (parser : Parser T E A) (closed : parser.Closed) {s next : State T}
    (hs : s.Sound) {values : List A}
    (h : ((many parser).verdict s).value? = some (won next values)) :
    ((many parser).verdict next).value? = some (won next []) := by
  have honward : ∀ {t : State T} {v : Verdict T A}, t.Sound →
      (parser.verdict t).value? = some v → t.Onward v.state :=
    fun ht hv => onward_of_value? parser closed ht hv
  obtain ⟨hnext, hexhausted⟩ := exhausted_of_repeating honward hs h
  exact hexhausted.value?_repeating (fun hv => honward (hnext.sound hs) hv) []

/-- Two repetitions of a parser in turn wait when the first one waits, and once that one has
succeeded, they have succeeded with its values and with none. -/
theorem parseWith_many_exhausts (parser : Parser T E A) (free : parser.DemandFree) (input : T)
    (more : More) (cs : List T)
    (hcs : Chunk.width input + Chunk.totalWidth cs < Size.storable) :
    (((both (many parser) (many parser)).parseWith input more).feedAll cs).status.isSuspended
      = (((many parser).parseWith input more).feedAll cs).status.isSuspended ∧
    ∀ leftover values,
      (((many parser).parseWith input more).feedAll cs).status = .succeeded leftover values →
      (((both (many parser) (many parser)).parseWith input more).feedAll cs).status
        = .succeeded leftover (values, []) := by
  have hs : (State.start input more).Sound := .start more (by omega)
  have closed : (many parser).Closed := free.closed
  unfold parseWith runFrom both
  rw [run]
  cases course (many parser) closed hs hcs with
  | waiting hlead =>
    have hfirst := isSuspended_run_waiting closed hlead stopFailed stopSucceeded
    rw [isSuspended_run_waiting closed hlead]
    refine ⟨hfirst.symm, ?_⟩
    intro leftover values hsucceeded
    rw [hsucceeded] at hfirst
    cases hfirst
  | @decided events before buffer v behind hlead =>
    have hbefore : Chunk.width input + Chunk.totalWidth before < Size.storable := by
      rw [Chunk.totalWidth_append] at hcs
      omega
    have honward := onward_of_leads (many parser) closed hs hbefore hlead
    rw [status_run_decided closed hlead, status_run_decided closed hlead]
    cases v with
    | lost next failure => exact absurd hlead (not_leads_lost_many parser closed _ _ _ _ _ _)
    | won next values =>
      have hv := value?_of_leads (many parser) free hs hbefore hlead
      have hagain := value?_many_again parser closed (hs.givenAll hbefore) hv
      obtain ⟨front, rest, hsplit⟩ := honward.boundary
      have hdrop := LawfulChunk.drop_eq hsplit
      have hboth := status_stop_of_drop (won next (values, ([] : List A))) hdrop behind
      rw [status_stop_of_drop (won next values) hdrop]
      simp only [resolve]
      rw [run, status_feedAll_run closed hagain]
      refine ⟨congrArg Status.isSuspended hboth, ?_⟩
      rintro _ _ ⟨⟩
      exact hboth

theorem parseWith_many_exhausts_waiting :
    (((both (many (take 2)) (many (take 2)) :
        Parser Text Char (List Text × List Text)).parseWith (Text.ofList ['é']) .incomplete).feedAll
        [Text.ofList ['a', 'ж'], Text.ofList [], Text.ofList ['b']]).status
      = .succeeded (Text.ofList ['ж', 'b']) ([Text.ofList ['é', 'a']], []) ∧
    (((both (many (ensure 2)) (many (ensure 2)) :
        Parser Bytes UInt8 (List Bytes × List Bytes)).parseWith (Segment.ofList [7])
        .incomplete).feedAll [Segment.ofList [8]]).status
      = .succeeded (Segment.ofList [7, 8]) ([], []) := by
  constructor
  · exact (parseWith_many_exhausts (take 2 : Parser Text Char Text) trivial (Text.ofList ['é'])
      .incomplete [Text.ofList ['a', 'ж'], Text.ofList [], Text.ofList ['b']] (by decide)).2 _ _
      (Status.eq_of_agrees (by decide +kernel))
  · exact (parseWith_many_exhausts (ensure 2 : Parser Bytes UInt8 Bytes) trivial
      (Segment.ofList [7]) .incomplete [Segment.ofList [8]] (by decide)).2 _ _
      (Status.eq_of_agrees (by decide +kernel))

end Parser

end Piecemeal

import Piecemeal.Proofs.Outcome.Dialogue
import Piecemeal.Proofs.Parser.Verdict

/-!
# Two places to map a value

A function may be applied to the value of a parser from inside the run, before whatever follows the
parser, or from outside, to the outcome of the run. `runFrom_map`: for closed parsers the two are
one tree, so neither feeding nor the log can tell them apart. From outside, the function may also
come in at any later moment, because `Outcome.map` changes nothing that feeding looks at
(`feedAll_map`).
-/

namespace Piecemeal

variable {T E A B R S : Type}

namespace Outcome

theorem map_bind (o : Outcome T A) (next : A → Outcome T R) (f : R → S) :
    (o.bind next).map f = o.bind fun a => (next a).map f := by
  induction o with
  | failed => rfl
  | succeeded => rfl
  | suspended _ ih => exact congrArg suspended (funext ih)
  | logged _ _ ih => exact congrArg (logged _) (funext ih)
  | faulted => rfl

theorem map_require (answer : Except Fault A) (next : A → Outcome T R) (f : R → S) :
    (require answer next).map f = require answer fun a => (next a).map f := by
  cases answer <;> rfl

theorem feedAll_map [Chunk T E] (f : A → B) (o : Outcome T A) (cs : List T) :
    (o.map f).feedAll cs = (o.feedAll cs).map f :=
  RunKind.outcomes_stepLaws.feedAll_map f o cs

end Outcome

namespace Status

variable {st : Status T A} {f : A → B} {leftover : T}

theorem isSuspended_map : (st.map f).isSuspended = st.isSuspended := by
  cases st <;> rfl

theorem map_eq_failed_iff {failure : Failure} :
    st.map f = .failed leftover failure ↔ st = .failed leftover failure := by
  cases st <;> simp [map]

theorem map_eq_succeeded_iff {image : B} :
    st.map f = .succeeded leftover image ↔
      ∃ value, st = .succeeded leftover value ∧ image = f value := by
  cases st with
  | succeeded rest value =>
    constructor
    · intro h
      cases h
      exact ⟨value, rfl, rfl⟩
    · rintro ⟨_, h, rfl⟩
      cases h
      rfl
  | _ => simp [map]

end Status

namespace Parser

variable [Chunk T E]

theorem map_resolve_stop (f : A → B) (v : Verdict T A) :
    (v.resolve stopFailed stopSucceeded).map f
      = v.resolve stopFailed fun s value => stopSucceeded s (f value) := by
  cases v with
  | lost s failure => exact Outcome.map_require _ _ f
  | won s value => exact Outcome.map_require _ _ f

theorem runFrom_map (parser : Parser T E A) (closed : parser.Closed) (f : A → B) (s : State T) :
    (parser.map f).runFrom s = (parser.runFrom s).map f := by
  unfold runFrom
  rw [run, run_eq_bind_verdict parser closed, run_eq_bind_verdict parser closed, Outcome.map_bind]
  congr 1
  funext v
  exact (map_resolve_stop f v).symm

/-- Mapping a parser is mapping its run, before, between or after the increments that the run is
given. Both log the same events, wait at the same moments and fail with the same failure; one has
succeeded exactly when the other has, and its value is the image of the other's. -/
theorem runFrom_map_agrees (parser : Parser T E A) (closed : parser.Closed) (f : A → B)
    (s : State T) (cs : List T) :
    (∀ before behind, cs = before ++ behind →
      ((parser.map f).runFrom s).feedAll cs
        = (((parser.runFrom s).feedAll before).map f).feedAll behind) ∧
    (((parser.map f).runFrom s).feedAll cs).events = ((parser.runFrom s).feedAll cs).events ∧
    (((parser.map f).runFrom s).feedAll cs).status.isSuspended
      = ((parser.runFrom s).feedAll cs).status.isSuspended ∧
    (∀ leftover failure,
      (((parser.map f).runFrom s).feedAll cs).status = .failed leftover failure ↔
        ((parser.runFrom s).feedAll cs).status = .failed leftover failure) ∧
    (∀ leftover image,
      (((parser.map f).runFrom s).feedAll cs).status = .succeeded leftover image ↔
        ∃ value, ((parser.runFrom s).feedAll cs).status = .succeeded leftover value ∧
          image = f value) := by
  have hfed : ((parser.map f).runFrom s).feedAll cs = ((parser.runFrom s).feedAll cs).map f := by
    rw [runFrom_map parser closed, Outcome.feedAll_map]
  refine ⟨?_, ?_, ?_, ?_, ?_⟩
  · rintro before behind rfl
    rw [hfed, Outcome.feedAll_map, Outcome.feedAll_append]
  · rw [hfed, Status.events_map]
  · rw [hfed, Status.status_map, Status.isSuspended_map]
  · intro leftover failure
    rw [hfed, Status.status_map, Status.map_eq_failed_iff]
  · intro leftover image
    rw [hfed, Status.status_map, Status.map_eq_succeeded_iff]

theorem runFrom_map_agrees_between :
    ((map List.length (many (orElse (take 2) (take 1))) : Parser Text Char Nat).runFrom
        ⟨Text.ofList ['é', 'a'], .ofOffset 2, .incomplete⟩).feedAll
          [Text.ofList ['ж', 'b'], Text.ofList [], Text.ofList ['c']]
      = ((((many (orElse (take 2) (take 1)) : Parser Text Char (List Text)).runFrom
          ⟨Text.ofList ['é', 'a'], .ofOffset 2, .incomplete⟩).feedAll
            [Text.ofList ['ж', 'b']]).map List.length).feedAll
              [Text.ofList [], Text.ofList ['c']] ∧
    (((map List.length (many (orElse (take 2) (take 1))) : Parser Text Char Nat).runFrom
        ⟨Text.ofList ['é', 'a'], .ofOffset 2, .incomplete⟩).feedAll
          [Text.ofList ['ж', 'b'], Text.ofList [], Text.ofList ['c']]).status
      = .succeeded (Text.ofList ['c']) 2 := by
  have h := runFrom_map_agrees (many (orElse (take 2) (take 1)) : Parser Text Char (List Text))
    ⟨trivial, trivial⟩ List.length ⟨Text.ofList ['é', 'a'], .ofOffset 2, .incomplete⟩
    [Text.ofList ['ж', 'b'], Text.ofList [], Text.ofList ['c']]
  refine ⟨h.1 [Text.ofList ['ж', 'b']] [Text.ofList [], Text.ofList ['c']] rfl, ?_⟩
  exact (h.2.2.2.2 _ _).2 ⟨[Text.ofList ['a', 'ж'], Text.ofList ['b']],
    Status.eq_of_agrees (by decide +kernel), rfl⟩

end Parser

end Piecemeal

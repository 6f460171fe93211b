import Piecemeal.Parser.Naturality
import Piecemeal.Proofs.Outcome.Feeding

/-!
# Verdicts of parsers put together

The verdict of a parser that is put together is that of its first part, and what goes on from it.
With these equations a property of verdicts is proved part by part, without a look at the ways to
go on.
-/

namespace Piecemeal

variable {T E A B : Type}

def Verdict.state : Verdict T A → State T
  | lost s _ => s
  | won s _ => s

/-- The outcome that finishes with the verdict and this much input left. -/
def Verdict.finish (v : Verdict T A) (leftover : T) : Outcome T A :=
  match v with
  | lost _ failure => .failed leftover failure
  | won _ value => .succeeded leftover value

@[simp] theorem Verdict.state_lost (s : State T) (f : Failure) :
    (lost s f : Verdict T A).state = s := rfl

@[simp] theorem Verdict.state_won (s : State T) (a : A) : (won s a).state = s := rfl

@[simp] theorem Outcome.require_ok (a : A) (next : A → Outcome T B) :
    Outcome.require (.ok a) next = next a := rfl

namespace Parser

open Verdict

variable [Chunk T E]

/-- What `accept` does with the element that it waited for. -/
def accepting (refusal : E → Option String) (s : State T) (window : T) :
    Outcome T (Verdict T E) :=
  .require (Chunk.head window) fun found =>
    match refusal found with
    | none => winning (s.advance (Chunk.width window)) found
    | some reason => losing s (.reading reason)

theorem verdict_accept (refusal : E → Option String) (s : State T) :
    (accept refusal).verdict s =
      ((ensure 1 : Parser T E T).verdict s).bind (resolve losing (accepting refusal)) := by
  simp only [verdict, run, bind_ensuring]
  rfl

theorem verdict_take (n : Nat) (s : State T) :
    (take n : Parser T E T).verdict s =
      ((ensure n : Parser T E T).verdict s).bind
        (resolve losing fun s taken => winning (s.advance (Chunk.width taken)) taken) := by
  simp only [verdict, run, bind_ensuring]
  rfl

theorem verdict_orElse {first second : Parser T E A} (closed : (first.orElse second).Closed)
    (s : State T) :
    (first.orElse second).verdict s =
      (first.verdict s).bind (resolve
        (fun failed _ => .logged (.backtracking failed.pos s.pos) fun _ =>
          second.verdict (failed.moveTo s.pos))
        winning) :=
  run_eq_bind_verdict first closed.1 s _ _

theorem verdict_andThen {first : Parser T E A} {next : A → Parser T E B}
    (closed : (first.andThen next).Closed) (s : State T) :
    (first.andThen next).verdict s =
      (first.verdict s).bind (resolve losing fun s a => (next a).verdict s) :=
  run_eq_bind_verdict first closed.1 s _ _

theorem verdict_map (f : A → B) (parser : Parser T E A) (closed : parser.Closed) (s : State T) :
    (parser.map f).verdict s =
      (parser.verdict s).bind (resolve losing fun s a => winning s (f a)) :=
  run_eq_bind_verdict parser closed s _ _

theorem verdict_label (name : String) (parser : Parser T E A) (closed : parser.Closed)
    (s : State T) :
    (parser.label name).verdict s =
      (parser.verdict s).bind (resolve (fun s f => losing s (f.within name)) winning) :=
  run_eq_bind_verdict parser closed s _ _

theorem verdict_manyAfter (found : List A) (parser : Parser T E A) (s : State T) :
    (manyAfter found parser).verdict s = repeating parser.verdict s found.reverse winning := rfl

/-! ## Stopping at a verdict -/

/-- A run that stops at a boundary leaves what follows it. -/
theorem resolve_stop (v : Verdict T A) {leftover : T}
    (h : Chunk.drop v.state.buffer v.state.pos.offset = .ok leftover) :
    v.resolve stopFailed stopSucceeded = v.finish leftover := by
  cases v with
  | lost s f =>
    rw [state_lost] at h
    simp only [resolve, stopFailed, finish, h, Outcome.require_ok]
  | won s a =>
    rw [state_won] at h
    simp only [resolve, stopSucceeded, finish, h, Outcome.require_ok]

end Parser

end Piecemeal

import Piecemeal.Parser.Run

/-!
# Going on after a run

What follows a parser may be added to its run from outside or from inside. `run_bind` says that the
two agree: a step added behind the run of a parser is the same step added behind both of its ways to
go on. So a run is the parser on its own, followed by one of the two ways (`run_eq_bind_verdict`),
and every event that the parser logs comes before those of what follows.

Parsers with rules of their own are left out, as their rules may do anything.
-/

namespace Piecemeal

variable {T E A B R : Type}

theorem Outcome.bind_require (answer : Except Fault A) (next : A → Outcome T R)
    (after : R → Outcome T B) :
    (Outcome.require answer next).bind after =
      Outcome.require answer fun a => (next a).bind after := by
  cases answer <;> rfl

variable [Chunk T E]

theorem bind_prompt (s : State T) (ended : State T → Outcome T R)
    (resumed : (next : State T) → s.Wider next → Outcome T R) (after : R → Outcome T B) :
    (prompt s ended resumed).bind after =
      prompt s (fun s => (ended s).bind after) fun next h => (resumed next h).bind after := by
  simp only [prompt, Outcome.bind]
  congr 1
  funext _
  congr 1
  funext increment
  split <;> rfl

theorem bind_ensuring (n : Nat) (s : State T) (lose : Lose T R) (win : Win T T R)
    (after : R → Outcome T B) :
    (ensuring n s lose win).bind after =
      ensuring n s (fun s f => (lose s f).bind after) fun s c => (win s c).bind after := by
  fun_induction ensuring n s lose win with
  | case1 s hfits hlong =>
    rw [ensuring, if_pos hfits]
    split <;> simp_all [Outcome.bind_require]
  | case2 s hfits hshort hcomplete =>
    rw [ensuring, if_pos hfits]
    split <;> simp_all
  | case3 s hfits hshort hmore ih =>
    rw [ensuring, if_pos hfits]
    split <;> simp_all [bind_prompt]
  | case4 s hfits fault hfault =>
    rw [ensuring, if_pos hfits]
    split <;> simp_all [Outcome.bind]
  | case5 s hfits => rw [ensuring, if_neg hfits]

theorem bind_repeating (attempt : State T → Outcome T (Verdict T A)) (s : State T)
    (found : List A) (win : Win T (List A) R) (after : R → Outcome T B) :
    (repeating attempt s found win).bind after =
      repeating attempt s found fun s values => (win s values).bind after := by
  fun_induction repeating attempt s found win with
  | case1 s found ih =>
    rw [repeating, Outcome.bind_assoc]
    congr 1
    funext verdict
    cases verdict with
    | lost => rfl
    | won next value =>
      simp only
      split
      · next h => exact ih next value h
      · rfl

namespace Parser

theorem run_bind (parser : Parser T E A) (closed : parser.Closed) (s : State T) (lose : Lose T R)
    (win : Win T A R) (after : R → Outcome T B) :
    (parser.run s lose win).bind after =
      parser.run s (fun s f => (lose s f).bind after) fun s a => (win s a).bind after := by
  induction parser generalizing R B s with
  | succeed => rfl
  | fail => rfl
  | accept refusal =>
    simp only [run, bind_ensuring, Outcome.bind_require]
    congr 1
    funext s window
    congr 1
    funext found
    cases refusal found <;> rfl
  | demandInput =>
    simp only [run]
    split
    · rfl
    · rw [bind_prompt]
  | wantInput =>
    simp only [run, Outcome.bind_require]
    congr 1
    funext available
    split
    · rfl
    · split
      · rfl
      · rw [bind_prompt]
  | ensure => simp only [run, bind_ensuring]
  | take => simp only [run, bind_ensuring]
  | endOfInput =>
    simp only [run, Outcome.bind_require]
    congr 1
    funext available
    split
    · rfl
    · split
      · rfl
      · rw [bind_prompt]
  | orElse first second ihFirst ihSecond =>
    simp only [run]
    rw [ihFirst closed.1]
    congr 1
    funext failed _
    simp only [Outcome.bind]
    congr 1
    funext _
    exact ihSecond closed.2 _ _ _ _
  | andThen first next ihFirst ihNext =>
    simp only [run]
    rw [ihFirst closed.1]
    congr 1
    funext s value
    exact ihNext value (closed.2 value) _ _ _ _
  | map f parser ih => exact ih closed _ _ _ _
  | manyAfter found parser ih => simp only [run, bind_repeating]
  | label name parser ih => exact ih closed _ _ _ _
  | custom => exact closed.elim

theorem run_eq_bind_verdict (parser : Parser T E A) (closed : parser.Closed) (s : State T)
    (lose : Lose T R) (win : Win T A R) :
    parser.run s lose win = (parser.verdict s).bind (Verdict.resolve lose win) := by
  rw [verdict, run_bind parser closed]
  rfl

end Parser

end Piecemeal

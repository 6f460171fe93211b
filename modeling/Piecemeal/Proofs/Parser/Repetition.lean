import Piecemeal.Proofs.Parser.FailurePath

/-!
# What a repetition comes to

A repetition carries the values found so far with it, and says how many there are when it ends.
`gathering` is the same repetition without that burden: it reports what it has found from a state
on, and why it ended. `repeating_eq_gathering` splits every repetition into the gathering and one
last step, which logs the end and goes on. So values found earlier only come in front of those
gathered, and only the count in that one event knows of them.

A repetition goes on while its attempts move forward. The positions of closed parsers never move
back (`heeds_verdict`), so that is while they end anywhere else than where they began.
-/

namespace Piecemeal

open Verdict

variable {T E A B R : Type}

/-! ## Runs without their log -/

namespace Outcome

/-- The run without the events that it logs. -/
def unlogged : Outcome T R → Outcome T R
  | failed leftover failure => failed leftover failure
  | succeeded leftover value => succeeded leftover value
  | suspended resume => suspended fun c => (resume c).unlogged
  | logged _ rest => (rest ()).unlogged
  | faulted fault => faulted fault

theorem unlogged_bind (o : Outcome T A) (next : A → Outcome T R) :
    (o.bind next).unlogged = o.unlogged.bind fun a => (next a).unlogged := by
  induction o with
  | failed => rfl
  | succeeded => rfl
  | suspended _ ih => exact congrArg suspended (funext ih)
  | logged _ _ ih => exact ih ()
  | faulted => rfl

/-- Without the log, it makes no difference in which of two ways a run goes on, if it makes none for
the values that the run ends in. -/
theorem Heeds.unlogged_bind_congr [Chunk T E] {fails : Prop} {ends : More → A → Prop}
    {o : Outcome T A} {more : More} {next next' : A → Outcome T R} (h : o.Heeds fails ends more)
    (hnext : ∀ m a, ends m a → (next a).unlogged = (next' a).unlogged) :
    (o.bind next).unlogged = (o.bind next').unlogged := by
  induction o generalizing more with
  | failed => rfl
  | succeeded _ a => exact hnext more a h
  | suspended _ ih => exact congrArg suspended (funext fun c => ih c (h.2 c))
  | logged _ _ ih => exact ih () h
  | faulted => rfl

end Outcome

open Outcome

/-! ## Gathering values -/

/-- What a repetition has come to. -/
structure Gathered (T A : Type) where
  /-- Where the last attempt began, with all input that there was when it ended. -/
  state : State T
  /-- The values found, first one first. -/
  values : List A
  /-- The last attempt succeeded, but consumed nothing. -/
  idle : Bool

namespace Gathered

def report (g : Gathered T A) : Outcome T (Gathered T A) := .succeeded g.state.buffer g

def after (value : A) (g : Gathered T A) : Gathered T A := { g with values := value :: g.values }

/-- The event that ends the repetition, if it had found `already` values before these. -/
def ending (already : Nat) (g : Gathered T A) : Event :=
  if g.idle then .noProgress g.state.pos (already + g.values.length)
  else .repetitionStopped g.state.pos (already + g.values.length)

/-- The last step of a repetition that had `found` values before: it logs that it ends, and goes
on with all of them. -/
def close (found : List A) (win : Win T (List A) R) (g : Gathered T A) : Outcome T R :=
  .logged (g.ending found.length) fun _ => win g.state (found ++ g.values)

@[simp] theorem bind_report (g : Gathered T A) (next : Gathered T A → Outcome T R) :
    g.report.bind next = next g := rfl

theorem close_after (found : List A) (win : Win T (List A) R) (value : A) (g : Gathered T A) :
    close found win (g.after value) = close (found ++ [value]) win g := by
  have hcount : found.length + (g.values.length + 1) = found.length + 1 + g.values.length := by
    omega
  simp only [close, ending, after, List.length_cons, List.length_append, List.length_nil,
    List.append_assoc, List.singleton_append, Nat.zero_add, hcount]

theorem close_of_nil (found : List A) (win : Win T (List A) R) (s : State T) (idle : Bool) :
    close found win ⟨s, [], idle⟩ =
      .logged (if idle then .noProgress s.pos found.length
        else .repetitionStopped s.pos found.length) fun _ => win s found := by
  simp only [close, ending, List.length_nil, Nat.add_zero, List.append_nil]

end Gathered

/-- Makes attempts from a state on, and reports the values found. -/
def gathering (attempt : State T → Outcome T (Verdict T A)) (s : State T) :
    Outcome T (Gathered T A) :=
  (attempt s).bind fun verdict =>
    match verdict with
    | .lost next _ => Gathered.report ⟨next.moveTo s.pos, [], false⟩
    | .won next value =>
      if s.pos < next.pos then (gathering attempt next).bind fun g => (g.after value).report
      else Gathered.report ⟨next.moveTo s.pos, [], true⟩
termination_by s.pos.room
decreasing_by
  apply Pos.room_lt
  assumption

/-- A repetition gathers values, and then puts them behind those that it had found before. -/
theorem repeating_eq_gathering (attempt : State T → Outcome T (Verdict T A)) (s : State T)
    (found : List A) (win : Win T (List A) R) :
    repeating attempt s found win
      = (gathering attempt s).bind (Gathered.close found.reverse win) := by
  fun_induction repeating attempt s found win with
  | case1 s found ih =>
    rw [gathering, Outcome.bind_assoc]
    congr 1
    funext verdict
    cases verdict with
    | lost next failure =>
      rw [Gathered.bind_report, Gathered.close_of_nil, List.length_reverse]
      rfl
    | won next value =>
      simp only
      split
      · next hlt =>
        rw [ih next value hlt, Outcome.bind_assoc, List.reverse_cons]
        congr 1
        funext g
        rw [Gathered.bind_report, Gathered.close_after]
      · rw [Gathered.bind_report, Gathered.close_of_nil, List.length_reverse]
        rfl

/-- What a repetition had found before is out of sight but for the log. -/
theorem unlogged_repeating (attempt : State T → Outcome T (Verdict T A)) (s : State T)
    (found : List A) (win : Win T (List A) R) :
    (repeating attempt s found win).unlogged
      = (repeating attempt s [] fun t values => win t (found.reverse ++ values)).unlogged := by
  rw [repeating_eq_gathering, repeating_eq_gathering, unlogged_bind, unlogged_bind]
  rfl

/-! ## Unrolling a repetition -/

namespace Parser

variable [Chunk T E]

/-- What a repetition does once its first attempt has ended: if the attempt failed, or succeeded
where it began, the repetition ends there without a value; if the attempt ended elsewhere, its value
comes in front of those that the repetition from there finds. -/
def unrolled (parser : Parser T E A) (s : State T) (lose : Lose T R) (win : Win T (List A) R) :
    Verdict T A → Outcome T R
  | .lost next _ => win (next.moveTo s.pos) []
  | .won next value =>
    if next.pos = s.pos then win (next.moveTo s.pos) []
    else (many parser).run next lose fun t values => win t (value :: values)

/-- Attempts that end elsewhere than they began have moved forward, so a repetition goes on after
just these. -/
theorem unlogged_many (parser : Parser T E A) (closed : parser.Closed) (s : State T)
    (lose : Lose T R) (win : Win T (List A) R) :
    ((many parser).run s lose win).unlogged
      = ((parser.verdict s).bind (parser.unrolled s lose win)).unlogged := by
  have hrun : (many parser).run s lose win = repeating parser.verdict s [] win := rfl
  rw [hrun, repeating]
  refine (parser.heeds_verdict closed s).unlogged_bind_congr ?_
  rintro _ v ⟨-, hv⟩
  cases v with
  | lost next failure => rfl
  | won next value =>
    simp only [unrolled]
    by_cases hpos : next.pos = s.pos
    · have hstays : ¬ s.pos < next.pos := by
        rw [hpos]
        exact Nat.lt_irrefl _
      rw [if_pos hpos, if_neg hstays]
      rfl
    · have hmoves : s.pos < next.pos :=
        Nat.lt_of_le_of_ne hv fun heq => hpos (Pos.ext heq.symm)
      rw [if_neg hpos, if_pos hmoves, unlogged_repeating]
      rfl

/-- A repetition never fails: there is no verdict of its own that is a failure. -/
theorem not_leads_lost_many (parser : Parser T E A) (closed : parser.Closed) (s : State T)
    (events : List Event) (cs : List T) (buffer : T) (next : State T) (failure : Failure) :
    ¬ ((many parser).verdict s).Leads events cs (.succeeded buffer (.lost next failure)) := by
  intro hlead
  obtain ⟨-, -, hobjects⟩ := (failsAlone_manyAfter [] parser closed s).leads hlead
  exact hobjects

/-- Through any number of waits, a repetition does what its recursive description says. It never
goes on after a failure, and stops in none. -/
theorem run_many_unrolls (parser : Parser T E A) (closed : parser.Closed) (s : State T)
    (lose : Lose T R) (win : Win T (List A) R) :
    ((many parser).run s lose win).unlogged
      = ((parser.verdict s).bind (parser.unrolled s lose win)).unlogged ∧
    (∀ lose' : Lose T R, (many parser).run s lose' win = (many parser).run s lose win) ∧
    (∀ events cs buffer next failure,
      ¬ ((many parser).verdict s).Leads events cs (.succeeded buffer (.lost next failure))) ∧
    (∀ cs leftover failure,
      (((many parser).runFrom s).feedAll cs).status ≠ .failed leftover failure) := by
  refine ⟨unlogged_many parser closed s lose win, fun _ => rfl,
    not_leads_lost_many parser closed s, ?_⟩
  intro cs leftover failure hfailed
  have hclosed : (many parser).Closed := closed
  obtain ⟨events, before, behind, buffer, t, rest, -, hlost, -, -⟩ :=
    lost_of_failed hclosed hfailed
  exact not_leads_lost_many parser closed s events before buffer t failure hlost

theorem run_many_unrolls_partly_consumed :
    ((many (both (take 1) (orElse demandInput endOfInput)) :
          Parser Text Char (List (Text × Unit))).run
        ⟨Text.ofList ['é', 'a'], .ofOffset 2, .incomplete⟩ stopFailed stopSucceeded).unlogged
      = (((both (take 1) (orElse demandInput endOfInput) : Parser Text Char (Text × Unit)).verdict
          ⟨Text.ofList ['é', 'a'], .ofOffset 2, .incomplete⟩).bind
        ((both (take 1) (orElse demandInput endOfInput)).unrolled
          ⟨Text.ofList ['é', 'a'], .ofOffset 2, .incomplete⟩ stopFailed stopSucceeded)).unlogged ∧
    (((many (both (take 1) (orElse demandInput endOfInput)) :
          Parser Text Char (List (Text × Unit))).runFrom
        ⟨Text.ofList ['é', 'a'], .ofOffset 2, .incomplete⟩).feedAll
          [Text.ofList ['ж', 'b'], Text.ofList ['c'], Text.ofList []]).status
      ≠ .failed (Text.ofList []) .notEnoughInput := by
  have h := run_many_unrolls
    (both (take 1) (orElse demandInput endOfInput) : Parser Text Char (Text × Unit))
    ⟨trivial, fun _ => ⟨trivial, trivial⟩⟩ ⟨Text.ofList ['é', 'a'], .ofOffset 2, .incomplete⟩
    stopFailed stopSucceeded
  exact ⟨h.1, h.2.2.2 _ _ _⟩

/-! ## A repetition that must succeed once -/

/-- One occurrence, and then as many more as there are. The event that ends them counts `already`
values besides those. -/
def occurring (already : Nat) (parser : Parser T E A) (s : State T) (lose : Lose T R)
    (win : Win T (List A) R) : Outcome T R :=
  (parser.verdict s).bind (resolve lose fun next first =>
    (gathering parser.verdict next).bind fun g =>
      .logged (g.ending already) fun _ => win g.state (first :: g.values))

theorem run_many1 (parser : Parser T E A) (closed : parser.Closed) (s : State T)
    (lose : Lose T R) (win : Win T (List A) R) :
    (many1 parser).run s lose win = parser.occurring 1 s lose win := by
  rw [many1, run, run_eq_bind_verdict parser closed, occurring]
  congr 2
  funext next first
  exact repeating_eq_gathering parser.verdict next [first] win

theorem run_andThen_many (parser : Parser T E A) (closed : parser.Closed) (s : State T)
    (lose : Lose T R) (win : Win T (List A) R) :
    (andThen parser fun first => map (first :: ·) (many parser)).run s lose win
      = parser.occurring 0 s lose win := by
  rw [run, run_eq_bind_verdict parser closed, occurring]
  congr 2
  funext next first
  exact repeating_eq_gathering parser.verdict next [] fun t values => win t (first :: values)

theorem unlogged_occurring (parser : Parser T E A) (s : State T) (lose : Lose T R)
    (win : Win T (List A) R) (already : Nat) :
    (parser.occurring already s lose win).unlogged = (parser.occurring 0 s lose win).unlogged := by
  rw [occurring, occurring, unlogged_bind, unlogged_bind]
  congr 1
  funext v
  cases v with
  | lost next failure => rfl
  | won next first =>
    simp only [resolve, unlogged_bind]
    rfl

/-- A repetition that must succeed once is one occurrence and then a repetition: both are the same
run, with the same waits and the same ways to go on, but for the count in the one event that ends
the repetition. -/
theorem run_many1_eq_andThen_many (parser : Parser T E A) (closed : parser.Closed) (s : State T)
    (lose : Lose T R) (win : Win T (List A) R) :
    ((many1 parser).run s lose win).unlogged
      = ((andThen parser fun first => map (first :: ·) (many parser)).run s lose win).unlogged ∧
    (many1 parser).run s lose win = parser.occurring 1 s lose win ∧
    (andThen parser fun first => map (first :: ·) (many parser)).run s lose win
      = parser.occurring 0 s lose win := by
  refine ⟨?_, run_many1 parser closed s lose win, run_andThen_many parser closed s lose win⟩
  rw [run_many1 parser closed, run_andThen_many parser closed, unlogged_occurring]

theorem run_many1_eq_andThen_many_idle :
    (many1 (orElse (take 2) (ensure 0)) : Parser Text Char (List Text)).run
        ⟨Text.ofList ['é', 'a'], .ofOffset 2, .incomplete⟩ stopFailed stopSucceeded
      = (orElse (take 2) (ensure 0) : Parser Text Char Text).occurring 1
        ⟨Text.ofList ['é', 'a'], .ofOffset 2, .incomplete⟩ stopFailed stopSucceeded ∧
    (andThen (orElse (take 2) (ensure 0)) fun first =>
          map (first :: ·) (many (orElse (take 2) (ensure 0))) : Parser Text Char (List Text)).run
        ⟨Text.ofList ['é', 'a'], .ofOffset 2, .incomplete⟩ stopFailed stopSucceeded
      = (orElse (take 2) (ensure 0) : Parser Text Char Text).occurring 0
        ⟨Text.ofList ['é', 'a'], .ofOffset 2, .incomplete⟩ stopFailed stopSucceeded :=
  (run_many1_eq_andThen_many (orElse (take 2) (ensure 0) : Parser Text Char Text)
    ⟨trivial, trivial⟩ ⟨Text.ofList ['é', 'a'], .ofOffset 2, .incomplete⟩ stopFailed
    stopSucceeded).2

end Parser

end Piecemeal

import Piecemeal.Proofs.Parser.Verdict

/-!
# What a run waits for and ends in

`o.Heeds fails ends more`: the outcome `o` belongs to a run that was told what `more` says. The run
waits only while more may come, it succeeds only with values that `ends` allows for what it was told
by then, and it fails by itself only if `fails` holds. This asks nothing of positions and widths, so
it can be said of runs on any input. There is one rule for each way to put runs together, and from
these it follows for the runs of closed parsers, if both ways to go on heed the same (`heeds_run`).
On its own a closed parser never fails by itself, hands on the flag that it was told, and ends no
further back than it began (`heeds_verdict`).

This is about the ends and the waits of one run. What its log says is `Outcome.Converses`, and what
it does beside another run is `Outcome.Follows` and `Pairing.Lockstep`.
-/

namespace Piecemeal

variable {T E A R : Type} [Chunk T E]

/-- The flag of a run that is given an increment: an empty one says that there will be no more. -/
def More.afterIncrement (c : T) : More := if Chunk.isEmpty c then .complete else .incomplete

omit [Chunk T E] in
theorem More.eq_incomplete {more : More} (h : ¬ more.isComplete = true) : more = .incomplete := by
  cases more with
  | incomplete => rfl
  | complete => exact absurd rfl h

namespace Outcome

def Heeds (fails : Prop) (ends : More → R → Prop) : Outcome T R → More → Prop
  | failed _ _, _ => fails
  | succeeded _ value, more => ends more value
  | suspended resume, more =>
    more = .incomplete ∧ ∀ c, (resume c).Heeds fails ends (.afterIncrement c)
  | logged _ rest, more => (rest ()).Heeds fails ends more
  | faulted _, _ => True

variable {fails : Prop} {ends : More → R → Prop}

theorem Heeds.mono {ends' : More → R → Prop} {o : Outcome T R} {more : More}
    (h : o.Heeds fails ends more) (hends : ∀ m value, ends m value → ends' m value) :
    o.Heeds fails ends' more := by
  induction o generalizing more with
  | failed => exact h
  | succeeded _ value => exact hends more value h
  | suspended _ ih => exact ⟨h.1, fun c => ih c (h.2 c)⟩
  | logged _ _ ih => exact ih () h
  | faulted => trivial

theorem Heeds.bind {o : Outcome T A} {mid : More → A → Prop} {next : A → Outcome T R} {more : More}
    (h : o.Heeds fails mid more)
    (hnext : ∀ m value, mid m value → (next value).Heeds fails ends m) :
    (o.bind next).Heeds fails ends more := by
  induction o generalizing more with
  | failed => exact h
  | succeeded _ value => exact hnext more value h
  | suspended _ ih => exact ⟨h.1, fun c => ih c (h.2 c)⟩
  | logged _ _ ih => exact ih () h
  | faulted => trivial

theorem heeds_require {answer : Except Fault A} {next : A → Outcome T R} {more : More}
    (h : ∀ a, answer = .ok a → (next a).Heeds fails ends more) :
    (require answer next).Heeds fails ends more := by
  cases answer with
  | ok a => exact h a rfl
  | error => trivial

theorem heeds_prompt {s : State T} {ended : State T → Outcome T R}
    {resumed : (next : State T) → s.Wider next → Outcome T R} (hmore : ¬ s.more.isComplete = true)
    (hended : ∀ t, t.pos = s.pos → (ended t).Heeds fails ends t.more)
    (hresumed : ∀ t h, t.pos = s.pos → (resumed t h).Heeds fails ends t.more) :
    (prompt s ended resumed).Heeds fails ends s.more := by
  refine ⟨More.eq_incomplete hmore, ?_⟩
  intro c
  simp only [More.afterIncrement]
  by_cases h : Chunk.isEmpty c = true
  · rw [if_pos h, dif_pos h]
    exact hended s.ended rfl
  · rw [if_neg h, dif_neg h]
    exact hresumed (s.grown c) _ rfl

theorem heeds_ensuring {n : Nat} {s : State T} {lose : Lose T R} {win : Win T T R}
    (hlose : ∀ t, t.pos = s.pos → (lose t .notEnoughInput).Heeds fails ends t.more)
    (hwin : ∀ t window, t.pos = s.pos → Chunk.substring t.buffer t.pos.offset n = .ok window →
      (win t window).Heeds fails ends t.more) :
    (ensuring n s lose win).Heeds fails ends s.more := by
  fun_induction ensuring n s lose win with
  | case1 s hfits hlong => exact heeds_require fun window h => hwin s window rfl h
  | case2 s hfits hshort hcomplete => exact hlose s rfl
  | case3 s hfits hshort hmore ih =>
    refine heeds_prompt hmore hlose ?_
    intro t hwider ht
    exact ih t hwider (fun u hu => hlose u (hu.trans ht)) fun u c hu => hwin u c (hu.trans ht)
  | case4 => trivial
  | case5 s hfits => exact hlose s rfl

theorem heeds_looking {s : State T} {found ended : State T → Outcome T R}
    (hfound : ∀ t, t.pos = s.pos → (found t).Heeds fails ends t.more)
    (hended : ∀ t, t.pos = s.pos → (ended t).Heeds fails ends t.more) :
    (require (Chunk.lengthAtLeast s.buffer s.pos.offset 1) fun available =>
      if available then found s else if s.more.isComplete then ended s
        else prompt s ended fun t _ => found t).Heeds fails ends s.more := by
  refine heeds_require fun available _ => ?_
  split
  · exact hfound s rfl
  · split
    · exact hended s rfl
    · next hmore => exact heeds_prompt hmore hended fun t _ => hfound t

/-- A repetition whose attempts hand on the flag that they were told ends no further back than it
began. -/
theorem heeds_repeating {attempt : State T → Outcome T (Verdict T A)} {s : State T}
    {found : List A} {win : Win T (List A) R}
    (hattempt : ∀ t, (attempt t).Heeds fails (fun more v => v.state.more = more) t.more)
    (hwin : ∀ t values, s.pos ≤ t.pos → (win t values).Heeds fails ends t.more) :
    (repeating attempt s found win).Heeds fails ends s.more := by
  fun_induction repeating attempt s found win with
  | case1 s found ih =>
    refine (hattempt s).bind ?_
    rintro _ verdict rfl
    have hback : ∀ next : State T, s.pos ≤ (next.moveTo s.pos).pos := fun _ => Nat.le_refl _
    cases verdict with
    | lost next failure => exact hwin (next.moveTo s.pos) _ (hback next)
    | won next value =>
      simp only
      split
      · next hlt =>
        refine ih next value hlt ?_
        intro t values ht
        exact hwin t values (Nat.le_trans (Nat.le_of_lt hlt) ht)
      · exact hwin (next.moveTo s.pos) _ (hback next)

/-! ## What follows from it -/

theorem heeds_of_not_suspended {o : Outcome T R} (more : More)
    (h : o.status.isSuspended = false) : o.Heeds True (fun _ _ => True) more := by
  induction o with
  | failed => trivial
  | succeeded => trivial
  | suspended => cases h
  | logged _ _ ih => exact ih () h
  | faulted => trivial

theorem Heeds.not_leads_failed {o : Outcome T R} {more : More} (h : o.Heeds False ends more)
    {events : List Event} {cs : List T} {leftover : T} {failure : Failure} :
    ¬ o.Leads events cs (.failed leftover failure) := by
  intro hlead
  generalize hq : Outcome.failed leftover failure = q at hlead
  induction hlead generalizing more with
  | here => subst hq; exact h
  | logged _ ih => exact ih h hq
  | resumed _ ih => exact ih (h.2 _) hq

theorem Heeds.leads {o : Outcome T R} {more : More} (h : o.Heeds fails ends more)
    {events : List Event} {cs : List T} {leftover : T} {value : R}
    (hlead : o.Leads events cs (.succeeded leftover value)) : ∃ m, ends m value := by
  generalize hq : Outcome.succeeded leftover value = q at hlead
  induction hlead generalizing more with
  | here => subst hq; exact ⟨more, h⟩
  | logged _ ih => exact ih h hq
  | resumed _ ih => exact ih (h.2 _) hq

/-- Once the run has been told that no more input comes, it does not wait. -/
theorem Heeds.isSuspended_feedAll {o : Outcome T R} {more : More} (h : o.Heeds fails ends more)
    (cs : List T) (hend : (more.isComplete || cs.any Chunk.isEmpty) = true) :
    (o.feedAll cs).status.isSuspended = false := by
  induction o generalizing more cs with
  | failed leftover failure =>
    rw [feedAll_failed]
    rfl
  | succeeded leftover value =>
    rw [feedAll_succeeded]
    rfl
  | suspended resume ih =>
    obtain ⟨rfl, hresume⟩ := h
    cases cs with
    | nil => cases hend
    | cons c cs =>
      refine ih c (hresume c) cs ?_
      unfold More.afterIncrement
      cases hc : Chunk.isEmpty c with
      | true => rfl
      | false => simpa [hc, More.isComplete] using hend
  | logged event rest ih =>
    rw [feedAll_logged]
    exact ih () h cs hend
  | faulted fault =>
    rw [feedAll_faulted]
    rfl

end Outcome

/-! ## All parsers -/

namespace Parser

open Outcome

theorem heeds_run (parser : Parser T E A) (closed : parser.Closed) (s : State T) {fails : Prop}
    {ends : More → R → Prop} {lose : Lose T R} {win : Win T A R}
    (hlose : ∀ t f, s.pos ≤ t.pos → (lose t f).Heeds fails ends t.more)
    (hwin : ∀ t a, s.pos ≤ t.pos → (win t a).Heeds fails ends t.more) :
    (parser.run s lose win).Heeds fails ends s.more := by
  have hsame : ∀ {s t : State T}, t.pos = s.pos → s.pos ≤ t.pos := fun h => Nat.le_of_eq (h ▸ rfl)
  induction parser generalizing R s with
  | succeed => exact hwin s _ (hsame rfl)
  | fail => exact hlose s _ (hsame rfl)
  | accept refusal =>
    refine heeds_ensuring (fun t ht => hlose t _ (hsame ht)) fun t window ht _ => ?_
    refine heeds_require fun found _ => ?_
    split
    · exact hwin (t.advance _) _ (Nat.le_trans (hsame ht) (t.pos.le_advance _))
    · exact hlose t _ (hsame ht)
  | demandInput =>
    simp only [run]
    split
    · exact hlose s _ (hsame rfl)
    · next hmore =>
      exact heeds_prompt hmore (fun t ht => hlose t _ (hsame ht))
        fun t _ ht => hwin t _ (hsame ht)
  | wantInput =>
    exact heeds_looking (fun t ht => hwin t _ (hsame ht)) fun t ht => hwin t _ (hsame ht)
  | ensure n =>
    exact heeds_ensuring (fun t ht => hlose t _ (hsame ht)) fun t _ ht _ => hwin t _ (hsame ht)
  | take n =>
    refine heeds_ensuring (fun t ht => hlose t _ (hsame ht)) fun t window ht _ => ?_
    exact hwin (t.advance _) _ (Nat.le_trans (hsame ht) (t.pos.le_advance _))
  | endOfInput =>
    exact heeds_looking (fun t ht => hlose t _ (hsame ht)) fun t ht => hwin t _ (hsame ht)
  | orElse first second ihFirst ihSecond =>
    refine ihFirst closed.1 s (fun failed _ _ => ?_) hwin
    exact ihSecond closed.2 (failed.moveTo s.pos) hlose hwin
  | andThen first next ihFirst ihNext =>
    refine ihFirst closed.1 s hlose fun t a ht => ?_
    refine ihNext a (closed.2 a) t ?_ ?_
    · intro u f hu
      exact hlose u f (Nat.le_trans ht hu)
    · intro u b hu
      exact hwin u b (Nat.le_trans ht hu)
  | map f parser ih => exact ih closed s hlose fun t _ => hwin t _
  | manyAfter found parser ih =>
    refine heeds_repeating (fun t => ?_) hwin
    exact ih closed t (fun _ _ _ => rfl) fun _ _ _ => rfl
  | label name parser ih => exact ih closed s (fun t _ => hlose t _) hwin
  | custom => exact closed.elim

theorem heeds_verdict (parser : Parser T E A) (closed : parser.Closed) (s : State T) :
    (parser.verdict s).Heeds False (fun more v => v.state.more = more ∧ s.pos ≤ v.state.pos)
      s.more :=
  parser.heeds_run closed s (fun _ _ ht => ⟨rfl, ht⟩) fun _ _ ht => ⟨rfl, ht⟩

end Parser

end Piecemeal

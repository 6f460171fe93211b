import Piecemeal.Proofs.Outcome.Lockstep
import Piecemeal.Proofs.Parser.Threading

/-!
# Parsers in lockstep

Parsers over two kinds of input correspond (`Pairing.Corresponds`) if they are put together in the
same way from the same parts, and what the user puts into them respects a relation between the
values: functions take related values to related ones, and elements that stand for each other are
accepted or refused alike.

States are parallel if the elements behind their positions correspond, those still to come do so
too, and the positions differ by the bytes that only the first input has. Parsers that correspond
run in lockstep from parallel states (`deciding_verdict`): no parser looks at anything but the
elements behind its position. The one place where a position itself counts is the test whether a
request can be met at all. So the counts that the runs ask for on their way (`Parser.Requests`) must
be small enough to pass it at both positions, unless the input is complete.
-/

namespace Piecemeal

open Verdict

variable {T T' E E' A A' B B' R R' : Type} [Chunk T E] [Chunk T' E']

/-! ## The counts that a run asks for -/

/-- The attempts that a repetition makes, each with the increments that are still to come. -/
inductive Attempts (attempt : State T → Outcome T (Verdict T A)) :
    State T → List T → State T → List T → Prop where
  | first (s : State T) (cs : List T) : Attempts attempt s cs s cs
  | next {s t next : State T} {cs ds es : List T} {value : A} :
      (attempt s).Comes cs (.won next value) ds → s.pos < next.pos → Attempts attempt next ds t es →
      Attempts attempt s cs t es

/-- The run from `s`, given `cs`, passes the count `n` to `ensure` or to `take`. Only parsers that
the run comes to count: the second side of a choice if the first has failed, the parser that a value
selects if the first one has come to that value, and the attempts that a repetition makes. -/
def Parser.Requests : {A : Type} → Parser T E A → State T → List T → Nat → Prop
  | _, .ensure m, _, _, n => n = m
  | _, .take m, _, _, n => n = m
  | _, .orElse first second, s, cs, n => first.Requests s cs n ∨
    ∃ failed failure ds, (first.verdict s).Comes cs (.lost failed failure) ds ∧
      second.Requests (failed.moveTo s.pos) ds n
  | _, .andThen first next, s, cs, n => first.Requests s cs n ∨
    ∃ mid value ds, (first.verdict s).Comes cs (.won mid value) ds ∧
      (next value).Requests mid ds n
  | _, .map _ parser, s, cs, n => parser.Requests s cs n
  | _, .manyAfter _ parser, s, cs, n =>
    ∃ t ds, Attempts parser.verdict s cs t ds ∧ parser.Requests t ds n
  | _, .label _ parser, s, cs, n => parser.Requests s cs n
  | _, _, _, _, _ => False

namespace Pairing

/-- A request for `n` elements is larger than any size at both positions or at none. -/
def Grants (pairing : Pairing T T') (n : Nat) : Prop :=
  pairing.skip = 0 ∨ n + Size.storable ≤ Size.max

/-- What is left to read and what is still to come corresponds. -/
structure Parallel (pairing : Pairing T T') (s : State T) (cs : List T) (s' : State T')
    (cs' : List T') : Prop where
  sound : s.Sound
  rest : ∃ before after before' after', Chunk.SplitsAt s.buffer s.pos.offset before after ∧
    Chunk.SplitsAt s'.buffer s'.pos.offset before' after' ∧
    List.Forall₂ pairing.elements after after'
  offset : s.pos.offset = s'.pos.offset + pairing.skip
  more : s.more = s'.more
  coming : List.Forall₂ pairing.chunks cs cs'
  storable : Chunk.width s.buffer + Chunk.totalWidth cs < Size.storable

/-- The counts that both runs ask for are granted, unless the input is complete. -/
def Granted (pairing : Pairing T T') (s : State T) (asks asks' : Nat → Prop) : Prop :=
  s.more = .complete ∨ ∀ n, asks n → asks' n → pairing.Grants n

/-- The parsers ended alike, in parallel states. -/
inductive EndAlike (pairing : Pairing T T') (rel : A → A' → Prop) (cs : List T) (cs' : List T') :
    Verdict T A → Verdict T' A' → Prop where
  | lost {next : State T} {next' : State T'} {failure : Failure} :
      pairing.Parallel next cs next' cs' →
      EndAlike pairing rel cs cs' (.lost next failure) (.lost next' failure)
  | won {next : State T} {next' : State T'} {value : A} {value' : A'} :
      pairing.Parallel next cs next' cs' → rel value value' →
      EndAlike pairing rel cs cs' (.won next value) (.won next' value')

abbrev Deciding (pairing : Pairing T T') (rel : A → A' → Prop) :
    List T → List T' → Outcome T (Verdict T A) → Outcome T' (Verdict T' A') → Prop :=
  pairing.Lockstep fun cs _ v cs' _ v' => pairing.EndAlike rel cs cs' v v'

/-- The parsers are put together in the same way. Their values are in the relation. -/
inductive Corresponds (pairing : Pairing T T') : {A A' : Type} → (A → A' → Prop) →
    Parser T E A → Parser T' E' A' → Prop where
  | succeed {A A' : Type} {rel : A → A' → Prop} {value : A} {value' : A'} :
      rel value value' → Corresponds pairing rel (.succeed value) (.succeed value')
  | fail {A A' : Type} {rel : A → A' → Prop} (reason : String) :
      Corresponds pairing rel (.fail reason) (.fail reason)
  | accept {refusal : E → Option String} {refusal' : E' → Option String} :
      (∀ e e', pairing.elements e e' → refusal e = refusal' e') →
      Corresponds pairing pairing.elements (.accept refusal) (.accept refusal')
  | demandInput : Corresponds pairing Eq .demandInput .demandInput
  | wantInput : Corresponds pairing Eq .wantInput .wantInput
  | ensure (n : Nat) : Corresponds pairing pairing.chunks (.ensure n) (.ensure n)
  | take (n : Nat) : Corresponds pairing pairing.chunks (.take n) (.take n)
  | endOfInput : Corresponds pairing Eq .endOfInput .endOfInput
  | orElse {A A' : Type} {rel : A → A' → Prop} {first second : Parser T E A}
      {first' second' : Parser T' E' A'} : Corresponds pairing rel first first' →
      Corresponds pairing rel second second' →
      Corresponds pairing rel (.orElse first second) (.orElse first' second')
  | andThen {A A' B B' : Type} {rel : A → A' → Prop} {rel' : B → B' → Prop}
      {first : Parser T E A} {first' : Parser T' E' A'} {next : A → Parser T E B}
      {next' : A' → Parser T' E' B'} : Corresponds pairing rel first first' →
      (∀ a a', rel a a' → Corresponds pairing rel' (next a) (next' a')) →
      Corresponds pairing rel' (.andThen first next) (.andThen first' next')
  | map {A A' B B' : Type} {rel : A → A' → Prop} {rel' : B → B' → Prop} {f : A → B}
      {f' : A' → B'} {parser : Parser T E A} {parser' : Parser T' E' A'} :
      (∀ a a', rel a a' → rel' (f a) (f' a')) → Corresponds pairing rel parser parser' →
      Corresponds pairing rel' (.map f parser) (.map f' parser')
  | manyAfter {A A' : Type} {rel : A → A' → Prop} {found : List A} {found' : List A'}
      {parser : Parser T E A} {parser' : Parser T' E' A'} : List.Forall₂ rel found found' →
      Corresponds pairing rel parser parser' →
      Corresponds pairing (List.Forall₂ rel) (.manyAfter found parser) (.manyAfter found' parser')
  | label {A A' : Type} {rel : A → A' → Prop} (name : String) {parser : Parser T E A}
      {parser' : Parser T' E' A'} : Corresponds pairing rel parser parser' →
      Corresponds pairing rel (.label name parser) (.label name parser')
  /-- Less may be asked of the values. -/
  | weaken {A A' : Type} {rel rel' : A → A' → Prop} {parser : Parser T E A}
      {parser' : Parser T' E' A'} : (∀ a a', rel a a' → rel' a a') →
      Corresponds pairing rel parser parser' → Corresponds pairing rel' parser parser'

variable {pairing : Pairing T T'} {s t : State T} {s' t' : State T'} {cs ds : List T}
  {cs' ds' : List T'}

theorem Granted.of_asks {asks asks' ask ask' : Nat → Prop} (h : pairing.Granted s asks asks')
    (hmore : s.more = .complete → t.more = .complete) (hask : ∀ n, ask n → asks n)
    (hask' : ∀ n, ask' n → asks' n) : pairing.Granted t ask ask' := by
  rcases h with hcomplete | hall
  · exact .inl (hmore hcomplete)
  · exact .inr fun n hn hn' => hall n (hask n hn) (hask' n hn')

/-! ## Parallel states -/

namespace Parallel

theorem pos_eq (hs : pairing.Parallel s cs s' cs') : s.pos = s'.pos.advance pairing.skip := by
  apply Pos.ext
  have hle := s.pos.offset_le
  rw [hs.offset] at hle ⊢
  exact (Pos.offset_advance hle).symm

theorem pos_lt_iff (hs : pairing.Parallel s cs s' cs') (ht : pairing.Parallel t ds t' ds') :
    s.pos < t.pos ↔ s'.pos < t'.pos := by
  rw [Pos.lt_def, Pos.lt_def, hs.offset, ht.offset]
  omega

/-- A request that is granted passes the test for sizes at both positions or at none. -/
theorem fits_eq [LawfulChunk T E] (hs : pairing.Parallel s cs s' cs') {n : Nat}
    (hn : pairing.Grants n) : Size.fits (s.pos.offset + n) = Size.fits (s'.pos.offset + n) := by
  have hoffset := hs.offset
  rw [Bool.eq_iff_iff, Size.fits_iff, Size.fits_iff]
  rcases hn with hzero | hsmall
  · rw [hoffset, hzero, Nat.add_zero]
  · have hle := hs.sound.boundary.le_width
    have hstorable := hs.sound.storable
    omega

variable [LawfulChunk T E] [LawfulChunk T' E']

theorem width_eq (hs : pairing.Parallel s cs s' cs') :
    Chunk.width s.buffer = Chunk.width s'.buffer + pairing.skip := by
  obtain ⟨before, after, before', after', h, h', hlike⟩ := hs.rest
  have hwidth := h.width_eq
  have hwidth' := h'.width_eq
  have hoffset := hs.offset
  rw [widthOf_eq_of_forall₂ hlike] at hwidth
  omega

theorem sound' (hs : pairing.Parallel s cs s' cs') : s'.Sound := by
  obtain ⟨before, after, before', after', h, h', hlike⟩ := hs.rest
  have hwidth := hs.width_eq
  have hstorable := hs.sound.storable
  exact ⟨by omega, before', after', h'⟩

variable {c : T} {c' : T'}

theorem storable_cons (hs : pairing.Parallel s (c :: cs) s' (c' :: cs')) :
    Chunk.width s.buffer + Chunk.width c < Size.storable ∧
      Chunk.width s'.buffer + Chunk.width c' < Size.storable := by
  obtain ⟨hc, -⟩ := List.forall₂_cons.1 hs.coming
  have hstorable := hs.storable
  have hskip := hs.width_eq
  have hwidth := Pairing.width_eq hc
  rw [Chunk.totalWidth_cons] at hstorable
  omega

theorem given (hs : pairing.Parallel s (c :: cs) s' (c' :: cs')) :
    pairing.Parallel (s.given c) cs (s'.given c') cs' := by
  obtain ⟨before, after, before', after', h, h', hlike⟩ := hs.rest
  obtain ⟨hc, hcs⟩ := List.forall₂_cons.1 hs.coming
  refine ⟨hs.sound.given hs.storable_cons.1, ?_, hs.offset, ?_, hcs, ?_⟩
  · exact ⟨before, _, before', _, h.append c, h'.append c', List.rel_append hlike hc⟩
  · simp only [State.given, isEmpty_eq hc, hs.more]
  · have hstorable := hs.storable
    rw [Chunk.totalWidth_cons] at hstorable
    rw [State.given_buffer, Chunk.width_append]
    omega

theorem advance (hs : pairing.Parallel s cs s' cs') {before after : List E}
    {before' after' : List E'} (h : Chunk.SplitsAt s.buffer s.pos.offset before after)
    (h' : Chunk.SplitsAt s'.buffer s'.pos.offset before' after')
    (hlike : List.Forall₂ pairing.elements after after') (n : Nat) :
    pairing.Parallel (s.advance (Chunk.widthOf T (after.take n))) cs
      (s'.advance (Chunk.widthOf T' (after'.take n))) cs' := by
  have hnext := hs.sound.advance h n
  have hnext' := hs.sound'.advance h' n
  have hrest := List.forall₂_drop n hlike
  have hwidth : Chunk.width s.buffer = _ := hnext.width_eq
  have hwidth' : Chunk.width s'.buffer = _ := hnext'.width_eq
  have hskip := hs.width_eq
  rw [widthOf_eq_of_forall₂ hrest] at hwidth
  refine ⟨⟨hs.sound.storable, _, _, hnext⟩, ⟨_, _, _, _, hnext, hnext', hrest⟩, ?_, hs.more,
    hs.coming, hs.storable⟩
  omega

end Parallel

/-! ## Verdicts in lockstep -/

theorem EndAlike.mono {rel rel' : A → A' → Prop} (hrel : ∀ a a', rel a a' → rel' a a')
    {v : Verdict T A} {v' : Verdict T' A'} (h : pairing.EndAlike rel cs cs' v v') :
    pairing.EndAlike rel' cs cs' v v' := by
  cases h with
  | lost hnext => exact .lost hnext
  | won hnext hvalue => exact .won hnext (hrel _ _ hvalue)

section

variable {rel : A → A' → Prop}

theorem deciding_losing (hs : pairing.Parallel s cs s' cs') (failure : Failure) :
    pairing.Deciding rel cs cs' (losing s failure) (losing s' failure) :=
  .succeeded (.lost hs)

theorem deciding_winning (hs : pairing.Parallel s cs s' cs') {value : A} {value' : A'}
    (h : rel value value') :
    pairing.Deciding rel cs cs' (winning s value) (winning s' value') :=
  .succeeded (.won hs h)

end

variable [LawfulChunk T E] [LawfulChunk T' E']

/-- To go on together from verdicts, it is enough to go on together from the states that the runs
have reached: parallel ones, at the positions where they started. -/
theorem Deciding.bind {rel : A → A' → Prop} {ends : List T → T → R → List T' → T' → R' → Prop}
    {o : Outcome T (Verdict T A)} {o' : Outcome T' (Verdict T' A')}
    {next : Verdict T A → Outcome T R} {next' : Verdict T' A' → Outcome T' R'}
    (h : pairing.Deciding rel cs cs' o o') (hs : pairing.Parallel s cs s' cs')
    (ho : EndsOnward o s) (ho' : EndsOnward o' s')
    (hnext : ∀ {t t' ds ds' v v'}, pairing.Parallel t ds t' ds' → t.pos = s.pos →
      t'.pos = s'.pos → (s.more = .complete → t.more = .complete) → t.Onward v.state →
      t'.Onward v'.state → o.Comes cs v ds → o'.Comes cs' v' ds' →
      pairing.EndAlike rel ds ds' v v' → pairing.Lockstep ends ds ds' (next v) (next' v')) :
    pairing.Lockstep ends cs cs' (o.bind next) (o'.bind next') := by
  induction h generalizing s s' with
  | failed => exact ho.elim
  | succeeded hend =>
    exact hnext hs rfl rfl id ho ho' (Outcome.comes_succeeded _ _ _)
      (Outcome.comes_succeeded _ _ _) hend
  | waiting => exact .waiting
  | @resumed c c' cs cs' resume resume' _ ih =>
    obtain ⟨hc, hc'⟩ := hs.storable_cons
    refine .resumed (ih hs.given (ho.2.2 c hc) (ho'.2.2 c' hc') ?_)
    intro t t' ds ds' v v' ht hpos hpos' hmore hon hon' hcomes hcomes' hend
    refine hnext ht hpos hpos' ?_ hon hon' hcomes.resumed hcomes'.resumed hend
    intro hcomplete
    refine hmore ?_
    simp only [State.given, hcomplete, ite_self]
  | logged hevent _ ih =>
    refine .logged hevent (ih hs ho ho' ?_)
    intro t t' ds ds' v v' ht hpos hpos' hmore hon hon' hcomes hcomes' hend
    exact hnext ht hpos hpos' hmore hon hon' hcomes.logged hcomes'.logged hend

theorem lockstep_prompt {ends : List T → T → R → List T' → T' → R' → Prop}
    {ended : State T → Outcome T R} {ended' : State T' → Outcome T' R'}
    {resumed : (next : State T) → s.Wider next → Outcome T R}
    {resumed' : (next : State T') → s'.Wider next → Outcome T' R'}
    (hs : pairing.Parallel s cs s' cs') (hmore : s.more = .incomplete)
    (hended : ∀ {ds ds'}, pairing.Parallel s.ended ds s'.ended ds' →
      pairing.Lockstep ends ds ds' (ended s.ended) (ended' s'.ended))
    (hresumed : ∀ {ds ds'} c c' h h', pairing.Parallel (s.grown c) ds (s'.grown c') ds' →
      pairing.Lockstep ends ds ds' (resumed (s.grown c) h) (resumed' (s'.grown c') h')) :
    pairing.Lockstep ends cs cs' (prompt s ended resumed) (prompt s' ended' resumed') := by
  have hcoming := hs.coming
  refine .logged ?_ ?_
  · simp only [Event.shifted, hs.pos_eq, hs.width_eq]
  cases hcoming with
  | nil => exact .waiting
  | @cons c c' ds ds' hc _ =>
    have hgiven := hs.given
    have hempty := isEmpty_eq hc
    refine .resumed ?_
    split
    · next h =>
      rw [dif_pos (hempty ▸ h)]
      rw [State.given_of_isEmpty h, State.given_of_isEmpty (hempty ▸ h)] at hgiven
      refine .logged ?_ (hended hgiven)
      simp only [Event.shifted, hs.pos_eq]
    · next h =>
      rw [dif_neg (hempty ▸ h)]
      have hfull := Bool.eq_false_iff.2 h
      rw [State.given_of_not_isEmpty hmore hfull,
        State.given_of_not_isEmpty (hs.more ▸ hmore) (hempty ▸ hfull)] at hgiven
      refine .logged ?_ (hresumed c c' _ _ hgiven)
      simp only [Event.shifted, hs.pos_eq, Pairing.width_eq hc]

/-- Both runs wait for elements until they are there, or until it is clear that they will not
be. -/
theorem lockstep_ensuring {n : Nat} {ends : List T → T → R → List T' → T' → R' → Prop}
    {lose : Lose T R} {lose' : Lose T' R'} {win : Win T T R} {win' : Win T' T' R'}
    (hs : pairing.Parallel s cs s' cs') (hn : s.more = .complete ∨ pairing.Grants n)
    (hlose : ∀ {t t' ds ds'}, pairing.Parallel t ds t' ds' →
      pairing.Lockstep ends ds ds' (lose t .notEnoughInput) (lose' t' .notEnoughInput))
    (hwin : ∀ {t t' ds ds' before after before' after'}, pairing.Parallel t ds t' ds' →
      Chunk.SplitsAt t.buffer t.pos.offset before after →
      Chunk.SplitsAt t'.buffer t'.pos.offset before' after' →
      List.Forall₂ pairing.elements after after' → n ≤ after.length →
      pairing.Lockstep ends ds ds' (win t (Chunk.ofList (after.take n)))
        (win' t' (Chunk.ofList (after'.take n)))) :
    pairing.Lockstep ends cs cs' (ensuring n s lose win) (ensuring n s' lose' win') := by
  induction hroom : s.pos.offset + 4 * n - Chunk.width s.buffer using Nat.strongRecOn
    generalizing s s' cs cs' with
  | ind room ih =>
    obtain ⟨before, after, before', after', h, h', hlike⟩ := hs.rest
    rw [Parser.ensuring_eq hs.sound h, Parser.ensuring_eq hs.sound' h', ← hlike.length_eq]
    by_cases hlong : n ≤ after.length
    · rw [if_pos hlong, if_pos hlong]
      exact hwin hs h h' hlike hlong
    · rw [if_neg hlong, if_neg hlong]
      have hend : (s'.more.isComplete || !Size.fits (s'.pos.offset + n)) =
          (s.more.isComplete || !Size.fits (s.pos.offset + n)) := by
        rcases hn with hcomplete | hgrants
        · rw [← hs.more, hcomplete]
          rfl
        · rw [hs.fits_eq hgrants, hs.more]
      rw [hend]
      split
      · exact hlose hs
      · next hwait =>
        have hmore : s.more = .incomplete := by
          cases hm : s.more with
          | incomplete => rfl
          | complete => simp [hm, More.isComplete] at hwait
        have hgrants : pairing.Grants n := by
          rcases hn with hcomplete | hgrants
          · rw [hcomplete] at hmore
            cases hmore
          · exact hgrants
        have hshort := Chunk.width_lt_of_short (hs.sound.lengthAtLeast h n |>.trans
          (congrArg Except.ok (decide_eq_false hlong)))
        refine lockstep_prompt hs hmore hlose ?_
        intro ds ds' c c' hwider _ hgrown
        refine ih _ ?_ hgrown (.inr hgrants) rfl
        have := hwider.2
        simp only [State.grown] at this ⊢
        omega

theorem lockstep_looking {ends : List T → T → R → List T' → T' → R' → Prop}
    {found ended : State T → Outcome T R} {found' ended' : State T' → Outcome T' R'}
    (hs : pairing.Parallel s cs s' cs') {after : List E} {after' : List E'}
    (hlike : List.Forall₂ pairing.elements after after')
    (hfound : ∀ {t t' ds ds'}, pairing.Parallel t ds t' ds' →
      pairing.Lockstep ends ds ds' (found t) (found' t'))
    (hended : ∀ {t t' ds ds'}, pairing.Parallel t ds t' ds' →
      pairing.Lockstep ends ds ds' (ended t) (ended' t')) :
    pairing.Lockstep ends cs cs'
      (if 1 ≤ after.length then found s else if s.more.isComplete then ended s
        else prompt s ended fun s _ => found s)
      (if 1 ≤ after'.length then found' s' else if s'.more.isComplete then ended' s'
        else prompt s' ended' fun s _ => found' s) := by
  rw [← hlike.length_eq, ← hs.more]
  split
  · exact hfound hs
  · cases hmore : s.more with
    | complete => exact hended hs
    | incomplete =>
      rw [if_neg (by decide), if_neg (by decide)]
      refine lockstep_prompt hs hmore hended ?_
      intro ds ds' c c' _ _ hgrown
      exact hfound hgrown

theorem deciding_repeating {rel : A → A' → Prop} {attempt : State T → Outcome T (Verdict T A)}
    {attempt' : State T' → Outcome T' (Verdict T' A')} {asks : State T → List T → Nat → Prop}
    {asks' : State T' → List T' → Nat → Prop}
    (hattempt : ∀ {t t' ds ds'}, pairing.Parallel t ds t' ds' →
      pairing.Granted t (asks t ds) (asks' t' ds') →
      pairing.Deciding rel ds ds' (attempt t) (attempt' t'))
    (honward : ∀ t, t.Sound → EndsOnward (attempt t) t)
    (honward' : ∀ t, t.Sound → EndsOnward (attempt' t) t) (hs : pairing.Parallel s cs s' cs')
    (hasks : pairing.Granted s (fun n => ∃ t ds, Attempts attempt s cs t ds ∧ asks t ds n)
      fun n => ∃ t ds, Attempts attempt' s' cs' t ds ∧ asks' t ds n)
    {found : List A} {found' : List A'} (hfound : List.Forall₂ rel found found') :
    pairing.Deciding (List.Forall₂ rel) cs cs' (repeating attempt s found winning)
      (repeating attempt' s' found' winning) := by
  fun_induction repeating attempt s found winning generalizing cs s' cs' found' with
  | case1 s found ih =>
    rw [repeating]
    have hfirst : pairing.Granted s (asks s cs) (asks' s' cs') :=
      hasks.of_asks id (fun n hn => ⟨s, cs, .first s cs, hn⟩)
        fun n hn => ⟨s', cs', .first s' cs', hn⟩
    refine (hattempt hs hfirst).bind hs (honward s hs.sound) (honward' s' hs.sound') ?_
    intro t t' ds ds' v v' ht hpos hpos' hmore hon hon' hcomes hcomes' hend
    have hback : v.state.moveTo s.pos = t := hpos ▸ hon.moveTo
    have hback' : v'.state.moveTo s'.pos = t' := hpos' ▸ hon'.moveTo
    have hstop : pairing.Deciding (List.Forall₂ rel) ds ds'
        (winning (v.state.moveTo s.pos) found.reverse)
        (winning (v'.state.moveTo s'.pos) found'.reverse) := by
      rw [hback, hback']
      exact deciding_winning ht (List.rel_reverse hfound)
    cases hend with
    | lost _ =>
      refine .logged ?_ hstop
      simp only [Event.shifted, hs.pos_eq, hfound.length_eq]
    | @won next next' value value' hnext hvalue =>
      simp only
      by_cases hlt : s.pos < next.pos
      · have hlt' := (hs.pos_lt_iff hnext).1 hlt
        rw [if_pos hlt, if_pos hlt']
        refine ih next value hlt hnext (hasks.of_asks ?_ ?_ ?_) (.cons hvalue hfound)
        · intro hcomplete
          exact hon.more.trans (hmore hcomplete)
        · rintro n ⟨u, es, hattempts, hn⟩
          exact ⟨u, es, .next hcomes hlt hattempts, hn⟩
        · rintro n ⟨u, es, hattempts, hn⟩
          exact ⟨u, es, .next hcomes' hlt' hattempts, hn⟩
      · rw [if_neg hlt, if_neg (fun hlt' => hlt ((hs.pos_lt_iff hnext).2 hlt'))]
        refine .logged ?_ hstop
        simp only [Event.shifted, hs.pos_eq, hfound.length_eq]

/-! ## All parsers -/

theorem deciding_accepting {refusal : E → Option String} {refusal' : E' → Option String}
    (hrefusal : ∀ e e', pairing.elements e e' → refusal e = refusal' e')
    (hs : pairing.Parallel s cs s' cs') {before after : List E} {before' after' : List E'}
    (h : Chunk.SplitsAt s.buffer s.pos.offset before after)
    (h' : Chunk.SplitsAt s'.buffer s'.pos.offset before' after')
    (hlike : List.Forall₂ pairing.elements after after') (hone : 1 ≤ after.length) :
    pairing.Deciding pairing.elements cs cs'
      (Parser.accepting refusal s (Chunk.ofList (after.take 1)))
      (Parser.accepting refusal' s' (Chunk.ofList (after'.take 1))) := by
  have hnext := hs.advance h h' hlike 1
  cases hlike with
  | nil => cases hone
  | @cons e e' es es' he hes =>
    have hhead : Chunk.head (Chunk.ofList ((e :: es).take 1) : T) = .ok e :=
      LawfulChunk.head_of_cons (LawfulChunk.toList_ofList _)
    have hhead' : Chunk.head (Chunk.ofList ((e' :: es').take 1) : T') = .ok e' :=
      LawfulChunk.head_of_cons (LawfulChunk.toList_ofList _)
    unfold Parser.accepting
    rw [hhead, hhead', Outcome.require_ok, Outcome.require_ok, ← hrefusal e e' he]
    split
    · exact deciding_winning hnext he
    · exact deciding_losing hs _

/-- Parsers that correspond come to their verdicts together, from parallel states, if what they ask
for on the way is granted. -/
theorem deciding_verdict {rel : A → A' → Prop} {parser : Parser T E A} {parser' : Parser T' E' A'}
    (h : pairing.Corresponds rel parser parser') (closed : parser.Closed)
    (closed' : parser'.Closed) (hs : pairing.Parallel s cs s' cs')
    (hasks : pairing.Granted s (parser.Requests s cs) (parser'.Requests s' cs')) :
    pairing.Deciding rel cs cs' (parser.verdict s) (parser'.verdict s') := by
  induction h generalizing s cs s' cs' with
  | succeed hvalue => exact deciding_winning hs hvalue
  | fail reason => exact deciding_losing hs _
  | accept hrefusal =>
    exact lockstep_ensuring hs (.inr (.inr (by decide))) (fun ht => deciding_losing ht _)
      fun ht h h' hlike hone => deciding_accepting hrefusal ht h h' hlike hone
  | demandInput =>
    simp only [Parser.verdict, Parser.run]
    rw [← hs.more]
    cases hmore : s.more with
    | complete => exact deciding_losing hs _
    | incomplete =>
      rw [if_neg (by decide), if_neg (by decide)]
      refine lockstep_prompt hs hmore (fun ht => deciding_losing ht _) ?_
      intro ds ds' c c' _ _ hgrown
      exact deciding_winning hgrown rfl
  | wantInput =>
    obtain ⟨before, after, before', after', h, h', hlike⟩ := hs.rest
    rw [Parser.verdict_wantInput hs.sound h, Parser.verdict_wantInput hs.sound' h']
    exact lockstep_looking hs hlike (fun ht => deciding_winning ht rfl)
      fun ht => deciding_winning ht rfl
  | ensure n =>
    exact lockstep_ensuring hs (hasks.imp_right fun hall => hall n rfl rfl)
      (fun ht => deciding_losing ht _)
      fun ht _ _ hlike _ => deciding_winning ht (chunks_ofList (List.forall₂_take _ hlike))
  | take n =>
    exact lockstep_ensuring hs (hasks.imp_right fun hall => hall n rfl rfl)
      (fun ht => deciding_losing ht _)
      fun ht h h' hlike _ =>
        deciding_winning (ht.advance h h' hlike _) (chunks_ofList (List.forall₂_take _ hlike))
  | endOfInput =>
    obtain ⟨before, after, before', after', h, h', hlike⟩ := hs.rest
    rw [Parser.verdict_endOfInput hs.sound h, Parser.verdict_endOfInput hs.sound' h']
    exact lockstep_looking hs hlike (fun ht => deciding_losing ht _)
      fun ht => deciding_winning ht rfl
  | @orElse A A' rel first second first' second' _ _ ihFirst ihSecond =>
    rw [Parser.verdict_orElse closed, Parser.verdict_orElse closed']
    have hfirst : pairing.Granted s (first.Requests s cs) (first'.Requests s' cs') :=
      hasks.of_asks id (fun _ => .inl) fun _ => .inl
    refine (ihFirst closed.1 closed'.1 hs hfirst).bind hs
      (Parser.tracks_verdict first closed.1 hs.sound)
      (Parser.tracks_verdict first' closed'.1 hs.sound') ?_
    intro t t' ds ds' v v' ht hpos hpos' hmore hon hon' hcomes hcomes' hend
    have hback : v.state.moveTo s.pos = t := hpos ▸ hon.moveTo
    have hback' : v'.state.moveTo s'.pos = t' := hpos' ▸ hon'.moveTo
    cases hend with
    | won hnext hvalue => exact deciding_winning hnext hvalue
    | @lost next next' failure hnext =>
      rw [state_lost] at hback hback'
      refine .logged ?_ ?_
      · simp only [Event.shifted, hs.pos_eq, hnext.pos_eq]
      · rw [hback, hback']
        refine ihSecond closed.2 closed'.2 ht (hasks.of_asks hmore ?_ ?_)
        · intro n hn
          exact .inr ⟨next, failure, ds, hcomes, hback.symm ▸ hn⟩
        · intro n hn
          exact .inr ⟨next', failure, ds', hcomes', hback'.symm ▸ hn⟩
  | @andThen A A' B B' rel rel' first first' next next' _ _ ihFirst ihNext =>
    rw [Parser.verdict_andThen closed, Parser.verdict_andThen closed']
    have hfirst : pairing.Granted s (first.Requests s cs) (first'.Requests s' cs') :=
      hasks.of_asks id (fun _ => .inl) fun _ => .inl
    refine (ihFirst closed.1 closed'.1 hs hfirst).bind hs
      (Parser.tracks_verdict first closed.1 hs.sound)
      (Parser.tracks_verdict first' closed'.1 hs.sound') ?_
    intro t t' ds ds' v v' _ _ _ hmore hon _ hcomes hcomes' hend
    cases hend with
    | lost hnext => exact deciding_losing hnext _
    | @won mid mid' value value' hnext hvalue =>
      refine ihNext _ _ hvalue (closed.2 _) (closed'.2 _) hnext (hasks.of_asks ?_ ?_ ?_)
      · intro hcomplete
        exact hon.more.trans (hmore hcomplete)
      · intro n hn
        exact .inr ⟨mid, value, ds, hcomes, hn⟩
      · intro n hn
        exact .inr ⟨mid', value', ds', hcomes', hn⟩
  | @map A A' B B' rel rel' f f' parser parser' hf _ ih =>
    rw [Parser.verdict_map f parser closed, Parser.verdict_map f' parser' closed']
    refine (ih closed closed' hs hasks).bind hs (Parser.tracks_verdict parser closed hs.sound)
      (Parser.tracks_verdict parser' closed' hs.sound') ?_
    intro t t' ds ds' v v' _ _ _ _ _ _ _ _ hend
    cases hend with
    | lost hnext => exact deciding_losing hnext _
    | won hnext hvalue => exact deciding_winning hnext (hf _ _ hvalue)
  | @manyAfter A A' rel found found' parser parser' hfound _ ih =>
    rw [Parser.verdict_manyAfter, Parser.verdict_manyAfter]
    exact deciding_repeating (fun ht hgranted => ih closed closed' ht hgranted)
      (fun t ht => Parser.tracks_verdict parser closed ht)
      (fun t ht => Parser.tracks_verdict parser' closed' ht) hs hasks (List.rel_reverse hfound)
  | @label A A' rel name parser parser' _ ih =>
    rw [Parser.verdict_label name parser closed, Parser.verdict_label name parser' closed']
    refine (ih closed closed' hs hasks).bind hs (Parser.tracks_verdict parser closed hs.sound)
      (Parser.tracks_verdict parser' closed' hs.sound') ?_
    intro t t' ds ds' v v' _ _ _ _ _ _ _ _ hend
    cases hend with
    | lost hnext => exact deciding_losing hnext _
    | won hnext hvalue => exact deciding_winning hnext hvalue
  | weaken hrel _ ih =>
    exact (ih closed closed' hs hasks).mono fun _ _ _ _ _ _ hend => hend.mono hrel

/-- Parsers that correspond, run to their ends from parallel states, finish together. -/
theorem finishing_runFrom {rel : A → A' → Prop} {parser : Parser T E A}
    {parser' : Parser T' E' A'} (h : pairing.Corresponds rel parser parser')
    (closed : parser.Closed) (closed' : parser'.Closed) (hs : pairing.Parallel s cs s' cs')
    (hasks : pairing.Granted s (parser.Requests s cs) (parser'.Requests s' cs')) :
    pairing.Finishing rel cs cs' (parser.runFrom s) (parser'.runFrom s') := by
  unfold Parser.runFrom
  rw [Parser.run_eq_bind_verdict parser closed, Parser.run_eq_bind_verdict parser' closed']
  refine (deciding_verdict h closed closed' hs hasks).bind hs
    (Parser.tracks_verdict parser closed hs.sound)
    (Parser.tracks_verdict parser' closed' hs.sound') ?_
  intro t t' ds ds' v v' _ _ _ _ _ _ _ _ hend
  cases hend with
  | @lost next next' failure hnext =>
    obtain ⟨before, after, before', after', h, h', hlike⟩ := hnext.rest
    rw [Parser.resolve_stop (.lost next failure) (LawfulChunk.drop_eq h),
      Parser.resolve_stop (.lost next' failure) (LawfulChunk.drop_eq h')]
    exact .failed (chunks_ofList hlike)
  | @won next next' value value' hnext hvalue =>
    obtain ⟨before, after, before', after', h, h', hlike⟩ := hnext.rest
    rw [Parser.resolve_stop (.won next value) (LawfulChunk.drop_eq h),
      Parser.resolve_stop (.won next' value') (LawfulChunk.drop_eq h')]
    exact .succeeded ⟨chunks_ofList hlike, hvalue⟩

end Pairing

end Piecemeal

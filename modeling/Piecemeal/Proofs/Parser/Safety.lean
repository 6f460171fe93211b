import Piecemeal.Proofs.Chunk.Checked
import Piecemeal.Proofs.Parser.Course

/-!
# Runs ask only what they may

`Parser.runChecked` is the run of a parser over chunks that check every request. Whatever is asked
of it, it does what the plain run does until it is broken off (`follows_run`), for a checked
operation gives the plain answer or none. And it is never broken off: checked chunks are lawful, and
runs over lawful chunks are not. So the two runs are the same, and every request that the plain run
makes meets its precondition.
-/

namespace Piecemeal

variable {T E A B R : Type}

/-! ## Runs that may be broken off earlier -/

namespace Outcome

/-- The first run does what the second one does, until it is broken off. -/
inductive Follows : Outcome T R → Outcome T R → Prop where
  | faulted (fault : Fault) (o : Outcome T R) : Follows (.faulted fault) o
  | failed (leftover : T) (failure : Failure) :
      Follows (.failed leftover failure) (.failed leftover failure)
  | succeeded (leftover : T) (value : R) :
      Follows (.succeeded leftover value) (.succeeded leftover value)
  | suspended {resume resume' : T → Outcome T R} :
      (∀ c, Follows (resume c) (resume' c)) → Follows (.suspended resume) (.suspended resume')
  | logged {event : Event} {rest rest' : Unit → Outcome T R} :
      Follows (rest ()) (rest' ()) → Follows (.logged event rest) (.logged event rest')

theorem Follows.refl (o : Outcome T R) : o.Follows o := by
  induction o with
  | failed => exact .failed _ _
  | succeeded => exact .succeeded _ _
  | suspended _ ih => exact .suspended ih
  | logged _ _ ih => exact .logged (ih ())
  | faulted => exact .faulted _ _

theorem Follows.bind {o o' : Outcome T A} {next next' : A → Outcome T B} (h : o.Follows o')
    (hnext : ∀ a, (next a).Follows (next' a)) : (o.bind next).Follows (o'.bind next') := by
  induction h with
  | faulted => exact .faulted _ _
  | failed => exact .failed _ _
  | succeeded _ value => exact hnext value
  | suspended _ ih => exact .suspended ih
  | logged _ ih => exact .logged ih

theorem follows_require {answer answer' : Except Fault A} {next next' : A → Outcome T R}
    (h : ∀ a, answer = .ok a → answer' = .ok a) (hnext : ∀ a, (next a).Follows (next' a)) :
    (require answer next).Follows (require answer' next') := by
  cases answer with
  | error fault => exact .faulted fault _
  | ok a =>
    rw [h a rfl]
    exact hnext a

theorem Follows.feedAll [Chunk T E] {o o' : Outcome T R} (h : o.Follows o') (cs : List T) :
    (o.feedAll cs).Follows (o'.feedAll cs) := by
  induction h generalizing cs with
  | faulted fault o =>
    rw [feedAll_faulted]
    exact .faulted fault _
  | failed => exact .refl _
  | succeeded => exact .refl _
  | suspended hresume ih =>
    cases cs with
    | nil => exact .suspended hresume
    | cons c cs => exact ih c cs
  | logged _ ih =>
    rw [feedAll_logged, feedAll_logged]
    exact .logged (ih cs)

theorem Follows.status {o o' : Outcome T R} (h : o.Follows o')
    (hfault : o.status.isFaulted = false) : o.status.Matches o'.status := by
  induction h with
  | faulted => cases hfault
  | failed => exact ⟨rfl, rfl⟩
  | succeeded => exact ⟨rfl, rfl⟩
  | suspended => trivial
  | logged _ ih => exact ih hfault

end Outcome

open Outcome

variable [Chunk T E]

/-! ## Feeding over checked chunks -/

theorem Chunk.totalWidth_checked (cs : List T) :
    @totalWidth T E (checked T) cs = totalWidth cs := by
  induction cs with
  | nil => rfl
  | cons c cs ih => exact congrArg (width c + ·) ih

theorem State.sound_checked {s : State T} : @Sound T E (Chunk.checked T) s ↔ s.Sound :=
  ⟨fun h => ⟨@Sound.storable T E (Chunk.checked T) s h, @Sound.boundary T E (Chunk.checked T) s h⟩,
    fun h => @Sound.mk T E (Chunk.checked T) s h.storable h.boundary⟩

theorem Outcome.feed_checked (o : Outcome T R) (c : T) :
    @feed T E R (Chunk.checked T) o c = o.feed c := by
  induction o with
  | logged event rest ih => exact congrArg (logged event) (funext ih)
  | _ => rfl

theorem Outcome.feedAll_checked (o : Outcome T R) (cs : List T) :
    @feedAll T E R (Chunk.checked T) o cs = o.feedAll cs := by
  induction cs generalizing o with
  | nil => rfl
  | cons c cs ih =>
    show @feedAll T E R (Chunk.checked T) (@feed T E R (Chunk.checked T) o c) cs = _
    rw [feed_checked, ih]
    rfl

/-! ## Waiting and repeating over checked chunks -/

theorem follows_prompt {s : State T} {ended ended' : State T → Outcome T R}
    {resumed : (next : State T) → @State.Wider T E (Chunk.checked T) s next → Outcome T R}
    {resumed' : (next : State T) → s.Wider next → Outcome T R}
    (hended : ∀ t, (ended t).Follows (ended' t))
    (hresumed : ∀ t h, (resumed t h).Follows (resumed' t h)) :
    (@prompt T E R (Chunk.checked T) s ended resumed).Follows (prompt s ended' resumed') := by
  refine .logged (.suspended fun c => ?_)
  split
  · next h =>
    rw [dif_pos (show Chunk.isEmpty c = true from h)]
    exact .logged (hended _)
  · next h =>
    rw [dif_neg (show ¬ Chunk.isEmpty c = true from h)]
    exact .logged (hresumed _ _)

theorem ensuring_of_ok {n : Nat} {s : State T} {enough : Bool}
    (hfits : Size.fits (s.pos.offset + n) = true)
    (h : Chunk.lengthAtLeast s.buffer s.pos.offset n = .ok enough) (lose : Lose T R)
    (win : Win T T R) :
    ensuring n s lose win =
      if enough then .require (Chunk.substring s.buffer s.pos.offset n) (win s)
      else if s.more.isComplete then lose s .notEnoughInput
      else prompt s (fun s => lose s .notEnoughInput) fun next _ => ensuring n next lose win := by
  rw [ensuring, if_pos hfits]
  split
  · next htrue =>
    cases h.symm.trans htrue
    rfl
  · next hfalse =>
    cases h.symm.trans hfalse
    rfl
  · next hfault => cases h.symm.trans hfault

theorem follows_ensuring (n : Nat) (s : State T) {lose lose' : Lose T R} {win win' : Win T T R}
    (hlose : ∀ t f, (lose t f).Follows (lose' t f)) (hwin : ∀ t c, (win t c).Follows (win' t c)) :
    (@ensuring T E R (Chunk.checked T) n s lose win).Follows (ensuring n s lose' win') := by
  fun_induction @ensuring T E R (Chunk.checked T) n s lose win with
  | case1 s hfits hlong =>
    rw [ensuring_of_ok hfits (Chunk.answerIf_of_ok hlong).2, if_pos rfl]
    exact follows_require (fun taken h => (Chunk.substring_of_checked h).1) (hwin s)
  | case2 s hfits hshort hcomplete =>
    rw [ensuring_of_ok hfits (Chunk.answerIf_of_ok hshort).2, if_neg Bool.false_ne_true,
      if_pos hcomplete]
    exact hlose _ _
  | case3 s hfits hshort hmore ih =>
    rw [ensuring_of_ok hfits (Chunk.answerIf_of_ok hshort).2, if_neg Bool.false_ne_true,
      if_neg hmore]
    exact follows_prompt (fun _ => hlose _ _) ih
  | case4 s hfits fault hfault => exact .faulted fault _
  | case5 s hfits =>
    rw [ensuring, if_neg hfits]
    exact hlose _ _

theorem follows_looking {s : State T} {found found' ended ended' : State T → Outcome T R}
    (hfound : ∀ t, (found t).Follows (found' t)) (hended : ∀ t, (ended t).Follows (ended' t)) :
    (require (@Chunk.lengthAtLeast T E (Chunk.checked T) s.buffer s.pos.offset 1) fun available =>
      if available then found s else if s.more.isComplete then ended s
        else @prompt T E R (Chunk.checked T) s ended fun t _ => found t).Follows
      (require (Chunk.lengthAtLeast s.buffer s.pos.offset 1) fun available =>
        if available then found' s else if s.more.isComplete then ended' s
          else prompt s ended' fun t _ => found' t) := by
  refine follows_require (fun available h => (Chunk.answerIf_of_ok h).2) fun available => ?_
  split
  · exact hfound s
  · split
    · exact hended s
    · exact follows_prompt hended fun t _ => hfound t

theorem follows_repeating {attempt attempt' : State T → Outcome T (Verdict T A)}
    (hattempt : ∀ t, (attempt t).Follows (attempt' t)) (s : State T) (found : List A)
    {win win' : Win T (List A) R} (hwin : ∀ t values, (win t values).Follows (win' t values)) :
    (repeating attempt s found win).Follows (repeating attempt' s found win') := by
  fun_induction repeating attempt s found win with
  | case1 s found ih =>
    rw [repeating]
    refine (hattempt s).bind ?_
    intro verdict
    cases verdict with
    | lost next failure => exact .logged (hwin _ _)
    | won next value =>
      simp only
      split
      · next hlt => exact ih next value hlt
      · exact .logged (hwin _ _)

namespace Parser

/-- Runs a parser over chunks that check every request. -/
def runChecked (parser : Parser T E A) (s : State T) (lose : Lose T R) (win : Win T A R) :
    Outcome T R :=
  @run T E (Chunk.checked T) A parser R s lose win

def runFromChecked (parser : Parser T E A) (s : State T) : Outcome T A :=
  @runFrom T E (Chunk.checked T) A parser s

/-- A checked run does what the plain run does, until it asks what it may not. -/
theorem follows_run (parser : Parser T E A) (closed : parser.Closed) (s : State T)
    {lose lose' : Lose T R} {win win' : Win T A R} (hlose : ∀ t f, (lose t f).Follows (lose' t f))
    (hwin : ∀ t a, (win t a).Follows (win' t a)) :
    (parser.runChecked s lose win).Follows (parser.run s lose' win') := by
  unfold runChecked
  induction parser generalizing R s with
  | succeed => exact hwin _ _
  | fail => exact hlose _ _
  | accept refusal =>
    refine follows_ensuring 1 s hlose fun t window => ?_
    refine follows_require (fun found h => (Chunk.answerIf_of_ok h).2) fun found => ?_
    split
    · exact hwin _ _
    · exact hlose _ _
  | demandInput =>
    simp only [run]
    split
    · exact hlose _ _
    · exact follows_prompt (fun _ => hlose _ _) fun _ _ => hwin _ _
  | wantInput => exact follows_looking (fun _ => hwin _ _) fun _ => hwin _ _
  | ensure n => exact follows_ensuring n s hlose hwin
  | take n => exact follows_ensuring n s hlose fun _ _ => hwin _ _
  | endOfInput => exact follows_looking (fun _ => hlose _ _) fun _ => hwin _ _
  | orElse first second ihFirst ihSecond =>
    exact ihFirst closed.1 s (fun _ _ => .logged (ihSecond closed.2 _ hlose hwin)) hwin
  | andThen first next ihFirst ihNext =>
    exact ihFirst closed.1 s hlose fun _ a => ihNext a (closed.2 a) _ hlose hwin
  | map f parser ih => exact ih closed s hlose fun _ _ => hwin _ _
  | manyAfter found parser ih =>
    exact follows_repeating (fun t => ih closed t (fun _ _ => .refl _) fun _ _ => .refl _) s
      found.reverse hwin
  | label name parser ih => exact ih closed s (fun _ _ => hlose _ _) hwin
  | custom => exact closed.elim

theorem follows_runFrom (parser : Parser T E A) (closed : parser.Closed) (s : State T) :
    (parser.runFromChecked s).Follows (parser.runFrom s) := by
  refine follows_run parser closed s ?_ ?_
  · intro t failure
    exact follows_require (fun leftover h => (Chunk.answerIf_of_ok h).2) fun _ => .refl _
  · intro t value
    exact follows_require (fun leftover h => (Chunk.answerIf_of_ok h).2) fun _ => .refl _

/-! ## All requests are met -/

variable [LawfulChunk T E]

theorem isFaulted_runChecked (parser : Parser T E A) (closed : parser.Closed) {s : State T}
    (hs : s.Sound) {cs : List T}
    (hcs : Chunk.width s.buffer + Chunk.totalWidth cs < Size.storable) {lose : Lose T R}
    {win : Win T A R}
    (hgo : ∀ (v : Verdict T A) (ds : List T), v.state.Sound →
      Chunk.width v.state.buffer + Chunk.totalWidth ds < Size.storable →
      ((v.resolve lose win).feedAll ds).status.isFaulted = false) :
    ((parser.runChecked s lose win).feedAll cs).status.isFaulted = false := by
  rw [← Chunk.totalWidth_checked] at hcs
  have hrun := @isFaulted_run T E A R (Chunk.checked T) Chunk.lawfulChunk_checked s cs parser closed
    (State.sound_checked.2 hs) hcs lose win ?_
  · rw [feedAll_checked] at hrun
    exact hrun
  · intro v ds hv hds
    rw [Chunk.totalWidth_checked] at hds
    rw [feedAll_checked]
    exact hgo v ds (State.sound_checked.1 hv) hds

theorem isFaulted_runFromChecked (parser : Parser T E A) (closed : parser.Closed) {s : State T}
    (hs : s.Sound) {cs : List T}
    (hcs : Chunk.width s.buffer + Chunk.totalWidth cs < Size.storable) :
    ((parser.runFromChecked s).feedAll cs).status.isFaulted = false := by
  rw [← Chunk.totalWidth_checked] at hcs
  have hrun := @isFaulted_runFrom T E A (Chunk.checked T) Chunk.lawfulChunk_checked s cs parser
    closed (State.sound_checked.2 hs) hcs
  rw [feedAll_checked] at hrun
  exact hrun

/-- No run is broken off, and with every request checked it stands where it stands without. Ways to
go on of the user's own only have to keep from breaking off in the states that parsers hand on. An
answer that is given ends at an offset that is a size, so moving behind it is plain addition. -/
theorem run_meets_preconditions (parser : Parser T E A) (closed : parser.Closed) (s : State T)
    (hpos : Chunk.Boundary s.buffer s.pos.offset) (cs : List T)
    (hcs : Chunk.width s.buffer + Chunk.totalWidth cs < Size.storable) :
    ((parser.runFrom s).feedAll cs).status.isFaulted = false ∧
    (∀ more, ((parser.parseWith s.buffer more).feedAll cs).status.isFaulted = false) ∧
    ((parser.runFromChecked s).feedAll cs).status.Matches ((parser.runFrom s).feedAll cs).status ∧
    (∀ (R : Type) (lose : Lose T R) (win : Win T A R),
      (∀ (v : Verdict T A) (ds : List T), v.state.Sound →
        Chunk.width v.state.buffer + Chunk.totalWidth ds < Size.storable →
        ((v.resolve lose win).feedAll ds).status.isFaulted = false) →
      ((parser.runChecked s lose win).feedAll cs).status.Matches
        ((parser.run s lose win).feedAll cs).status) ∧
    (∀ (c taken : T) (pos : Pos) (n : Nat), Chunk.checkedSubstring c pos.offset n = .ok taken →
      (pos.advance (Chunk.width taken)).offset = pos.offset + Chunk.width taken) := by
  have hs : s.Sound := ⟨by omega, hpos⟩
  refine ⟨isFaulted_runFrom parser closed hs hcs, ?_, ?_, ?_, ?_⟩
  · intro more
    exact isFaulted_runFrom parser closed (.start more hs.storable) hcs
  · exact ((follows_runFrom parser closed s).feedAll cs).status
      (isFaulted_runFromChecked parser closed hs hcs)
  · intro R lose win hgo
    have hfollows := follows_run parser closed s (fun t f => .refl (lose t f))
      fun t a => .refl (win t a)
    exact (hfollows.feedAll cs).status (isFaulted_runChecked parser closed hs hcs hgo)
  · intro c taken pos n h
    exact Pos.offset_advance (Chunk.substring_of_checked h).2

theorem run_meets_preconditions_large_counts :
    (((orElse (take Size.max) (take 1) : Parser Text Char Text).runFromChecked
        ⟨Text.ofList ['é', 'a'], .ofOffset 2, .incomplete⟩).feedAll
        [Text.ofList [], Text.ofList ['ж']]).status.Matches
      (((orElse (take Size.max) (take 1) : Parser Text Char Text).runFrom
        ⟨Text.ofList ['é', 'a'], .ofOffset 2, .incomplete⟩).feedAll
        [Text.ofList [], Text.ofList ['ж']]).status ∧
    (((take (Size.max - 1) : Parser Bytes UInt8 Bytes).runFrom
        ⟨Segment.ofList [7, 8], .ofOffset 1, .incomplete⟩).feedAll
        [Segment.ofList [9], Segment.ofList []]).status.isFaulted = false := by
  constructor
  · exact (run_meets_preconditions (orElse (take Size.max) (take 1) : Parser Text Char Text)
      ⟨trivial, trivial⟩ ⟨Text.ofList ['é', 'a'], .ofOffset 2, .incomplete⟩
      (Text.boundary_iff.2 (Text.isBoundary_iff.1 (by decide)))
      [Text.ofList [], Text.ofList ['ж']] (by decide)).2.2.1
  · exact (run_meets_preconditions (take (Size.max - 1) : Parser Bytes UInt8 Bytes)
      (by trivial)
      ⟨Segment.ofList [7, 8], .ofOffset 1, .incomplete⟩ (Bytes.boundary_iff.2 (by decide))
      [Segment.ofList [9], Segment.ofList []] (by decide)).1

end Parser

end Piecemeal

import Piecemeal.Proofs.Outcome.Logging
import Piecemeal.Proofs.Parser.Ending

/-!
# Every parser logs by the protocol

The only place where a run suspends is a prompt, and a prompt logs both sides of its exchange. All
else that parsers log lies between exchanges, and an alternative goes back to where its choice
started: no further on than where the first side failed, since positions only move forward. So the
runs of closed parsers converse (`converses_verdict`), whatever repetitions and choices the prompt
is in.
-/

namespace Piecemeal

open Verdict

variable {T E A B R : Type} [Chunk T E]

namespace Outcome

theorem prompt_eq_reply (s : State T) (ended : State T → Outcome T R)
    (resumed : (next : State T) → s.Wider next → Outcome T R) :
    prompt s ended resumed =
      .logged (.suspending s.pos (Chunk.width s.buffer)) fun _ => .suspended fun c =>
        .logged (.reply s.pos c) fun _ =>
          if h : Chunk.isEmpty c = true then ended s.ended
          else resumed (s.grown c) (s.wider_grown (Bool.eq_false_iff.2 h)) := by
  refine congrArg (Outcome.logged _) (funext fun _ => ?_)
  refine congrArg Outcome.suspended (funext fun c => ?_)
  by_cases h : Chunk.isEmpty c = true
  · rw [dif_pos h, Event.reply, if_pos h, dif_pos h]
  · rw [dif_neg h, Event.reply, if_neg h, dif_neg h]

variable [LawfulChunk T E]

theorem converses_prompt {s : State T} {ended : State T → Outcome T R}
    {resumed : (next : State T) → s.Wider next → Outcome T R} (hmore : ¬ s.more.isComplete = true)
    (hended : ∀ t, (ended t).Converses t) (hresumed : ∀ t h, (resumed t h).Converses t) :
    (prompt s ended resumed).Converses s := by
  have hopen := More.eq_incomplete hmore
  rw [prompt_eq_reply]
  refine .waits hopen ?_
  intro c _
  split
  · next hempty =>
    rw [State.given_of_isEmpty hempty]
    exact hended s.ended
  · next hempty =>
    rw [State.given_of_not_isEmpty hopen (Bool.eq_false_iff.2 hempty)]
    exact hresumed (s.grown c) _

theorem converses_ensuring (n : Nat) (s : State T) {lose : Lose T R} {win : Win T T R}
    (hlose : ∀ t f, (lose t f).Converses t) (hwin : ∀ t window, (win t window).Converses t) :
    (ensuring n s lose win).Converses s := by
  fun_induction ensuring n s lose win with
  | case1 s hfits hlong => exact converses_require (hwin s)
  | case2 s hfits hshort hcomplete => exact hlose s _
  | case3 s hfits hshort hmore ih => exact converses_prompt hmore (fun t => hlose t _) ih
  | case4 => exact .faulted
  | case5 s hfits => exact hlose s _

theorem converses_looking {s : State T} {found ended : State T → Outcome T R}
    (hfound : ∀ t, (found t).Converses t) (hended : ∀ t, (ended t).Converses t) :
    (require (Chunk.lengthAtLeast s.buffer s.pos.offset 1) fun available =>
      if available then found s else if s.more.isComplete then ended s
        else prompt s ended fun t _ => found t).Converses s := by
  refine converses_require fun available => ?_
  split
  · exact hfound s
  · split
    · exact hended s
    · next hmore => exact converses_prompt hmore hended fun t _ => hfound t

/-- To go on from a verdict, it is enough to converse from the state of the verdict, which is
further on than the start. -/
theorem converses_bind {o : Outcome T (Verdict T A)} {next : Verdict T A → Outcome T R}
    {s : State T} (hs : s.Sound) (h : o.Converses s) (ho : EndsOnward o s)
    (hnext : ∀ v, v.state.Sound → (v.state.moveTo s.pos).Sound → s.pos ≤ v.state.pos →
      (next v).Converses v.state) : (o.bind next).Converses s := by
  refine h.bind (ho.keepStart hs) ?_
  rintro t v ⟨honward, ht, hpos⟩
  have hback : v.state.moveTo s.pos = t := hpos ▸ honward.moveTo
  refine (hnext v (honward.sound ht) (hback.symm ▸ ht) (hpos ▸ honward.pos)).of_same ?_ ?_
  · exact honward.buffer.symm
  · exact honward.more.symm

theorem converses_repeating {attempt : State T → Outcome T (Verdict T A)}
    (hattempt : ∀ s, s.Sound → (attempt s).Converses s)
    (honward : ∀ s, s.Sound → EndsOnward (attempt s) s) {s : State T} (hs : s.Sound)
    (found : List A) : (repeating attempt s found winning).Converses s := by
  fun_induction repeating attempt s found winning with
  | case1 s found ih =>
    refine converses_bind hs (hattempt s hs) (honward s hs) ?_
    intro v hv _ _
    cases v with
    | lost next f => exact .logged trivial .succeeded
    | won next value =>
      simp only
      split
      · next hlt => exact ih next value hlt hv
      · exact .logged trivial .succeeded

end Outcome

open Outcome

namespace Parser

variable [LawfulChunk T E]

theorem converses_verdict (parser : Parser T E A) (closed : parser.Closed) {s : State T}
    (hs : s.Sound) : (parser.verdict s).Converses s := by
  induction parser generalizing s with
  | succeed => exact .succeeded
  | fail => exact .succeeded
  | accept refusal =>
    refine converses_ensuring 1 s (fun _ _ => .succeeded) fun t window => ?_
    refine converses_require fun found => ?_
    split
    · exact .succeeded
    · exact .succeeded
  | demandInput =>
    simp only [verdict, run]
    split
    · exact .succeeded
    · next hmore => exact converses_prompt hmore (fun _ => .succeeded) fun _ _ => .succeeded
  | wantInput => exact converses_looking (fun _ => .succeeded) fun _ => .succeeded
  | ensure n => exact converses_ensuring n s (fun _ _ => .succeeded) fun _ _ => .succeeded
  | take n => exact converses_ensuring n s (fun _ _ => .succeeded) fun _ _ => .succeeded
  | endOfInput => exact converses_looking (fun _ => .succeeded) fun _ => .succeeded
  | orElse first second ihFirst ihSecond =>
    rw [verdict_orElse closed]
    refine converses_bind hs (ihFirst closed.1 hs) (tracks_verdict first closed.1 hs) ?_
    intro v hv hback hpos
    cases v with
    | won next value => exact .succeeded
    | lost failed f =>
      refine .logged ⟨hpos, hv.boundary.le_width⟩ ?_
      exact (ihSecond closed.2 hback).of_same rfl rfl
  | andThen first next ihFirst ihNext =>
    rw [verdict_andThen closed]
    refine converses_bind hs (ihFirst closed.1 hs) (tracks_verdict first closed.1 hs) ?_
    intro v hv _ _
    cases v with
    | won mid value => exact ihNext value (closed.2 value) hv
    | lost mid f => exact .succeeded
  | map f parser ih =>
    rw [verdict_map f parser closed]
    refine converses_bind hs (ih closed hs) (tracks_verdict parser closed hs) ?_
    rintro (⟨next, failure⟩ | ⟨next, value⟩) _ _ _ <;> exact .succeeded
  | manyAfter found parser ih =>
    rw [verdict_manyAfter]
    exact converses_repeating (fun s hs => ih closed hs)
      (fun s hs => tracks_verdict parser closed hs) hs found.reverse
  | label name parser ih =>
    rw [verdict_label name parser closed]
    refine converses_bind hs (ih closed hs) (tracks_verdict parser closed hs) ?_
    rintro (⟨next, failure⟩ | ⟨next, value⟩) _ _ _ <;> exact .succeeded
  | custom => exact closed.elim

theorem converses_runFrom (parser : Parser T E A) (closed : parser.Closed) {s : State T}
    (hs : s.Sound) : (parser.runFrom s).Converses s := by
  unfold runFrom
  rw [run_eq_bind_verdict parser closed]
  refine converses_bind hs (converses_verdict parser closed hs) (tracks_verdict parser closed hs) ?_
  intro v _ _ _
  cases v with
  | lost => exact converses_require fun _ => .failed
  | won => exact converses_require fun _ => .succeeded

/-- A run suspends at the end of a step only, and says so with all the bytes that it holds; each
increment that resumes it is replied to once, from the position where it waited; a finished run logs
nothing; after the end of the input there are no more exchanges; and an alternative goes back, from
a place within the input. -/
theorem parseWith_logs_exchanges (parser : Parser T E A) (closed : parser.Closed) (input : T)
    (more : More) (hinput : Chunk.width input < Size.storable) :
    (parser.parseWith input more).LogProtocol (Chunk.width input) :=
  (converses_runFrom parser closed (.start more hinput)).logProtocol

theorem parseWith_logs_exchanges_waiting :
    (∃ before pos step,
      ((orElse (take 3) (take 1) : Parser Text Char Text).parse (Text.ofList ['é'])).events
        = before ++ [.suspending pos 2] ∧
      (((orElse (take 3) (take 1) : Parser Text Char Text).parse
          (Text.ofList ['é'])).feedAll [Text.ofList []]).events
        = ((orElse (take 3) (take 1) : Parser Text Char Text).parse (Text.ofList ['é'])).events
          ++ .inputEnded pos :: step) ∧
    (((many (take 2) : Parser Bytes UInt8 (List Bytes)).parse (Segment.ofList [7])).feedAll
      [Segment.ofList [], Segment.ofList [8]]).events
        = (((many (take 2) : Parser Bytes UInt8 (List Bytes)).parse (Segment.ofList [7])).feedAll
          [Segment.ofList []]).events := by
  constructor
  · obtain ⟨before, pos, step, hwaits, hreplies, -⟩ :=
      (parseWith_logs_exchanges (orElse (take 3) (take 1) : Parser Text Char Text)
        ⟨trivial, trivial⟩ (Text.ofList ['é']) .incomplete (by decide)).resumed [] (Text.ofList [])
        (by decide) (by decide +kernel)
    exact ⟨before, pos, step, hwaits, hreplies⟩
  · exact (parseWith_logs_exchanges (many (take 2) : Parser Bytes UInt8 (List Bytes)) trivial
      (Segment.ofList [7]) .incomplete (by decide)).finished [Segment.ofList []]
      (Segment.ofList [8]) (by decide +kernel)

end Parser

end Piecemeal

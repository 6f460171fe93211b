import Piecemeal.Proofs.Parser.Course
import Piecemeal.Proofs.Parser.Splitting

/-!
# Backtracking over increments

A choice whose first parser fails starts its second parser late, on all that came while the first
one was waiting. A second parser that demands nothing makes up for it: it stands where it would
stand if it had been given the increments itself (`feedAll_runFrom_alike`). And a parser that is
started over comes to the verdict that it came to before, however much was read behind it in the
meantime (`Incremental.value?_givenAll`), so a common first parser may be taken out of both sides of
a choice.
-/

namespace Piecemeal

open Verdict Outcome

variable {T E A B R : Type} [Chunk T E]

namespace Outcome

theorem Alike.symm {o o' : Outcome T R} {room : Nat} (h : o.Alike room o') : o'.Alike room o :=
  fun cs hcs => (h cs hcs).symm

theorem Alike.trans {o o' o'' : Outcome T R} {room : Nat} (h : o.Alike room o')
    (h' : o'.Alike room o'') : o.Alike room o'' :=
  fun cs hcs => (h cs hcs).trans (h' cs hcs)

theorem Alike.feedAll {o o' : Outcome T R} {room : Nat} (h : o.Alike room o') (cs : List T) :
    (o.feedAll cs).Alike (room - Chunk.totalWidth cs) (o'.feedAll cs) := by
  intro ds hds
  rw [← feedAll_append, ← feedAll_append]
  refine h (cs ++ ds) ?_
  rw [Chunk.totalWidth_append]
  omega

end Outcome

/-- The state that a failure hands over, taken back to where its parser began, is the state that the
run was given. -/
theorem State.moveTo_givenAll {s next : State T} {before : List T}
    (h : (s.givenAll before).Onward next) : next.moveTo s.pos = s.givenAll before := by
  rw [← givenAll_pos s before]
  exact h.moveTo

/-! ## The two ways of a choice -/

namespace Parser

variable {s : State T} {first second : Parser T E A} {events : List Event} {before : List T}
  {buffer : T}

/-- What a choice does when its first parser fails: it starts the second one where it started the
first, on the input that there is by then. -/
def restart (second : Parser T E A) (s : State T) : Lose T A :=
  fun failed _ => .logged (.backtracking failed.pos s.pos) fun _ =>
    second.runFrom (failed.moveTo s.pos)

theorem runFrom_orElse (first second : Parser T E A) (s : State T) :
    (first.orElse second).runFrom s = first.run s (second.restart s) stopSucceeded :=
  rfl

/-- A run that backtracks goes on as the alternative does that is started on all input so far. -/
theorem status_restart {next : State T} (honward : (s.givenAll before).Onward next)
    (failure : Failure) (behind : List T) :
    ((second.restart s next failure).feedAll behind).status
      = ((second.runFrom (s.givenAll before)).feedAll behind).status := by
  unfold restart
  rw [feedAll_logged, State.moveTo_givenAll honward]
  rfl

theorem feedAll_orElse_won (closed : first.Closed) {next : State T} {value : A}
    (hlead : (first.verdict s).Leads events before (.succeeded buffer (.won next value)))
    (behind : List T) :
    ((first.orElse second).runFrom s).feedAll (before ++ behind)
      = (first.runFrom s).feedAll (before ++ behind) := by
  rw [runFrom_orElse, runFrom, feedAll_run_decided closed hlead, feedAll_run_decided closed hlead]
  rfl

theorem status_orElse_lost (closed : first.Closed) {next : State T} {failure : Failure}
    (hlead : (first.verdict s).Leads events before (.succeeded buffer (.lost next failure)))
    (honward : (s.givenAll before).Onward next) (behind : List T) :
    (((first.orElse second).runFrom s).feedAll (before ++ behind)).status
      = ((second.runFrom (s.givenAll before)).feedAll behind).status := by
  rw [runFrom_orElse, status_run_decided closed hlead]
  exact status_restart honward failure behind

theorem status_feedAll_run {parser : Parser T E A} (closed : parser.Closed) {v : Verdict T A}
    (hv : (parser.verdict s).value? = some v) (lose : Lose T R) (win : Win T A R) (cs : List T) :
    ((parser.run s lose win).feedAll cs).status = ((v.resolve lose win).feedAll cs).status := by
  rw [status_feedAll, run_eq_bind_verdict parser closed, status_bind_of_value? hv,
    ← status_feedAll]

/-- Started over after it has failed, a parser fails in the same way, and so does a sequence that
begins with it. -/
theorem status_restart_lost {parser : Parser T E A} (closed : parser.Closed)
    {g : A → Parser T E B} {next : State T} {failure : Failure}
    (hv : (parser.verdict (s.givenAll before)).value? = some (lost next failure))
    (honward : (s.givenAll before).Onward next) (behind : List T) :
    (((andThen parser g).restart s next failure).feedAll behind).status
      = ((stopFailed next failure : Outcome T B).feedAll behind).status := by
  rw [status_restart honward, runFrom, run, status_feedAll_run closed hv]
  rfl

end Parser

variable [LawfulChunk T E]

/-! ## Starting late and starting over -/

/-- A verdict stands on more input, however many increments it comes in. -/
theorem Incremental.value?_givenAll {start : State T → Outcome T (Verdict T A)}
    (h : Incremental start) {s : State T} (hs : s.Sound) {cs : List T} (htakes : s.Takes cs)
    (hcs : Chunk.width s.buffer + Chunk.totalWidth cs < Size.storable) {v : Verdict T A}
    (hv : (start s).value? = some v) : (start (s.givenAll cs)).value? = some (v.givenAll cs) := by
  induction cs generalizing s v with
  | nil => exact hv
  | cons c cs ih =>
    obtain ⟨hmore, htakes⟩ := htakes
    rw [Chunk.totalWidth_cons] at hcs
    have hc : Chunk.width s.buffer + Chunk.width c < Size.storable := by omega
    refine ih (hs.given hc) htakes ?_ ((h s hs).stable v c hmore hc hv)
    rw [State.given_buffer, Chunk.width_append]
    omega

namespace Parser

variable {s : State T}

/-- A parser that demands nothing and is started on all input so far comes to the verdict that it
came to on the way. -/
theorem value?_of_leads (parser : Parser T E A) (free : parser.DemandFree) (hs : s.Sound)
    {events : List Event} {cs : List T} {buffer : T} {v : Verdict T A}
    (hcs : Chunk.width s.buffer + Chunk.totalWidth cs < Size.storable)
    (hlead : (parser.verdict s).Leads events cs (.succeeded buffer v)) :
    (parser.verdict (s.givenAll cs)).value? = some v :=
  ((incremental_verdict parser free s hs).replays.leads hlead hcs).2

/-- Increments that come while more may come might as well have been there from the start. -/
theorem feedAll_runFrom_alike (parser : Parser T E A) (free : parser.DemandFree) (hs : s.Sound)
    {cs : List T} (htakes : s.Takes cs)
    (hcs : Chunk.width s.buffer + Chunk.totalWidth cs < Size.storable) :
    ((parser.runFrom s).feedAll cs).Alike
      (Size.storable - (Chunk.width s.buffer + Chunk.totalWidth cs))
      (parser.runFrom (s.givenAll cs)) := by
  induction cs generalizing s with
  | nil =>
    intro ds hds
    have hfault : ((parser.runFrom s).feedAll ds).status.isFaulted = false :=
      isFaulted_runFrom parser free.closed hs (by omega)
    exact Status.matches_of_eq rfl hfault
  | cons c cs ih =>
    obtain ⟨hmore, htakes⟩ := htakes
    rw [Chunk.totalWidth_cons, ← Nat.add_assoc] at hcs ⊢
    have hc : Chunk.width s.buffer + Chunk.width c < Size.storable := by omega
    have hwidth : Chunk.width (s.given c).buffer = Chunk.width s.buffer + Chunk.width c := by
      rw [State.given_buffer, Chunk.width_append]
    have hfirst := (feed_runFrom_alike parser free hs hmore hc).feedAll cs
    have hrest := ih (hs.given hc) htakes (by omega)
    rw [hwidth] at hfirst hrest
    rw [Nat.sub_sub] at hfirst
    exact hfirst.trans hrest

/-- What the second parser missed while the first one waited makes no difference to it. -/
theorem orElse_lost_alike {first second : Parser T E A} (closed : first.Closed)
    (free : second.DemandFree) (hs : s.Sound) {events : List Event} {before behind : List T}
    {buffer : T} {next : State T} {failure : Failure}
    (hcs : Chunk.width s.buffer + Chunk.totalWidth (before ++ behind) < Size.storable)
    (hlead : (first.verdict s).Leads events before (.succeeded buffer (.lost next failure))) :
    (((first.orElse second).runFrom s).feedAll (before ++ behind)).Alike
      (Size.storable - (Chunk.width s.buffer + Chunk.totalWidth (before ++ behind)))
      ((second.runFrom s).feedAll (before ++ behind)) := by
  rw [Chunk.totalWidth_append, ← Nat.add_assoc] at hcs ⊢
  have hbefore : Chunk.width s.buffer + Chunk.totalWidth before < Size.storable := by omega
  have htakes := takes_of_leads first closed hs hbefore hlead
  have honward := onward_of_leads first closed hs hbefore hlead
  have hmissed := (feedAll_runFrom_alike second free hs htakes hbefore).feedAll behind
  rw [Nat.sub_sub] at hmissed
  refine hmissed.symm.of_status (status_orElse_lost closed hlead honward behind) ?_
  rw [feedAll_append]

/-- After the same increments a choice stands where its first parser stands, if that one has
succeeded; it cannot be told from its second parser, given the increments from the start, if the
first one has failed; and it waits if the first one waits. -/
theorem parse_orElse_backtracks (first second : Parser T E A) (closed : first.Closed)
    (free : second.DemandFree) (input : T) (cs : List T)
    (hcs : Chunk.width input + Chunk.totalWidth cs < Size.storable) :
    (∀ leftover value, ((first.parse input).feedAll cs).status = .succeeded leftover value →
      ((first.orElse second).parse input).feedAll cs = (first.parse input).feedAll cs) ∧
    (∀ leftover failure, ((first.parse input).feedAll cs).status = .failed leftover failure →
      (((first.orElse second).parse input).feedAll cs).Alike
        (Size.storable - (Chunk.width input + Chunk.totalWidth cs))
        ((second.parse input).feedAll cs)) ∧
    (((first.parse input).feedAll cs).status.isSuspended = true →
      (((first.orElse second).parse input).feedAll cs).status.isSuspended = true) := by
  have hs : (State.start input .incomplete).Sound := .start _ (by omega)
  cases course first closed hs hcs with
  | @decided events before buffer v behind hlead =>
    have hbefore : Chunk.width input + Chunk.totalWidth before < Size.storable := by
      rw [Chunk.totalWidth_append] at hcs
      omega
    have honward := onward_of_leads first closed hs hbefore hlead
    obtain ⟨leftover, hfirst⟩ := status_runFrom_decided closed hlead honward.boundary behind
    change ((first.parse input).feedAll (before ++ behind)).status = _ at hfirst
    rw [hfirst]
    cases v with
    | won next value =>
      refine ⟨fun _ _ _ => feedAll_orElse_won closed hlead behind, ?_, ?_⟩
      · intro _ _ hfailed
        cases hfailed
      · intro hwait
        cases hwait
    | lost next failure =>
      refine ⟨?_, fun _ _ _ => orElse_lost_alike closed free hs hcs hlead, ?_⟩
      · intro _ _ hsucceeded
        cases hsucceeded
      · intro hwait
        cases hwait
  | waiting hlead =>
    have hfirst : ((first.parse input).feedAll cs).status.isSuspended = true :=
      isSuspended_run_waiting closed hlead stopFailed stopSucceeded
    refine ⟨?_, ?_, fun _ => isSuspended_run_waiting closed hlead _ stopSucceeded⟩
    · intro _ _ hsucceeded
      rw [hsucceeded] at hfirst
      cases hfirst
    · intro _ _ hfailed
      rw [hfailed] at hfirst
      cases hfirst

theorem parse_orElse_backtracks_waiting :
    (((take 2 : Parser Bytes UInt8 Bytes).orElse (take 1)).parse (Segment.ofList [7])).feedAll
        [Segment.ofList [8], Segment.ofList [], Segment.ofList [9]]
      = ((take 2 : Parser Bytes UInt8 Bytes).parse (Segment.ofList [7])).feedAll
        [Segment.ofList [8], Segment.ofList [], Segment.ofList [9]] ∧
    (((label "closing" (both (take 2) endOfInput) : Parser Text Char (Text × Unit)).orElse
        (both (take 4) (succeed ()))).parse (Text.ofList ['é'])
      |>.feedAll [Text.ofList ['a'], Text.ofList ['ж']]).Alike (Size.storable - 5)
        (((both (take 4) (succeed ()) : Parser Text Char (Text × Unit)).parse
          (Text.ofList ['é'])).feedAll [Text.ofList ['a'], Text.ofList ['ж']]) ∧
    ((((take 3 : Parser Text Char Text).orElse (take 1)).parse (Text.ofList ['é'])).feedAll
        [Text.ofList ['a']]).status.isSuspended = true := by
  refine ⟨?_, ?_, ?_⟩
  · refine (parse_orElse_backtracks (take 2 : Parser Bytes UInt8 Bytes) (take 1) trivial trivial
      (Segment.ofList [7]) [Segment.ofList [8], Segment.ofList [], Segment.ofList [9]]
      (by decide)).1 (Segment.ofList [9]) (Segment.ofList [7, 8]) ?_
    exact Status.eq_of_agrees (by decide +kernel)
  · refine (parse_orElse_backtracks
      (label "closing" (both (take 2) endOfInput) : Parser Text Char (Text × Unit))
      (both (take 4) (succeed ())) ⟨trivial, fun _ => trivial⟩ ⟨trivial, fun _ => trivial⟩
      (Text.ofList ['é']) [Text.ofList ['a'], Text.ofList ['ж']] (by decide)).2.1
      (Text.ofList ['ж']) ⟨["closing"], "endOfInput"⟩ ?_
    exact Status.eq_of_agrees (by decide +kernel)
  · exact (parse_orElse_backtracks (take 3 : Parser Text Char Text) (take 1) trivial trivial
      (Text.ofList ['é']) [Text.ofList ['a']] (by decide)).2.2 (by decide +kernel)

/-! ## A common first parser -/

/-- Once the continuation of the first side has failed, the second side starts the common parser
over, and it succeeds with the same value at the same position. -/
theorem status_restart_won {parser : Parser T E A} (free : parser.DemandFree)
    {g : A → Parser T E B} {value : A} {next failed : State T} {before later : List T}
    (hs : (s.givenAll before).Sound)
    (hv : (parser.verdict (s.givenAll before)).value? = some (won next value))
    (honward : (s.givenAll before).Onward next) (htakes : next.Takes later)
    (hlater : Chunk.width next.buffer + Chunk.totalWidth later < Size.storable)
    (hfailed : (next.givenAll later).Onward failed) (failure : Failure) (behind : List T) :
    (((andThen parser g).restart s failed failure).feedAll behind).status
      = (((g value).restart next failed failure).feedAll behind).status := by
  rw [honward.buffer] at hlater
  have hagain :=
    (incremental_verdict parser free).value?_givenAll hs (honward.takes htakes) hlater hv
  rw [givenAll_eq, state_won, ← State.givenAll_append] at hagain
  have hall : (s.givenAll (before ++ later)).Onward failed := by
    rw [State.givenAll_append]
    exact (honward.givenAll later).trans hfailed
  rw [status_restart hall, status_restart hfailed, runFrom, run,
    status_feedAll_run free.closed hagain]
  rfl

/-- Once the common parser has succeeded, both forms run the continuation of the first side, and
differ only in what they go back to when it fails. -/
theorem restart_matches_orElse {parser : Parser T E A} (free : parser.DemandFree)
    {first : Parser T E B} {g : A → Parser T E B} {value : A} (closed : first.Closed)
    (closed' : (g value).Closed) {next : State T} {before behind : List T}
    (hs : (s.givenAll before).Sound)
    (hv : (parser.verdict (s.givenAll before)).value? = some (won next value))
    (honward : (s.givenAll before).Onward next)
    (hbehind : Chunk.width next.buffer + Chunk.totalWidth behind < Size.storable) :
    ((first.run next ((andThen parser g).restart s) stopSucceeded).feedAll behind).status.Matches
      (((first.orElse (g value)).runFrom next).feedAll behind).status := by
  have hnext := honward.sound hs
  have hfault := isFaulted_runFrom (first.orElse (g value)) ⟨closed, closed'⟩ hnext hbehind
  rw [runFrom_orElse] at hfault ⊢
  cases course first closed hnext hbehind with
  | @decided events later buffer v behind hlead =>
    have hlater : Chunk.width next.buffer + Chunk.totalWidth later < Size.storable := by
      rw [Chunk.totalWidth_append] at hbehind
      omega
    rw [status_run_decided closed hlead] at hfault ⊢
    rw [status_run_decided closed hlead]
    cases v with
    | won after result => exact Status.matches_of_eq rfl hfault
    | lost failed failure =>
      have htakes := takes_of_leads first closed hnext hlater hlead
      have hfailed := onward_of_leads first closed hnext hlater hlead
      have hsame := status_restart_won free (g := g) hs hv honward htakes hlater hfailed failure
        behind
      exact Status.matches_of_eq hsame hfault
  | waiting hlead =>
    exact matches_run_waiting closed hlead _ _ stopSucceeded stopSucceeded

/-- A parser that both sides of a choice begin with may be run once, before the choice. -/
theorem parseWith_left_factoring (parser : Parser T E A) (free : parser.DemandFree)
    (f g : A → Parser T E B) (hf : ∀ a, (f a).Closed) (hg : ∀ a, (g a).Closed) (input : T)
    (more : More) (cs : List T)
    (hcs : Chunk.width input + Chunk.totalWidth cs < Size.storable) :
    (((orElse (andThen parser f) (andThen parser g)).parseWith input more).feedAll
        cs).status.Matches
      (((andThen parser fun a => orElse (f a) (g a)).parseWith input more).feedAll cs).status := by
  have hs : (State.start input more).Sound := .start more (by omega)
  have hfault := isFaulted_runFrom (andThen parser fun a => orElse (f a) (g a))
    ⟨free.closed, fun a => ⟨hf a, hg a⟩⟩ hs hcs
  unfold parseWith
  rw [runFrom_orElse, run]
  rw [runFrom, run] at hfault ⊢
  cases course parser free.closed hs hcs with
  | @decided events before buffer v behind hlead =>
    rw [Chunk.totalWidth_append] at hcs
    have hbefore : Chunk.width input + Chunk.totalWidth before < Size.storable := by omega
    have hv := value?_of_leads parser free hs hbefore hlead
    have honward := onward_of_leads parser free.closed hs hbefore hlead
    rw [status_run_decided free.closed hlead] at hfault ⊢
    rw [status_run_decided free.closed hlead]
    cases v with
    | lost next failure =>
      exact Status.matches_of_eq (status_restart_lost free.closed (g := g) hv honward behind) hfault
    | won next value =>
      refine restart_matches_orElse free (hf value) (hg value) (hs.givenAll hbefore) hv honward ?_
      have hbuffer := congrArg Chunk.width honward.buffer
      rw [State.width_givenAll] at hbuffer
      change Chunk.width next.buffer = Chunk.width input + _ at hbuffer
      omega
  | waiting hlead =>
    exact matches_run_waiting free.closed hlead _ stopFailed _ _

theorem parseWith_left_factoring_starts_over :
    (((orElse
        (andThen (take 1) fun w => andThen demandInput fun _ => map (fun v => (w, v)) (take 3))
        (andThen (take 1) fun w => map (fun v => (w, v)) (take 1)) :
          Parser Text Char (Text × Text)).parseWith (Text.ofList ['é', 'a']) .incomplete).feedAll
        [Text.ofList ['ж'], Text.ofList [], Text.ofList ['b']]).status.Matches
      (((andThen (take 1) fun w =>
        orElse (andThen demandInput fun _ => map (fun v => (w, v)) (take 3))
          (map (fun v => (w, v)) (take 1)) :
          Parser Text Char (Text × Text)).parseWith (Text.ofList ['é', 'a']) .incomplete).feedAll
        [Text.ofList ['ж'], Text.ofList [], Text.ofList ['b']]).status :=
  parseWith_left_factoring (take 1 : Parser Text Char Text) trivial
    (fun w => andThen demandInput fun _ => map (fun v => (w, v)) (take 3))
    (fun w => map (fun v => (w, v)) (take 1)) (fun _ => ⟨trivial, fun _ => trivial⟩)
    (fun _ => trivial) (Text.ofList ['é', 'a']) .incomplete
    [Text.ofList ['ж'], Text.ofList [], Text.ofList ['b']] (by decide)

end Parser

end Piecemeal

import Piecemeal.Proofs.Parser.Continuation
import Piecemeal.Proofs.Parser.Primitives

/-!
# The state that parsers hand on

Whatever a closed parser waits for on its way, it ends in a state with all input that the run was
given, in order and complete or not as the run was told, and at a position between two elements
that is no further back than where the parser started (`tracks_verdict`). So what a finished run
leaves is what follows one position of all that it was given, and feeding it on adds to that.
-/

namespace Piecemeal

open Verdict

variable {T E A B : Type} [Chunk T E]

/-- The run ends further on in the input that it was given. -/
abbrev EndsOnward (o : Outcome T (Verdict T A)) (s : State T) : Prop :=
  o.Tracks (fun _ => True) (fun t v => t.Onward v.state) s

theorem State.Onward.ends [LawfulChunk T E] {s next : State T} {o : Outcome T (Verdict T A)}
    (h : s.Onward next) (ho : EndsOnward o next) : EndsOnward o s := by
  refine ho.along (fun t u => u.Onward t) ?_ ?_ ?_ ?_ h
  · intro t u c hu _ _
    exact hu.given c
  · intro t u hu
    exact ⟨hu.buffer.symm, hu.more.symm⟩
  · intro _ _ _ _
    trivial
  · intro t u v hu hv
    exact hu.trans hv

/-- The states that a run comes to its end in are sound, and at the position where it started. -/
theorem EndsOnward.keepStart [LawfulChunk T E] {s : State T} {o : Outcome T (Verdict T A)}
    (hs : s.Sound) (ho : EndsOnward o s) :
    o.Tracks (fun _ => True) (fun t v => t.Onward v.state ∧ t.Sound ∧ t.pos = s.pos) s := by
  have hkept := ho.keep (fun t => t.Sound ∧ t.pos = s.pos)
    (fun t c ht _ hc => ⟨ht.1.given hc, ht.2⟩) ⟨hs, rfl⟩
  exact hkept.mono (fun _ _ => trivial) fun _ _ h => h

/-- To go on from a verdict, it is enough to go on from the states that the run may have reached:
sound ones, at the position where it started. -/
theorem EndsOnward.bind [LawfulChunk T E] {s : State T} {o : Outcome T (Verdict T A)}
    {next : Verdict T A → Outcome T (Verdict T B)} (hs : s.Sound) (ho : EndsOnward o s)
    (hnext : ∀ t v, t.Sound → t.pos = s.pos → t.Onward v.state → EndsOnward (next v) t) :
    EndsOnward (o.bind next) s := by
  refine Outcome.Tracks.bind (ho.keepStart hs) ?_
  rintro t v ⟨honward, hsound, hpos⟩
  exact hnext t v hsound hpos honward

theorem endsOnward_repeating [LawfulChunk T E] {attempt : State T → Outcome T (Verdict T A)}
    (hattempt : ∀ s, s.Sound → EndsOnward (attempt s) s) {s : State T} (hs : s.Sound)
    (found : List A) : EndsOnward (repeating attempt s found winning) s := by
  fun_induction repeating attempt s found winning with
  | case1 s found ih =>
    refine (hattempt s hs).bind hs ?_
    intro t v ht hpos honward
    have hback : v.state.moveTo s.pos = t := hpos ▸ honward.moveTo
    have hhere : t.Onward (v.state.moveTo s.pos) := hback.symm ▸ .refl ht
    cases v with
    | lost next f => exact hhere
    | won next value =>
      simp only
      split
      · next hlt => exact honward.ends (ih next value hlt (honward.sound ht))
      · exact hhere

/-- A run that replays ends onward if it answers where it is asked: both the answer that it has if
`n` elements follow and the one that it has otherwise leave the state as it is. -/
theorem endsOnward_of_replays [LawfulChunk T E] {start : State T → Outcome T (Verdict T A)}
    (hstart : Replays start) {n : Nat} {enough : State T → List E → Verdict T A}
    {last : State T → Bool} {few : State T → Verdict T A}
    (hvalue : ∀ {t before after}, t.Sound → Chunk.SplitsAt t.buffer t.pos.offset before after →
      (start t).value? = if n ≤ after.length then some (enough t after)
        else if last t then some (few t) else none)
    (henough : ∀ t after, (enough t after).state = t) (hfew : ∀ t, (few t).state = t)
    {s : State T} (hs : s.Sound) : EndsOnward (start s) s := by
  have hkept := (hstart s hs).keep State.Sound (fun t c ht _ hc => ht.given hc) hs
  refine hkept.mono (fun _ _ => trivial) ?_
  rintro t v ⟨hv, ht⟩
  obtain ⟨before, after, h⟩ := ht.boundary
  have hstays : v.state = t := by
    rw [hvalue ht h] at hv
    split at hv
    · cases hv
      exact henough t after
    · split at hv
      · cases hv
        exact hfew t
      · cases hv
  rw [hstays]
  exact .refl ht

namespace Parser

variable [LawfulChunk T E] {s t : State T} {before after : List E} {n : Nat}

/-! ## Primitive parsers -/

theorem endsOnward_demandInput (hs : s.Sound) :
    EndsOnward ((demandInput : Parser T E Unit).verdict s) s := by
  simp only [verdict, run]
  cases hmore : s.more with
  | complete => exact State.Onward.refl hs
  | incomplete =>
    rw [if_neg (by decide)]
    apply Outcome.tracks_prompt hmore trivial
    · exact State.Onward.refl hs.ended
    · intro c _ _ hc
      exact State.Onward.refl (hs.grown hc)

theorem endsOnward_bind_ensure {next : Win T T (Verdict T A)} (hs : s.Sound)
    (hnext : ∀ {t : State T} {before after}, t.Sound →
      Chunk.SplitsAt t.buffer t.pos.offset before after → n ≤ after.length →
      EndsOnward (next t (Chunk.ofList (after.take n))) t) :
    EndsOnward (((ensure n : Parser T E T).verdict s).bind (resolve losing next)) s := by
  have hkept := (replays_ensure n s hs).keep State.Sound (fun t c ht _ hc => ht.given hc) hs
  refine Outcome.Tracks.bind (hkept.mono (fun _ _ => trivial) fun _ _ h => h) ?_
  rintro t v ⟨hv, ht⟩
  obtain ⟨before, after, h⟩ := ht.boundary
  rw [value?_ensure ht h] at hv
  split at hv
  · next hn => cases hv; exact hnext ht h hn
  · split at hv
    · cases hv; exact State.Onward.refl ht
    · cases hv

theorem endsOnward_accepting (refusal : E → Option String) (ht : t.Sound)
    (h : Chunk.SplitsAt t.buffer t.pos.offset before after) (hn : 1 ≤ after.length) :
    EndsOnward (accepting refusal t (Chunk.ofList (after.take 1))) t := by
  cases after with
  | nil => cases hn
  | cons e es =>
    have hhead : Chunk.head (Chunk.ofList ((e :: es).take 1) : T) = .ok e :=
      LawfulChunk.head_of_cons (LawfulChunk.toList_ofList _)
    unfold accepting
    rw [hhead, Outcome.require_ok]
    split
    · exact ht.onward_advance h 1
    · exact State.Onward.refl ht

/-! ## All parsers -/

theorem tracks_verdict (parser : Parser T E A) (closed : parser.Closed) {s : State T}
    (hs : s.Sound) : EndsOnward (parser.verdict s) s := by
  induction parser generalizing s with
  | succeed => exact State.Onward.refl hs
  | fail => exact State.Onward.refl hs
  | accept refusal =>
    rw [verdict_accept]
    exact endsOnward_bind_ensure hs fun ht h hn => endsOnward_accepting refusal ht h hn
  | demandInput => exact endsOnward_demandInput hs
  | wantInput =>
    exact endsOnward_of_replays replays_wantInput value?_wantInput (fun _ _ => rfl)
      (fun _ => rfl) hs
  | ensure n =>
    exact endsOnward_of_replays (replays_ensure n) (fun ht h => value?_ensure ht h n)
      (fun _ _ => rfl) (fun _ => rfl) hs
  | take n =>
    rw [verdict_take]
    exact endsOnward_bind_ensure hs fun ht h _ => ht.onward_advance h n
  | endOfInput =>
    exact endsOnward_of_replays replays_endOfInput value?_endOfInput (fun _ _ => rfl)
      (fun _ => rfl) hs
  | orElse first second ihFirst ihSecond =>
    rw [verdict_orElse closed]
    refine (ihFirst closed.1 hs).bind hs ?_
    intro t v ht hpos honward
    have hback : v.state.moveTo s.pos = t := hpos ▸ honward.moveTo
    cases v with
    | won next value => exact honward
    | lost next f =>
      have hsecond := ihSecond closed.2 ht
      rw [← hback] at hsecond ⊢
      exact hsecond
  | andThen first next ihFirst ihNext =>
    rw [verdict_andThen closed]
    refine (ihFirst closed.1 hs).bind hs ?_
    intro t v ht _ honward
    cases v with
    | won s' value => exact honward.ends (ihNext value (closed.2 value) (honward.sound ht))
    | lost s' f => exact honward
  | map f parser ih =>
    rw [verdict_map f parser closed]
    refine (ih closed hs).bind hs ?_
    rintro t (⟨next, failure⟩ | ⟨next, value⟩) _ _ honward <;> exact honward
  | manyAfter found parser ih =>
    rw [verdict_manyAfter]
    exact endsOnward_repeating (fun s hs => ih closed hs) hs found.reverse
  | label name parser ih =>
    rw [verdict_label name parser closed]
    refine (ih closed hs).bind hs ?_
    rintro t (⟨next, failure⟩ | ⟨next, value⟩) _ _ honward <;> exact honward
  | custom => exact closed.elim

theorem onward_of_value? (parser : Parser T E A) (closed : parser.Closed) {s : State T}
    (hs : s.Sound) {v : Verdict T A} (hv : (parser.verdict s).value? = some v) :
    s.Onward v.state :=
  (tracks_verdict parser closed hs).ends_of_value? hv

theorem onward_of_leads (parser : Parser T E A) (closed : parser.Closed) {s : State T}
    (hs : s.Sound) {events : List Event} {cs : List T} {leftover : T} {v : Verdict T A}
    (hcs : Chunk.width s.buffer + Chunk.totalWidth cs < Size.storable)
    (hlead : (parser.verdict s).Leads events cs (.succeeded leftover v)) :
    (s.givenAll cs).Onward v.state :=
  ((tracks_verdict parser closed hs).leads hlead hcs).2

/-- A run that stops at a verdict leaves what follows the position of the verdict. -/
theorem drop_of_stop {v : Verdict T A} {events : List Event} {cs : List T} {q : Outcome T A}
    {rest : T} (h : Chunk.Boundary v.state.buffer v.state.pos.offset)
    (hlead : (v.resolve stopFailed stopSucceeded).Leads events cs q)
    (hrest : q.status.leftover? = some rest) :
    cs = [] ∧ Chunk.drop v.state.buffer v.state.pos.offset = .ok rest := by
  obtain ⟨before, after, hsplit⟩ := h
  have hdrop := LawfulChunk.drop_eq hsplit
  rw [resolve_stop v hdrop] at hlead
  cases v <;> cases hlead <;> cases hrest <;> exact ⟨rfl, hdrop⟩

/-- Every call that a run makes hands on all input that the run was given, the flag that it was
told, and a position between two elements, no further back than the start. What a finished run
leaves is what follows the position of its call in all that it was ever given. -/
theorem run_threads_state (parser : Parser T E A) (closed : parser.Closed) (s : State T)
    (hpos : Chunk.Boundary s.buffer s.pos.offset) (cs : List T)
    (hcs : Chunk.width s.buffer + Chunk.totalWidth cs < Size.storable) :
    (∀ (R : Type) (lose : Lose T R) (win : Win T A R),
      parser.run s lose win = (parser.verdict s).bind (Verdict.resolve lose win)) ∧
    (∀ events leftover v, (parser.verdict s).Leads events cs (.succeeded leftover v) →
      v.state.buffer = Chunk.appendAll s.buffer cs ∧
      v.state.more =
        (if s.more.isComplete || cs.any Chunk.isEmpty then .complete else .incomplete) ∧
      s.pos ≤ v.state.pos ∧ v.state.pos.offset ≤ Chunk.width v.state.buffer ∧
      Chunk.Boundary v.state.buffer v.state.pos.offset) ∧
    (∀ leftover, ((parser.runFrom s).feedAll cs).status.leftover? = some leftover →
      ∃ events before behind rest v, cs = before ++ behind ∧
        (parser.verdict s).Leads events before (.succeeded rest v) ∧
        Chunk.drop (Chunk.appendAll s.buffer cs) v.state.pos.offset = .ok leftover) := by
  have hs : s.Sound := ⟨by omega, hpos⟩
  refine ⟨fun R lose win => run_eq_bind_verdict parser closed s lose win, ?_, ?_⟩
  · intro events leftover v hlead
    have honward := onward_of_leads parser closed hs hcs hlead
    refine ⟨?_, ?_, ?_, honward.boundary.le_width, honward.boundary⟩
    · rw [honward.buffer, State.givenAll_buffer]
    · rw [honward.more, State.givenAll_more]
    · rw [← State.givenAll_pos s cs]
      exact honward.pos
  · intro leftover hleft
    obtain ⟨_, fed, kept, q, rest, rfl, hlead, hq, hrest, rfl⟩ := Outcome.leads_of_leftover hleft
    obtain ⟨events, later, before, behind, buffer, v, -, rfl, hverdict, hstop⟩ :=
      leads_call parser closed hlead hq
    have hwidth : Chunk.width s.buffer + Chunk.totalWidth before < Size.storable := by
      rw [Chunk.totalWidth_append, Chunk.totalWidth_append] at hcs
      omega
    have honward := onward_of_leads parser closed hs hwidth hverdict
    obtain ⟨rfl, hdrop⟩ := drop_of_stop honward.boundary hstop hrest
    refine ⟨events, before, kept, buffer, v, by rw [List.append_nil], hverdict, ?_⟩
    have hbuffer : v.state.buffer = Chunk.appendAll s.buffer before := by
      rw [honward.buffer, State.givenAll_buffer]
    rw [List.append_nil, Chunk.appendAll_append, ← hbuffer]
    exact honward.boundary.drop_appendAll hdrop kept

theorem run_threads_state_backtracking :
    (∃ events before behind rest v,
      [Text.ofList ['ж'], Text.ofList [], Text.ofList ['b']] = before ++ behind ∧
      ((orElse endOfInput demandInput : Parser Text Char Unit).verdict
        ⟨Text.ofList ['é', 'a'], .ofOffset 2, .incomplete⟩).Leads events before
        (.succeeded rest v) ∧
      Chunk.drop (Text.ofList ['é', 'a', 'ж', 'b']) v.state.pos.offset
        = .ok (Text.ofList ['a', 'ж', 'b'])) ∧
    Chunk.Boundary (Segment.ofList [7, 8, 9] : Bytes) 1 := by
  constructor
  · exact (run_threads_state (orElse endOfInput demandInput : Parser Text Char Unit)
      ⟨trivial, trivial⟩ ⟨Text.ofList ['é', 'a'], .ofOffset 2, .incomplete⟩
      (Text.boundary_iff.2 (Text.isBoundary_iff.1 (by decide)))
      [Text.ofList ['ж'], Text.ofList [], Text.ofList ['b']] (by decide)).2.2 _ (by decide)
  · exact ((run_threads_state (orElse endOfInput demandInput : Parser Bytes UInt8 Unit)
      ⟨trivial, trivial⟩ ⟨Segment.ofList [7, 8], .ofOffset 1, .incomplete⟩
      (Bytes.boundary_iff.2 (by decide)) [Segment.ofList [9]] (by decide)).2.1 _
      (Segment.ofList [7, 8, 9]) (.won ⟨Segment.ofList [7, 8, 9], .ofOffset 1, .incomplete⟩ ())
      (.logged (.logged (.resumed (.logged (.here _)))))).2.2.2.2

end Parser

end Piecemeal

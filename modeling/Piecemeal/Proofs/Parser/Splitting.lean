import Piecemeal.Proofs.Parser.Threading

/-!
# How the input is cut does not matter

A parser that never demands input whatever is there decides by the input so far alone. Such a
parser is incremental: resumed with an increment it does what it would have done with the increment
there from the start (`ReplaysAt`), and what it has found while more may come it finds again on more
input (`StableAt`). Both pass from parts to the whole, for what goes on from a verdict goes on from
the same verdict on more input (`incrementalAt_bind`).

`feed_runFrom_alike`: feeding a run is running on the longer input, or on the complete one.
-/

namespace Piecemeal

open Verdict

variable {T E A B R : Type}

/-- The parser is put together without `custom` and without `demandInput`. -/
def Parser.DemandFree : {A : Type} → Parser T E A → Prop
  | _, .demandInput => False
  | _, .orElse first second => first.DemandFree ∧ second.DemandFree
  | _, .andThen first next => first.DemandFree ∧ ∀ a, (next a).DemandFree
  | _, .map _ parser => parser.DemandFree
  | _, .manyAfter _ parser => parser.DemandFree
  | _, .label _ parser => parser.DemandFree
  | _, .custom _ => False
  | _, _ => True

theorem Parser.DemandFree.closed {parser : Parser T E A} (h : parser.DemandFree) :
    parser.Closed := by
  induction parser with
  | demandInput => exact h.elim
  | orElse first second ihFirst ihSecond => exact ⟨ihFirst h.1, ihSecond h.2⟩
  | andThen first next ihFirst ihNext => exact ⟨ihFirst h.1, fun a => ihNext a (h.2 a)⟩
  | map f parser ih => exact ih h
  | manyAfter found parser ih => exact ih h
  | label name parser ih => exact ih h
  | custom => exact h.elim
  | _ => trivial

variable [Chunk T E]

/-! ## Verdicts on more input -/

namespace Verdict

/-- The same verdict once an increment has come. -/
def given (v : Verdict T A) (c : T) : Verdict T A :=
  match v with
  | lost s failure => lost (s.given c) failure
  | won s value => won (s.given c) value

def givenAll (v : Verdict T A) (cs : List T) : Verdict T A := cs.foldl given v

def withState (v : Verdict T A) (s : State T) : Verdict T A :=
  match v with
  | lost _ failure => lost s failure
  | won _ value => won s value

@[simp] theorem withState_lost (s t : State T) (failure : Failure) :
    (lost s failure : Verdict T A).withState t = lost t failure := rfl

@[simp] theorem withState_won (s t : State T) (value : A) :
    (won s value).withState t = won t value := rfl

theorem givenAll_eq (v : Verdict T A) (cs : List T) :
    v.givenAll cs = v.withState (v.state.givenAll cs) := by
  induction cs generalizing v with
  | nil => cases v <;> rfl
  | cons c cs ih =>
    have hrest := ih (v.given c)
    cases v <;> exact hrest

end Verdict

theorem State.Onward.givenAll [LawfulChunk T E] {s next : State T} (h : s.Onward next)
    (cs : List T) : (s.givenAll cs).Onward (next.givenAll cs) := by
  induction cs generalizing s next with
  | nil => exact h
  | cons c cs ih => exact ih (h.given c)

/-! ## Incremental runs -/

/-- A verdict of the run from this state, while more may come, is its verdict on more input. -/
def StableAt (start : State T → Outcome T (Verdict T A)) (s : State T) : Prop :=
  ∀ v c, s.more = .incomplete → Chunk.width s.buffer + Chunk.width c < Size.storable →
    (start s).value? = some v → (start (s.given c)).value? = some (v.given c)

/-- The run from this state may be resumed or started again. -/
structure IncrementalAt (start : State T → Outcome T (Verdict T A)) (s : State T) : Prop where
  replays : ReplaysAt start s
  stable : StableAt start s

def Incremental (start : State T → Outcome T (Verdict T A)) : Prop :=
  ∀ s : State T, s.Sound → IncrementalAt start s

theorem incrementalAt_losing (s : State T) (failure : Failure) :
    IncrementalAt (fun t => (losing t failure : Outcome T (Verdict T A))) s :=
  ⟨replaysAt_of_value? rfl, fun _ _ _ _ hv => Option.some.inj hv ▸ rfl⟩

theorem incrementalAt_winning (move : State T → State T)
    (hmove : ∀ t c, move (t.given c) = (move t).given c) (s : State T) (value : A) :
    IncrementalAt (fun t => winning (move t) value) s := by
  refine ⟨replaysAt_of_value? rfl, ?_⟩
  intro v c _ _ hv
  cases hv
  show some (won (move (s.given c)) value) = _
  rw [hmove]
  rfl

theorem IncrementalAt.logged {start : State T → Outcome T (Verdict T A)} {s : State T}
    (h : IncrementalAt start s) (event : State T → Event) :
    IncrementalAt (fun t => .logged (event t) fun _ => start t) s :=
  ⟨h.replays, h.stable⟩

/-- What goes on from a verdict, as a run of its own: it enters with the same input, and on more
input it goes on in the same way. -/
def GoesOn (next : State T → Verdict T A → Outcome T (Verdict T B)) (s : State T)
    (v : Verdict T A) : Prop :=
  ∃ (stage : State T → Outcome T (Verdict T B)) (enter : State T),
    IncrementalAt stage enter ∧ s.Onward enter ∧
      ∀ cs, next (s.givenAll cs) (v.givenAll cs) = stage (enter.givenAll cs)

theorem givenAll_concat (s : State T) (cs : List T) (c : T) :
    (s.givenAll cs).given c = s.givenAll (cs ++ [c]) := by
  simp only [State.givenAll, List.foldl_append, List.foldl_cons, List.foldl_nil]

/-- A run that goes on from an incremental one is incremental if it goes on so from every verdict
that the first one may come to at this position. Its stage then moves along with the whole run, by
the same increments. -/
theorem incrementalAt_bind [LawfulChunk T E] {whole : State T → Outcome T (Verdict T B)}
    {first : State T → Outcome T (Verdict T A)}
    {next : State T → Verdict T A → Outcome T (Verdict T B)} {s : State T} (hs : s.Sound)
    (hwhole : ∀ t, whole t = (first t).bind (next t)) (hfirst : Incremental first)
    (hpos : ∀ t v, t.pos = s.pos → next s v = next t v)
    (hnext : ∀ t v, t.Sound → t.pos = s.pos → (first t).value? = some v → GoesOn next t v) :
    IncrementalAt whole s := by
  obtain rfl : whole = fun t => (first t).bind (next t) := funext hwhole
  constructor
  · have hkept := ((hfirst s hs).replays).keep (fun t => t.Sound ∧ t.pos = s.pos)
      (fun t c ht _ hc => ⟨ht.1.given hc, ht.2⟩) ⟨hs, rfl⟩
    refine Outcome.Tracks.bind (hkept.mono ?_ fun _ _ h => h) ?_
    · rintro t ⟨hnone, -⟩
      rw [Outcome.value?_bind, hnone, Option.bind_none]
    · rintro t v ⟨hv, ht, htpos⟩
      obtain ⟨stage, enter, hstage, honward, hgo⟩ := hnext t v ht htpos hv
      rw [hpos t v htpos, show next t v = stage enter from hgo []]
      have hvalue : ∀ cs, (first (t.givenAll cs)).value? = some (v.givenAll cs) →
          ((first (t.givenAll cs)).bind (next (t.givenAll cs))).value?
            = (stage (enter.givenAll cs)).value? := by
        intro cs hcs
        rw [Outcome.value?_bind_of_value? hcs, hgo cs]
      refine hstage.replays.along (fun x u => ∃ cs, x = enter.givenAll cs ∧ u = t.givenAll cs ∧
        u.Sound ∧ (first u).value? = some (v.givenAll cs)) ?_ ?_ ?_ ?_ ⟨[], rfl, rfl, ht, hv⟩
      · rintro _ _ c ⟨cs, rfl, rfl, hsound, hcs⟩ hmore hc
        have hsame := honward.givenAll cs
        rw [hsame.more] at hmore
        rw [hsame.buffer] at hc
        refine ⟨cs ++ [c], givenAll_concat enter cs c, givenAll_concat t cs c, hsound.given hc, ?_⟩
        rw [(hfirst _ hsound).stable _ c hmore hc hcs]
        simp only [givenAll, List.foldl_append, List.foldl_cons, List.foldl_nil]
      · rintro _ _ ⟨cs, rfl, rfl, -, -⟩
        exact ⟨(honward.givenAll cs).buffer.symm, (honward.givenAll cs).more.symm⟩
      · rintro _ _ ⟨cs, rfl, rfl, -, hcs⟩ hnone
        rw [hvalue cs hcs, hnone]
      · rintro _ _ w ⟨cs, rfl, rfl, -, hcs⟩ hsome
        rw [hvalue cs hcs, hsome]
  · intro w c hmore hc hw
    rw [Outcome.value?_bind] at hw ⊢
    obtain ⟨v, hv, hw⟩ := Option.bind_eq_some_iff.1 hw
    obtain ⟨stage, enter, hstage, honward, hgo⟩ := hnext s v hs rfl hv
    rw [show next s v = stage enter from hgo []] at hw
    rw [(hfirst s hs).stable v c hmore hc hv, Option.bind_some,
      show next (s.given c) (v.given c) = stage (enter.given c) from hgo [c]]
    exact hstage.stable w c (honward.more.trans hmore) (honward.buffer ▸ hc) hw

theorem goesOn_of_stage {next : State T → Verdict T A → Outcome T (Verdict T B)}
    {stage : State T → Outcome T (Verdict T B)} {s enter : State T} {v : Verdict T A}
    (hstage : IncrementalAt stage enter) (honward : s.Onward enter)
    (h : ∀ cs, next (s.givenAll cs) (v.withState (v.state.givenAll cs))
      = stage (enter.givenAll cs)) : GoesOn next s v := by
  refine ⟨stage, enter, hstage, honward, ?_⟩
  intro cs
  rw [givenAll_eq, h cs]

theorem goesOn_report (failing : Failure → Failure) (f : A → B) {s : State T} {v : Verdict T A}
    (honward : s.Onward v.state) :
    GoesOn (fun _ => resolve (fun t failure => losing t (failing failure))
      fun t value => winning t (f value)) s v := by
  cases v with
  | lost next failure => exact goesOn_of_stage (incrementalAt_losing next _) honward fun _ => rfl
  | won next value =>
    exact goesOn_of_stage (incrementalAt_winning id (fun _ _ => rfl) next _) honward fun _ => rfl

/-! ## Repetitions -/

def repeatingOn (attempt : State T → Outcome T (Verdict T A)) (found : List A) (s : State T) :
    Verdict T A → Outcome T (Verdict T (List A))
  | .lost next _ =>
    .logged (.repetitionStopped s.pos found.length) fun _ =>
      winning (next.moveTo s.pos) found.reverse
  | .won next value =>
    if s.pos < next.pos then repeating attempt next (value :: found) winning
    else
      .logged (.noProgress s.pos found.length) fun _ => winning (next.moveTo s.pos) found.reverse

theorem repeating_eq_bind (attempt : State T → Outcome T (Verdict T A)) (found : List A)
    (s : State T) :
    repeating attempt s found winning = (attempt s).bind (repeatingOn attempt found s) := by
  rw [repeating]
  rfl

theorem incrementalAt_repeating [LawfulChunk T E] {attempt : State T → Outcome T (Verdict T A)}
    (hattempt : Incremental attempt)
    (honward : ∀ {t v}, t.Sound → (attempt t).value? = some v → t.Onward v.state) {s : State T}
    (hs : s.Sound) (found : List A) :
    IncrementalAt (fun t => repeating attempt t found winning) s := by
  induction hroom : s.pos.room using Nat.strongRecOn generalizing s found with
  | ind room ih =>
    refine incrementalAt_bind hs (repeating_eq_bind attempt found) hattempt ?_ ?_
    · intro t v htpos
      cases v <;> simp only [repeatingOn, htpos]
    · intro t v ht htpos hv
      have hon := honward ht hv
      have hback : ∀ cs, (v.state.givenAll cs).moveTo (t.givenAll cs).pos = t.givenAll cs :=
        fun cs => (hon.givenAll cs).moveTo
      have hstop := incrementalAt_winning id (fun _ _ => rfl) t found.reverse
      cases v with
      | lost next f =>
        refine goesOn_of_stage (hstop.logged fun u => .repetitionStopped u.pos found.length)
          (.refl ht) ?_
        intro cs
        rw [withState_lost, repeatingOn, hback cs]
        rfl
      | won next value =>
        by_cases hlt : t.pos < next.pos
        · refine goesOn_of_stage (ih next.pos.room ?_ (hon.sound ht) (value :: found) rfl) hon ?_
          · rw [← hroom, ← htpos]
            exact Pos.room_lt hlt
          · intro cs
            rw [withState_won, repeatingOn, state_won, State.givenAll_pos, State.givenAll_pos,
              if_pos hlt]
        · refine goesOn_of_stage (hstop.logged fun u => .noProgress u.pos found.length)
            (.refl ht) ?_
          intro cs
          rw [withState_won, repeatingOn, hback cs, state_won, State.givenAll_pos,
            State.givenAll_pos, if_neg hlt]
          rfl

namespace Parser

variable [LawfulChunk T E] {s : State T}

/-! ## Primitive parsers -/

theorem stableAt_ensure (n : Nat) (hs : s.Sound) :
    StableAt (ensure n : Parser T E T).verdict s := by
  intro v c hmore hc hv
  obtain ⟨before, after, h⟩ := hs.boundary
  have hgiven := hs.given hc
  rw [value?_ensure hs h, hmore] at hv
  rw [value?_ensure hgiven (h.append c)]
  by_cases hn : n ≤ after.length
  · rw [if_pos hn] at hv
    cases hv
    rw [if_pos (by rw [List.length_append]; omega), List.take_append_of_le_length hn]
    rfl
  · rw [if_neg hn] at hv
    split at hv
    · next hfits =>
      cases hv
      have hover : Size.fits (s.pos.offset + n) = false := by simpa [More.isComplete] using hfits
      rw [if_neg, if_pos]
      · rfl
      · rw [State.given_pos, hover, Bool.not_false, Bool.or_true]
      · intro hmany
        have := hgiven.fits (h.append c) hmany
        rw [State.given_pos, ← Size.fits_iff, hover] at this
        cases this
    · cases hv

/-- An element that was found is there on more input. -/
theorem stableAt_of_looking {start : State T → Outcome T (Verdict T A)}
    {found ended : State T → Verdict T A}
    (hvalue : ∀ {t before after}, t.Sound → Chunk.SplitsAt t.buffer t.pos.offset before after →
      (start t).value? = if 1 ≤ after.length then some (found t)
        else if t.more.isComplete then some (ended t) else none)
    (hfound : ∀ t c, found (t.given c) = (found t).given c) (hs : s.Sound) : StableAt start s := by
  intro v c hmore hc hv
  obtain ⟨before, after, h⟩ := hs.boundary
  rw [hvalue hs h, hmore] at hv
  rw [hvalue (hs.given hc) (h.append c), List.length_append]
  split at hv
  · cases hv
    rw [if_pos (by omega), hfound]
  · cases hv

theorem incremental_ensure (n : Nat) : Incremental (ensure n : Parser T E T).verdict :=
  fun s hs => ⟨replays_ensure n s hs, stableAt_ensure n hs⟩

theorem goesOn_ensure {n : Nat} {next : Win T T (Verdict T A)} {t : State T} {v : Verdict T T}
    (ht : t.Sound) (hv : ((ensure n : Parser T E T).verdict t).value? = some v)
    (hnext : ∀ {before after}, Chunk.SplitsAt t.buffer t.pos.offset before after →
      n ≤ after.length →
      IncrementalAt (fun u => next u (Chunk.ofList (after.take n))) t) :
    GoesOn (fun _ => resolve losing next) t v := by
  obtain ⟨before, after, h⟩ := ht.boundary
  rw [value?_ensure ht h] at hv
  split at hv
  · next hn =>
    cases hv
    exact goesOn_of_stage (hnext h hn) (.refl ht) fun _ => rfl
  · split at hv
    · cases hv
      exact goesOn_of_stage (incrementalAt_losing t _) (.refl ht) fun _ => rfl
    · cases hv

theorem incrementalAt_accepting (refusal : E → Option String) (e : E) (s : State T) :
    IncrementalAt (fun u => accepting refusal u (Chunk.ofList [e])) s := by
  have hhead : Chunk.head (Chunk.ofList [e] : T) = .ok e :=
    LawfulChunk.head_of_cons (LawfulChunk.toList_ofList _)
  simp only [accepting, hhead, Outcome.require_ok]
  cases refusal e with
  | none => exact incrementalAt_winning (fun u => u.advance _) (fun _ _ => rfl) s e
  | some reason => exact incrementalAt_losing s _

/-! ## All parsers -/

theorem incremental_verdict (parser : Parser T E A) (free : parser.DemandFree) :
    Incremental parser.verdict := by
  induction parser with
  | succeed value => exact fun s _ => incrementalAt_winning id (fun _ _ => rfl) s value
  | fail reason => exact fun s _ => incrementalAt_losing s _
  | accept refusal =>
    intro s hs
    refine incrementalAt_bind hs (verdict_accept refusal) (incremental_ensure 1)
      (fun _ _ _ => rfl) ?_
    intro t v ht _ hv
    refine goesOn_ensure ht hv ?_
    intro before after h hone
    cases after with
    | nil => cases hone
    | cons e es => exact incrementalAt_accepting refusal e t
  | demandInput => exact free.elim
  | wantInput =>
    intro s hs
    exact ⟨replays_wantInput s hs, stableAt_of_looking value?_wantInput (fun _ _ => rfl) hs⟩
  | ensure n => exact incremental_ensure n
  | take n =>
    intro s hs
    refine incrementalAt_bind hs (verdict_take n) (incremental_ensure n) (fun _ _ _ => rfl) ?_
    intro t v ht _ hv
    exact goesOn_ensure ht hv fun _ _ =>
      incrementalAt_winning (fun u => u.advance _) (fun _ _ => rfl) t _
  | endOfInput =>
    intro s hs
    exact ⟨replays_endOfInput s hs, stableAt_of_looking value?_endOfInput (fun _ _ => rfl) hs⟩
  | orElse first second ihFirst ihSecond =>
    intro s hs
    refine incrementalAt_bind hs (verdict_orElse free.closed) (ihFirst free.1)
      (fun t v htpos => by rw [htpos]) ?_
    intro t v ht _ hv
    have hon := onward_of_value? first free.1.closed ht hv
    cases v with
    | won next value =>
      exact goesOn_of_stage (incrementalAt_winning id (fun _ _ => rfl) next value) hon fun _ => rfl
    | lost next f =>
      refine goesOn_of_stage ((ihSecond free.2 t ht).logged fun u => .backtracking next.pos u.pos)
        (.refl ht) ?_
      intro cs
      have hback := (hon.givenAll cs).moveTo
      simp only [resolve, withState_lost, state_lost, State.givenAll_pos] at hback ⊢
      rw [hback]
  | andThen first next ihFirst ihNext =>
    intro s hs
    refine incrementalAt_bind hs (verdict_andThen free.closed) (ihFirst free.1)
      (fun _ _ _ => rfl) ?_
    intro t v ht _ hv
    have hon := onward_of_value? first free.1.closed ht hv
    cases v with
    | won s' value =>
      exact goesOn_of_stage (ihNext value (free.2 value) s' (hon.sound ht)) hon fun _ => rfl
    | lost s' f => exact goesOn_of_stage (incrementalAt_losing s' f) hon fun _ => rfl
  | map f parser ih =>
    intro s hs
    have hclosed : parser.Closed := free.closed
    refine incrementalAt_bind hs (verdict_map f parser hclosed) (ih free) (fun _ _ _ => rfl) ?_
    intro t v ht _ hv
    exact goesOn_report id f (onward_of_value? parser hclosed ht hv)
  | manyAfter found parser ih =>
    intro s hs
    have hclosed : parser.Closed := free.closed
    exact incrementalAt_repeating (ih free) (fun ht hv => onward_of_value? parser hclosed ht hv) hs
      found.reverse
  | label name parser ih =>
    intro s hs
    have hclosed : parser.Closed := free.closed
    refine incrementalAt_bind hs (verdict_label name parser hclosed) (ih free)
      (fun _ _ _ => rfl) ?_
    intro t v ht _ hv
    exact goesOn_report (Failure.within name) id (onward_of_value? parser hclosed ht hv)
  | custom => exact free.elim

end Parser

/-! ## Runs that cannot be told apart -/

namespace Outcome

theorem Alike.of_status {o o' p p' : Outcome T R} {room : Nat} (h : o.Alike room o')
    (ho : p.status = o.status) (ho' : p'.status = o'.status) : p.Alike room p' := by
  intro cs hcs
  rw [status_feedAll p, status_feedAll p', ho, ho', ← status_feedAll, ← status_feedAll]
  exact h cs hcs

theorem status_bind_of_suspended {o : Outcome T A} {resume : T → Outcome T A}
    (h : o.status = .suspended resume) (next : A → Outcome T B) :
    (o.bind next).status = .suspended fun c => (resume c).bind next := by
  induction o with
  | suspended => cases h; rfl
  | logged _ _ ih => exact ih () h
  | _ => cases h

/-- Runs that have ended with the same value, and stop after it, cannot be told apart. -/
theorem alike_of_value? {o o' : Outcome T A} {v : A} {stop : A → Outcome T B} {room : Nat}
    (hv : o.value? = some v) (hv' : o'.value? = some v) (hstop : (stop v).status.leftover? ≠ none) :
    (o.bind stop).Alike room (o'.bind stop) := by
  have hstatus := status_bind_of_value? hv stop
  refine alike_of_finished (hstatus.trans (status_bind_of_value? hv' stop).symm) ?_
  rw [hstatus]
  exact hstop

end Outcome

open Outcome

/-- Two runs that do what a new run does have ended with the same value, or both wait. -/
theorem RunsAs.together {start : State T → Outcome T A} {o o' : Outcome T A} {s : State T}
    (h : RunsAs start o s) (h' : RunsAs start o' s) :
    (∃ v, o.value? = some v ∧ o'.value? = some v ∧ (start s).value? = some v) ∨
      ∃ resume resume', o.status = .suspended resume ∧ o'.status = .suspended resume' ∧
        ∀ c, Chunk.width s.buffer + Chunk.width c < Size.storable →
          RunsAs start (resume c) (s.given c) ∧ RunsAs start (resume' c) (s.given c) := by
  rcases h.value?_cases with ⟨v, hv, hstart⟩ | ⟨-, -, hnone, resume, hstatus, hresume⟩
  · rcases h'.value?_cases with ⟨w, hw, hstart'⟩ | ⟨-, -, hnone, -⟩
    · rw [hstart] at hstart'
      cases hstart'
      exact .inl ⟨v, hv, hw, hstart⟩
    · rw [hstart] at hnone
      cases hnone
  · rcases h'.value?_cases with ⟨w, hw, hstart⟩ | ⟨-, -, -, resume', hstatus', hresume'⟩
    · rw [hstart] at hnone
      cases hnone
    · exact .inr ⟨resume, resume', hstatus, hstatus', fun c hc => ⟨hresume c hc, hresume' c hc⟩⟩

/-- Two runs that do what a new run does, and then stop, cannot be told apart. -/
theorem RunsAs.alike [LawfulChunk T E] {start : State T → Outcome T A} {stop : A → Outcome T B}
    (hstop : ∀ {t v}, t.Sound → (start t).value? = some v → (stop v).status.leftover? ≠ none)
    {o o' : Outcome T A} {s : State T} (hs : s.Sound) (h : RunsAs start o s)
    (h' : RunsAs start o' s) :
    (o.bind stop).Alike (Size.storable - Chunk.width s.buffer) (o'.bind stop) := by
  intro cs hcs
  induction cs generalizing o o' s with
  | nil =>
    rcases h.together h' with ⟨v, hv, hv', hstart⟩ | ⟨resume, resume', hwait, hwait', -⟩
    · exact alike_of_value? hv hv' (hstop hs hstart) [] hcs
    · rw [feedAll_nil, feedAll_nil, status_bind_of_suspended hwait stop,
        status_bind_of_suspended hwait' stop]
      trivial
  | cons c cs ih =>
    rcases h.together h' with ⟨v, hv, hv', hstart⟩ | ⟨resume, resume', hwait, hwait', hresume⟩
    · exact alike_of_value? hv hv' (hstop hs hstart) (c :: cs) hcs
    · rw [Chunk.totalWidth_cons] at hcs
      have hc : Chunk.width s.buffer + Chunk.width c < Size.storable := by omega
      rw [status_feedAll, status_feedAll (o'.bind stop), status_bind_of_suspended hwait stop,
        status_bind_of_suspended hwait' stop]
      refine ih (hs.given hc) (hresume c hc).1 (hresume c hc).2 ?_
      rw [State.given_buffer, Chunk.width_append]
      omega

namespace Parser

variable [LawfulChunk T E]

/-- Stopping at a verdict finishes the run, and on more input it leaves the more. -/
theorem stop_given (parser : Parser T E A) (closed : parser.Closed) {s : State T}
    {v : Verdict T A} (hs : s.Sound) (hv : (parser.verdict s).value? = some v) (c : T) :
    ∃ leftover, v.resolve stopFailed stopSucceeded = v.finish leftover ∧
      (v.given c).resolve stopFailed stopSucceeded = v.finish (Chunk.append leftover c) := by
  have hboundary := (onward_of_value? parser closed hs hv).boundary
  have ⟨before, after, hsplit⟩ := hboundary
  have hdrop := LawfulChunk.drop_eq hsplit
  have hdrop' := hboundary.drop_appendAll hdrop [c]
  refine ⟨_, resolve_stop v hdrop, ?_⟩
  cases v with
  | lost next f => exact resolve_stop (.lost (next.given c) f) hdrop'
  | won next value => exact resolve_stop (.won (next.given c) value) hdrop'

theorem leftover?_finish (v : Verdict T A) (leftover : T) :
    (v.finish leftover).status.leftover? = some leftover := by
  cases v <;> rfl

/-- Feeding a run of a parser that demands nothing is running it on the input with the increment. -/
theorem feed_runFrom_alike (parser : Parser T E A) (free : parser.DemandFree) {s : State T}
    (hs : s.Sound) (hmore : s.more = .incomplete) {c : T}
    (hc : Chunk.width s.buffer + Chunk.width c < Size.storable) :
    ((parser.runFrom s).feed c).Alike
      (Size.storable - Chunk.width (s.given c).buffer) (parser.runFrom (s.given c)) := by
  have hinc := incremental_verdict parser free
  have hgiven := hs.given hc
  rw [runFrom, runFrom, run_eq_bind_verdict parser free.closed,
    run_eq_bind_verdict parser free.closed]
  rcases (hinc s hs).replays.value?_cases with ⟨v, hv, -⟩ | ⟨-, -, -, resume, hwait, hresume⟩
  · have hv' := (hinc s hs).stable v c hmore hc hv
    obtain ⟨leftover, hstop, hstop'⟩ := stop_given parser free.closed hs hv c
    have hfed : ((((parser.verdict s).bind (resolve stopFailed stopSucceeded)).feed c)).status
        = (v.finish (Chunk.append leftover c)).status := by
      rw [Outcome.status_feed, Outcome.status_bind_of_value? hv, hstop]
      cases v <;> rfl
    have hnew : ((parser.verdict (s.given c)).bind (resolve stopFailed stopSucceeded)).status
        = (v.finish (Chunk.append leftover c)).status := by
      rw [Outcome.status_bind_of_value? hv', hstop']
    refine Outcome.alike_of_finished (hfed.trans hnew.symm) ?_
    rw [hfed, leftover?_finish]
    exact Option.some_ne_none _
  · have hfinished : ∀ {t v}, t.Sound → (parser.verdict t).value? = some v →
        (v.resolve stopFailed stopSucceeded).status.leftover? ≠ none := by
      intro t v ht hv
      obtain ⟨leftover, hstop, -⟩ := stop_given parser free.closed ht hv c
      rw [hstop, leftover?_finish]
      exact Option.some_ne_none _
    refine (RunsAs.alike hfinished hgiven (hresume c hc)
      (hinc (s.given c) hgiven).replays).of_status ?_ rfl
    rw [Outcome.status_feed, Outcome.status_bind_of_suspended hwait]
    rfl

/-- How the input is cut into increments, and when its end is told, makes no difference. -/
theorem runFrom_split_independent (parser : Parser T E A) (free : parser.DemandFree) (input : T)
    (pos : Pos) (hpos : Chunk.Boundary input pos.offset)
    (hinput : Chunk.width input < Size.storable) :
    (∀ b, Chunk.isEmpty b = false → Chunk.width input + Chunk.width b < Size.storable →
      ((parser.runFrom ⟨input, pos, .incomplete⟩).feed b).Alike
        (Size.storable - (Chunk.width input + Chunk.width b))
        (parser.runFrom ⟨Chunk.append input b, pos, .incomplete⟩)) ∧
    ((parser.runFrom ⟨input, pos, .incomplete⟩).feed Chunk.empty).Alike
      (Size.storable - Chunk.width input) (parser.runFrom ⟨input, pos, .complete⟩) := by
  have hs : (⟨input, pos, .incomplete⟩ : State T).Sound := ⟨hinput, hpos⟩
  constructor
  · intro b hb hwidth
    have halike := feed_runFrom_alike parser free hs rfl hwidth
    rw [State.given_of_not_isEmpty rfl hb] at halike
    rw [← Chunk.width_append]
    exact halike
  · have hempty : Chunk.append input (Chunk.empty : T) = input :=
      Chunk.append_of_isEmpty input Chunk.isEmpty_empty
    have hwidth := Chunk.width_append input Chunk.empty
    rw [hempty] at hwidth
    have halike := feed_runFrom_alike parser free hs rfl (hwidth ▸ hinput)
    rw [State.given_of_isEmpty Chunk.isEmpty_empty] at halike
    exact halike

theorem runFrom_split_independent_pairs :
    (((many (orElse (take 2) (take 1)) : Parser Text Char (List Text)).runFrom
        ⟨Text.ofList ['é', 'a'], .ofOffset 2, .incomplete⟩).feed (Text.ofList ['ж'])).Alike
      (Size.storable - 5)
      ((many (orElse (take 2) (take 1)) : Parser Text Char (List Text)).runFrom
        ⟨Text.ofList ['é', 'a', 'ж'], .ofOffset 2, .incomplete⟩) ∧
    (((label "pair" (take 2) : Parser Bytes UInt8 Bytes).runFrom
        ⟨Segment.ofList [7, 8], .ofOffset 1, .incomplete⟩).feed Chunk.empty).Alike
      (Size.storable - 2)
      ((label "pair" (take 2) : Parser Bytes UInt8 Bytes).runFrom
        ⟨Segment.ofList [7, 8], .ofOffset 1, .complete⟩) := by
  constructor
  · exact (runFrom_split_independent
      (many (orElse (take 2) (take 1)) : Parser Text Char (List Text)) ⟨trivial, trivial⟩
      (Text.ofList ['é', 'a']) (.ofOffset 2)
      (Text.boundary_iff.2 (Text.isBoundary_iff.1 (by decide))) (by decide)).1
      (Text.ofList ['ж']) (by decide) (by decide)
  · exact (runFrom_split_independent (label "pair" (take 2) : Parser Bytes UInt8 Bytes) trivial
      (Segment.ofList [7, 8]) (.ofOffset 1) (Bytes.boundary_iff.2 (by decide)) (by decide)).2

end Parser

end Piecemeal

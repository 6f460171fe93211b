import Piecemeal.Proofs.Outcome.Tracking

/-!
# The log of a run

A run talks with whoever feeds it. It logs that it suspends, with all that it holds, and waits;
given an increment, it logs a `reply` first, and goes on. What it logs between two such exchanges
are its own affairs, `Inner` events.

`o.Converses s` says so of a run that was given what `s` holds, for every way to resume it. From it
follows the protocol that the whole log obeys (`LogProtocol`): `Exchange` holds of the run when it
starts, and every increment preserves it (`Exchange.feed`).
-/

namespace Piecemeal

variable {T E A R : Type}

/-! ## Events -/

/-- What a run that waits at `pos` logs first when it is given an increment. -/
def Event.reply [Chunk T E] (pos : Pos) (c : T) : Event :=
  if Chunk.isEmpty c then .inputEnded pos else .resuming pos (Chunk.width c)

/-- A run that holds `held` bytes logs the event between two exchanges. An alternative starts no
further on than where a parser failed, and that is within the input. -/
def Event.Inner (held : Nat) : Event → Prop
  | backtracking failedAt restart => restart ≤ failedAt ∧ failedAt.offset ≤ held
  | repetitionStopped _ _ => True
  | noProgress _ _ => True
  | _ => False

theorem Event.Inner.mono {event : Event} {held held' : Nat} (h : event.Inner held)
    (hle : held ≤ held') : event.Inner held' := by
  cases event with
  | backtracking => exact ⟨h.1, Nat.le_trans h.2 hle⟩
  | _ => exact h

namespace Outcome

/-- The events of a step that the run ends with this status: if it waits, the last one says so, with
all the bytes that it holds. -/
def EndsStep (held : Nat) (events : List Event) : Status T R → Prop
  | .suspended _ => ∃ inner pos, events = inner ++ [.suspending pos held] ∧
    ∀ event ∈ inner, event.Inner held
  | _ => ∀ event ∈ events, event.Inner held

variable [Chunk T E]

/-- What the log says of a run that started with `held` bytes, after any increments that storage can
hold. -/
structure LogProtocol (o : Outcome T R) (held : Nat) : Prop where
  /-- The start is a step. -/
  start : EndsStep held o.events o.status
  /-- A run that waits has just logged that it suspends; given an increment, it logs a reply from
  the same position, and what follows is a step. -/
  resumed (cs : List T) (c : T) : held + Chunk.totalWidth cs + Chunk.width c < Size.storable →
    (o.feedAll cs).status.isSuspended = true →
    ∃ before pos step, (o.feedAll cs).events
        = before ++ [.suspending pos (held + Chunk.totalWidth cs)] ∧
      (o.feedAll (cs ++ [c])).events = (o.feedAll cs).events ++ .reply pos c :: step ∧
      EndsStep (held + Chunk.totalWidth cs + Chunk.width c) step (o.feedAll (cs ++ [c])).status
  /-- A run that has finished logs nothing more. -/
  finished (cs : List T) (c : T) : (o.feedAll cs).status.isSuspended = false →
    (o.feedAll (cs ++ [c])).events = (o.feedAll cs).events
  /-- After the end of the input there are no more exchanges. -/
  ended (cs : List T) : held + Chunk.totalWidth cs < Size.storable →
    (o.feedAll cs).events.Pairwise fun earlier later =>
      ∀ pos, earlier = .inputEnded pos → later.Inner (held + Chunk.totalWidth cs)
  /-- An alternative starts no further on than where a parser failed, and that is within the
  input. -/
  backtracked (cs : List T) (failedAt restart : Pos) :
    held + Chunk.totalWidth cs < Size.storable →
    .backtracking failedAt restart ∈ (o.feedAll cs).events →
    restart ≤ failedAt ∧ failedAt.offset ≤ held + Chunk.totalWidth cs

/-! ## One increment more -/

theorem events_logAll (log : List Event) (o : Outcome T R) :
    (logAll log o).events = log ++ o.events := by
  induction log with
  | nil => rfl
  | cons event log ih => exact congrArg (List.cons event) ih

theorem logAll_append (log log' : List Event) (o : Outcome T R) :
    logAll (log ++ log') o = logAll log (logAll log' o) := List.foldr_append

/-- An increment goes to where the run stands. -/
theorem feed_eq_logAll (o : Outcome T R) (c : T) :
    o.feed c = logAll o.events (o.status.toOutcome.feed c) := by
  induction o with
  | logged event rest ih => exact congrArg (Outcome.logged event) (funext fun _ => ih ())
  | _ => rfl

theorem events_feed_of_finished {o : Outcome T R} (h : o.status.isSuspended = false) {c : T} :
    (o.feed c).events = o.events := by
  rw [feed_eq_logAll, events_logAll]
  cases hstatus : o.status with
  | suspended => rw [hstatus] at h; cases h
  | _ => exact List.append_nil _

/-! ## Runs that converse -/

/-- Given what `s` holds, the run logs by the protocol, however it is resumed. -/
inductive Converses : Outcome T R → State T → Prop where
  | failed {s : State T} {leftover : T} {failure : Failure} :
      Converses (.failed leftover failure) s
  | succeeded {s : State T} {leftover : T} {value : R} : Converses (.succeeded leftover value) s
  | faulted {s : State T} {fault : Fault} : Converses (.faulted fault) s
  | logged {s : State T} {event : Event} {rest : Unit → Outcome T R} :
      event.Inner (Chunk.width s.buffer) → Converses (rest ()) s →
      Converses (.logged event rest) s
  | waits {s : State T} {pos : Pos} {next : T → Outcome T R} : s.more = .incomplete →
      (∀ c, Chunk.width s.buffer + Chunk.width c < Size.storable →
        Converses (next c) (s.given c)) →
      Converses (.logged (.suspending pos (Chunk.width s.buffer)) fun _ =>
        .suspended fun c => .logged (.reply pos c) fun _ => next c) s

/-- Nothing but the input given counts, not how much of it is consumed. -/
theorem Converses.of_same {o : Outcome T R} {s s' : State T} (h : o.Converses s)
    (hbuffer : s'.buffer = s.buffer) (hmore : s'.more = s.more) : o.Converses s' := by
  induction h generalizing s' with
  | failed => exact .failed
  | succeeded => exact .succeeded
  | faulted => exact .faulted
  | logged hinner _ ih => exact .logged (hbuffer ▸ hinner) (ih hbuffer hmore)
  | @waits s pos next hwait _ ih =>
    rw [← hbuffer]
    refine .waits (hmore.trans hwait) ?_
    intro c hc
    rw [hbuffer] at hc
    refine ih c hc ?_ ?_
    · rw [State.given_buffer, State.given_buffer, hbuffer]
    · simp only [State.given, hmore]

theorem Converses.bind {o : Outcome T A} {next : A → Outcome T R} {s : State T}
    {waits : State T → Prop} {ends : State T → A → Prop} (h : o.Converses s)
    (htracks : o.Tracks waits ends s)
    (hnext : ∀ t value, ends t value → (next value).Converses t) : (o.bind next).Converses s := by
  induction h with
  | failed => exact .failed
  | succeeded => exact hnext _ _ htracks
  | faulted => exact .faulted
  | logged hinner _ ih => exact .logged hinner (ih htracks)
  | waits hmore _ ih => exact .waits hmore fun c hc => ih c hc (htracks.2.2 c hc)

theorem converses_require {answer : Except Fault A} {next : A → Outcome T R} {s : State T}
    (h : ∀ a, (next a).Converses s) : (require answer next).Converses s := by
  cases answer with
  | ok a => exact h a
  | error => exact .faulted

/-! ## From one exchange to the next -/

/-- Given an increment, a run that waits at `pos` and holds what `s` does replies and goes on. -/
def Replies (s : State T) (pos : Pos) (resume : T → Outcome T R) : Prop :=
  ∀ c, Chunk.width s.buffer + Chunk.width c < Size.storable →
    ∃ next, resume c = .logged (.reply pos c) next ∧ (next ()).Converses (s.given c)

/-- A run that converses has finished by itself, or it has said that it suspends and waits for an
increment to reply to. -/
theorem Converses.cases {o : Outcome T R} {s : State T} (h : o.Converses s) :
    (o.status.isSuspended = false ∧ ∀ event ∈ o.events, event.Inner (Chunk.width s.buffer)) ∨
    (s.more = .incomplete ∧ ∃ inner pos resume,
      o.events = inner ++ [.suspending pos (Chunk.width s.buffer)] ∧
      (∀ event ∈ inner, event.Inner (Chunk.width s.buffer)) ∧ o.status = .suspended resume ∧
      Replies s pos resume) := by
  induction h with
  | failed => exact .inl ⟨rfl, fun _ hmem => absurd hmem List.not_mem_nil⟩
  | succeeded => exact .inl ⟨rfl, fun _ hmem => absurd hmem List.not_mem_nil⟩
  | faulted => exact .inl ⟨rfl, fun _ hmem => absurd hmem List.not_mem_nil⟩
  | @logged s event rest hinner _ ih =>
    rcases ih with ⟨hstop, hall⟩ | ⟨hmore, inner, pos, resume, hevents, hall, hstatus, hreplies⟩
    · exact .inl ⟨hstop, List.forall_mem_cons.2 ⟨hinner, hall⟩⟩
    · refine .inr ⟨hmore, event :: inner, pos, resume, ?_, List.forall_mem_cons.2 ⟨hinner, hall⟩,
        hstatus, hreplies⟩
      exact congrArg (List.cons event) hevents
  | @waits s pos next hmore hnext _ =>
    refine .inr ⟨hmore, [], pos, _, rfl, fun _ hmem => absurd hmem List.not_mem_nil, rfl, ?_⟩
    intro c hc
    exact ⟨fun _ => next c, rfl, hnext c hc⟩

theorem Converses.mem_events {o : Outcome T R} {s : State T} {event : Event} (h : o.Converses s)
    (hmem : event ∈ o.events) : event.Inner (Chunk.width s.buffer) ∨
      (s.more = .incomplete ∧ ∃ pos, event = .suspending pos (Chunk.width s.buffer)) := by
  rcases h.cases with ⟨-, hall⟩ | ⟨hmore, inner, pos, resume, hevents, hall, -, -⟩
  · exact .inl (hall event hmem)
  · rw [hevents] at hmem
    rcases List.mem_append.1 hmem with hinner | hlast
    · exact .inl (hall event hinner)
    · exact .inr ⟨hmore, pos, List.mem_singleton.1 hlast⟩

theorem Converses.endsStep {o : Outcome T R} {s : State T} (h : o.Converses s) :
    EndsStep (Chunk.width s.buffer) o.events o.status := by
  rcases h.cases with ⟨hstop, hall⟩ | ⟨-, inner, pos, resume, hevents, hall, hstatus, -⟩
  · cases hstatus : o.status with
    | suspended => rw [hstatus] at hstop; cases hstop
    | _ => exact hall
  · rw [hstatus]
    exact ⟨inner, pos, hevents, hall⟩

/-- What holds of a whole log, once the run was given what `s` holds. -/
structure Orderly (log : List Event) (s : State T) : Prop where
  open_of_more : s.more = .incomplete → ∀ pos, Event.inputEnded pos ∉ log
  ended : log.Pairwise fun earlier later =>
    ∀ pos, earlier = .inputEnded pos → later.Inner (Chunk.width s.buffer)
  backtracked (failedAt restart : Pos) : .backtracking failedAt restart ∈ log →
    restart ≤ failedAt ∧ failedAt.offset ≤ Chunk.width s.buffer

namespace Orderly

variable {log : List Event} {s : State T}

theorem given (h : Orderly log s) (c : T) : Orderly log (s.given c) := by
  have hwidth : Chunk.width s.buffer ≤ Chunk.width (s.given c).buffer := by
    rw [State.given_buffer, Chunk.width_append]
    exact Nat.le_add_right _ _
  refine ⟨?_, ?_, ?_⟩
  · intro hmore
    refine h.open_of_more ?_
    simp only [State.given] at hmore
    split at hmore
    · cases hmore
    · exact hmore
  · exact h.ended.imp fun hinner pos hend => (hinner pos hend).mono hwidth
  · intro failedAt restart hmem
    obtain ⟨hback, hheld⟩ := h.backtracked failedAt restart hmem
    exact ⟨hback, Nat.le_trans hheld hwidth⟩

/-- A run that waits was never told of an end, so that its reply may be the first to tell of one. -/
theorem reply (h : Orderly log s) (hmore : s.more = .incomplete) (pos : Pos) (c : T) :
    Orderly (log ++ [.reply pos c]) (s.given c) := by
  have hopen := h.open_of_more hmore
  have hgiven := h.given c
  refine ⟨?_, ?_, ?_⟩
  · intro hmore' pos' hmem
    rcases List.mem_append.1 hmem with hlog | hreply
    · exact hopen pos' hlog
    · rw [List.mem_singleton, Event.reply] at hreply
      simp only [State.given] at hmore'
      split at hmore'
      · cases hmore'
      · next hempty => rw [if_neg hempty] at hreply; cases hreply
  · refine List.pairwise_append.2 ⟨hgiven.ended, List.pairwise_singleton _ _, ?_⟩
    rintro earlier hearlier later - pos' rfl
    exact absurd hearlier (hopen pos')
  · intro failedAt restart hmem
    rcases List.mem_append.1 hmem with hlog | hreply
    · exact hgiven.backtracked failedAt restart hlog
    · rw [List.mem_singleton, Event.reply] at hreply
      split at hreply <;> cases hreply

theorem append (h : Orderly log s) {o : Outcome T R} (ho : o.Converses s) :
    Orderly (log ++ o.events) s := by
  have hopen : s.more = .incomplete → ∀ pos, Event.inputEnded pos ∉ log ++ o.events := by
    intro hmore pos hmem
    rcases List.mem_append.1 hmem with hlog | hnew
    · exact h.open_of_more hmore pos hlog
    · rcases ho.mem_events hnew with hinner | ⟨-, pos', hsuspending⟩
      · exact hinner
      · cases hsuspending
  have hafter : ∀ earlier ∈ log ++ o.events, ∀ later ∈ o.events, ∀ pos,
      earlier = .inputEnded pos → later.Inner (Chunk.width s.buffer) := by
    rintro _ hearlier later hlater pos rfl
    rcases ho.mem_events hlater with hinner | ⟨hmore, -⟩
    · exact hinner
    · exact absurd hearlier (hopen hmore pos)
  refine ⟨hopen, List.pairwise_append.2 ⟨h.ended, ?_, ?_⟩, ?_⟩
  · refine List.pairwise_of_forall_mem_list ?_
    intro earlier hearlier
    exact hafter earlier (List.mem_append_right log hearlier)
  · intro earlier hearlier
    exact hafter earlier (List.mem_append_left o.events hearlier)
  · intro failedAt restart hmem
    rcases List.mem_append.1 hmem with hlog | hnew
    · exact h.backtracked failedAt restart hlog
    · rcases ho.mem_events hnew with hinner | ⟨-, pos, hsuspending⟩
      · exact hinner
      · cases hsuspending

end Orderly

/-- What holds of a run and its log between two exchanges. -/
structure Exchange (o : Outcome T R) (s : State T) : Prop where
  orderly : Orderly o.events s
  waits {resume : T → Outcome T R} : o.status = .suspended resume → s.more = .incomplete ∧
    ∃ before pos, o.events = before ++ [.suspending pos (Chunk.width s.buffer)] ∧
      Replies s pos resume

theorem Converses.exchange {log : List Event} {o : Outcome T R} {s : State T} (h : o.Converses s)
    (hlog : Orderly log s) : (logAll log o).Exchange s := by
  refine ⟨?_, ?_⟩
  · rw [events_logAll]
    exact hlog.append h
  · intro resume hstatus
    rw [status_logAll] at hstatus
    rcases h.cases with ⟨hstop, -⟩ | ⟨hmore, inner, pos, resume', hevents, -, hwaits, hreplies⟩
    · rw [hstatus] at hstop
      cases hstop
    · cases hstatus.symm.trans hwaits
      refine ⟨hmore, log ++ inner, pos, ?_, hreplies⟩
      rw [events_logAll, hevents, List.append_assoc]

theorem Exchange.feed {o : Outcome T R} {s : State T} (h : o.Exchange s) {c : T}
    (hc : Chunk.width s.buffer + Chunk.width c < Size.storable) :
    (o.feed c).Exchange (s.given c) := by
  cases hstatus : o.status with
  | suspended resume =>
    obtain ⟨hmore, before, pos, -, hreplies⟩ := h.waits hstatus
    obtain ⟨next, hresume, hnext⟩ := hreplies c hc
    rw [feed_eq_logAll, hstatus]
    change (logAll o.events (resume c)).Exchange (s.given c)
    rw [hresume]
    have hexchange := hnext.exchange (h.orderly.reply hmore pos c)
    rw [logAll_append] at hexchange
    exact hexchange
  | _ =>
    refine ⟨?_, ?_⟩
    · rw [events_feed_of_finished (by rw [hstatus]; rfl)]
      exact h.orderly.given c
    · intro resume hresume
      rw [status_feed, hstatus] at hresume
      cases hresume

theorem Exchange.feedAll {o : Outcome T R} {s : State T} (h : o.Exchange s) (cs : List T)
    (hcs : Chunk.width s.buffer + Chunk.totalWidth cs < Size.storable) :
    (o.feedAll cs).Exchange (s.givenAll cs) := by
  induction cs generalizing o s with
  | nil => exact h
  | cons c cs ih =>
    rw [Chunk.totalWidth_cons] at hcs
    refine ih (h.feed (by omega)) ?_
    rw [State.given_buffer, Chunk.width_append]
    omega

theorem Converses.logProtocol {o : Outcome T R} {s : State T} (h : o.Converses s) :
    o.LogProtocol (Chunk.width s.buffer) := by
  have hstart : o.Exchange s :=
    h.exchange ⟨fun _ _ => List.not_mem_nil, .nil, fun _ _ hmem => absurd hmem List.not_mem_nil⟩
  refine ⟨h.endsStep, ?_, ?_, ?_, ?_⟩
  · intro cs c hcs hwait
    have hexchange := hstart.feedAll cs (by omega)
    cases hstatus : (o.feedAll cs).status with
    | suspended resume =>
      obtain ⟨-, before, pos, hevents, hreplies⟩ := hexchange.waits hstatus
      rw [State.width_givenAll] at hevents
      obtain ⟨next, hresume, hnext⟩ := hreplies c (by rw [State.width_givenAll]; exact hcs)
      have hfed : o.feedAll (cs ++ [c])
          = logAll (o.feedAll cs).events (.logged (.reply pos c) next) := by
        rw [feedAll_append, ← hresume]
        change (o.feedAll cs).feed c = _
        rw [feed_eq_logAll, hstatus]
        rfl
      refine ⟨before, pos, (next ()).events, hevents, ?_, ?_⟩
      · rw [hfed, events_logAll]
        rfl
      · have hstep := hnext.endsStep
        rw [State.given_buffer, Chunk.width_append, State.width_givenAll] at hstep
        rw [hfed, status_logAll]
        exact hstep
    | _ => rw [hstatus] at hwait; cases hwait
  · intro cs c hstop
    rw [feedAll_append]
    exact events_feed_of_finished hstop
  · intro cs hcs
    have hended := (hstart.feedAll cs hcs).orderly.ended
    rw [State.width_givenAll] at hended
    exact hended
  · intro cs failedAt restart hcs hmem
    have hback := (hstart.feedAll cs hcs).orderly.backtracked failedAt restart hmem
    rw [State.width_givenAll] at hback
    exact hback

end Outcome

end Piecemeal

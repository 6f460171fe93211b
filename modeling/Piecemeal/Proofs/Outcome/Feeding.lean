import Piecemeal.Outcome.Status
import Piecemeal.Proofs.Chunk.Elements

/-!
# Feeding a run

`feedAll` feeds a run to any length; a finished run keeps what it is fed with its leftover. `Leads`
follows a run only while it waits: `o.Leads events cs o'` says that `o` logs `events`, is resumed
with each of `cs`, and stands at `o'`. `leads_bind_inv` cuts the path of a run that goes on after
another one in two, at the one place where the first ends.

`Alike` runs cannot be told apart by feeding them: after the same increments both wait, or both have
finished in the same way.
-/

namespace Piecemeal

variable {T E A B R : Type}

/-! ## Paths -/

namespace Outcome

/-- From the first outcome to the second: the events logged on the way, and the increments that the
waits were resumed with. -/
inductive Leads : Outcome T R → List Event → List T → Outcome T R → Prop where
  | here (o : Outcome T R) : Leads o [] [] o
  | logged {event : Event} {rest : Unit → Outcome T R} {events : List Event} {cs : List T}
      {o : Outcome T R} : Leads (rest ()) events cs o →
      Leads (.logged event rest) (event :: events) cs o
  | resumed {resume : T → Outcome T R} {c : T} {events : List Event} {cs : List T}
      {o : Outcome T R} : Leads (resume c) events cs o →
      Leads (.suspended resume) events (c :: cs) o

/-- Given `cs`, the run comes to the value while `ds` are still to come. -/
def Comes (o : Outcome T R) (cs : List T) (value : R) (ds : List T) : Prop :=
  ∃ events before leftover, cs = before ++ ds ∧ o.Leads events before (.succeeded leftover value)

theorem comes_succeeded (leftover : T) (value : R) (cs : List T) :
    (succeeded leftover value).Comes cs value cs :=
  ⟨[], [], leftover, rfl, .here _⟩

theorem Comes.logged {event : Event} {rest : Unit → Outcome T R} {cs ds : List T} {value : R}
    (h : (rest ()).Comes cs value ds) : (logged event rest).Comes cs value ds := by
  obtain ⟨events, before, leftover, rfl, hlead⟩ := h
  exact ⟨event :: events, before, leftover, rfl, .logged hlead⟩

theorem Comes.resumed {resume : T → Outcome T R} {c : T} {cs ds : List T} {value : R}
    (h : (resume c).Comes cs value ds) : (suspended resume).Comes (c :: cs) value ds := by
  obtain ⟨events, before, leftover, rfl, hlead⟩ := h
  exact ⟨events, c :: before, leftover, rfl, .resumed hlead⟩

theorem Leads.bind {o o' : Outcome T A} {events : List Event} {cs : List T}
    (h : o.Leads events cs o') (next : A → Outcome T B) :
    (o.bind next).Leads events cs (o'.bind next) := by
  induction h with
  | here => exact .here _
  | logged _ ih => exact .logged ih
  | resumed _ ih => exact .resumed ih

/-- A point of a run that goes on after another is a point of the first run, or it lies behind the
one end of the first run. -/
theorem leads_bind_inv {o : Outcome T A} {next : A → Outcome T B} {events : List Event}
    {cs : List T} {q : Outcome T B} (h : (o.bind next).Leads events cs q) :
    (∃ o', o.Leads events cs o' ∧ q = o'.bind next) ∨
    (∃ first later before behind leftover value, events = first ++ later ∧ cs = before ++ behind ∧
      o.Leads first before (.succeeded leftover value) ∧ (next value).Leads later behind q) := by
  induction o generalizing events cs with
  | failed leftover failure =>
    cases h
    exact .inl ⟨_, .here _, rfl⟩
  | succeeded leftover value => exact .inr ⟨[], events, [], cs, _, _, rfl, rfl, .here _, h⟩
  | suspended resume ih =>
    cases h with
    | here => exact .inl ⟨_, .here _, rfl⟩
    | resumed h =>
      rcases ih _ h with ⟨o', hlead, hq⟩ |
        ⟨first, later, before, behind, l, v, rfl, rfl, hlead, hnext⟩
      · exact .inl ⟨o', .resumed hlead, hq⟩
      · exact .inr ⟨first, later, _ :: before, behind, l, v, rfl, rfl, .resumed hlead, hnext⟩
  | logged event rest ih =>
    cases h with
    | here => exact .inl ⟨_, .here _, rfl⟩
    | logged h =>
      rcases ih _ h with ⟨o', hlead, hq⟩ |
        ⟨first, later, before, behind, l, v, rfl, rfl, hlead, hnext⟩
      · exact .inl ⟨o', .logged hlead, hq⟩
      · exact .inr ⟨_ :: first, later, before, behind, l, v, rfl, rfl, .logged hlead, hnext⟩
  | faulted fault =>
    cases h
    exact .inl ⟨_, .here _, rfl⟩

/-! ## Where a run has come to -/

def logAll (events : List Event) (o : Outcome T R) : Outcome T R :=
  events.foldr (fun event rest => .logged event fun _ => rest) o

@[simp] theorem status_logAll (events : List Event) (o : Outcome T R) :
    (logAll events o).status = o.status := by
  induction events with
  | nil => rfl
  | cons event events ih => exact ih

def Finished : Outcome T R → Prop
  | failed _ _ => True
  | succeeded _ _ => True
  | _ => False

def value? : Outcome T R → Option R
  | succeeded _ value => some value
  | logged _ rest => (rest ()).value?
  | _ => none

theorem value?_bind (o : Outcome T A) (next : A → Outcome T B) :
    (o.bind next).value? = o.value?.bind fun value => (next value).value? := by
  induction o with
  | failed => rfl
  | succeeded => rfl
  | suspended => rfl
  | logged _ _ ih => exact ih ()
  | faulted => rfl

theorem value?_bind_of_value? {o : Outcome T A} {value : A} (h : o.value? = some value)
    (next : A → Outcome T B) : (o.bind next).value? = (next value).value? := by
  rw [value?_bind, h, Option.bind_some]

theorem status_bind_of_value? {o : Outcome T A} {value : A} (h : o.value? = some value)
    (next : A → Outcome T B) : (o.bind next).status = (next value).status := by
  induction o with
  | succeeded _ v => exact Option.some.inj h ▸ rfl
  | logged _ _ ih => exact ih () h
  | _ => cases h

/-! ## Feeding on and on -/

def feedAll [Chunk T E] (o : Outcome T R) (cs : List T) : Outcome T R := cs.foldl feed o

variable [Chunk T E]

@[simp] theorem feedAll_nil (o : Outcome T R) : o.feedAll [] = o := rfl

theorem feedAll_failed (leftover : T) (failure : Failure) (cs : List T) :
    (failed leftover failure : Outcome T R).feedAll cs
      = failed (Chunk.appendAll leftover cs) failure := by
  induction cs generalizing leftover with
  | nil => rfl
  | cons c cs ih => exact ih (Chunk.append leftover c)

theorem feedAll_succeeded (leftover : T) (value : R) (cs : List T) :
    (succeeded leftover value).feedAll cs = succeeded (Chunk.appendAll leftover cs) value := by
  induction cs generalizing leftover with
  | nil => rfl
  | cons c cs ih => exact ih (Chunk.append leftover c)

theorem feedAll_faulted (fault : Fault) (cs : List T) :
    (faulted fault : Outcome T R).feedAll cs = faulted fault := by
  induction cs with
  | nil => rfl
  | cons c cs ih => exact ih

theorem feedAll_logged (event : Event) (rest : Unit → Outcome T R) (cs : List T) :
    (logged event rest).feedAll cs = logged event fun u => (rest u).feedAll cs := by
  induction cs generalizing rest with
  | nil => rfl
  | cons c cs ih => exact ih fun u => (rest u).feed c

theorem feedAll_append (o : Outcome T R) (cs ds : List T) :
    o.feedAll (cs ++ ds) = (o.feedAll cs).feedAll ds := List.foldl_append

/-- After the increments of a path, the run has logged the events of the path and stands where the
path ends. -/
theorem Leads.feedAll_append {o q : Outcome T R} {events : List Event} {cs : List T}
    (h : o.Leads events cs q) (ds : List T) :
    o.feedAll (cs ++ ds) = logAll events (q.feedAll ds) := by
  induction h with
  | here => rfl
  | @logged event rest events cs q _ ih =>
    rw [feedAll_logged]
    exact congrArg (Outcome.logged event) (funext fun _ => ih)
  | resumed _ ih => exact ih

/-- Feeding looks at where a run stands, not at what it has logged. -/
theorem status_feed (o : Outcome T R) (c : T) :
    (o.feed c).status = (o.status.toOutcome.feed c).status := by
  induction o with
  | logged _ _ ih => exact ih ()
  | _ => rfl

theorem status_feedAll (o : Outcome T R) (cs : List T) :
    (o.feedAll cs).status = (o.status.toOutcome.feedAll cs).status := by
  induction o with
  | logged event rest ih =>
    rw [feedAll_logged]
    exact ih ()
  | _ => rfl

end Outcome

namespace Status

/-- What a finished run left of the input. -/
def leftover? : Status T R → Option T
  | failed leftover _ => some leftover
  | succeeded leftover _ => some leftover
  | _ => none

def isSuspended : Status T R → Bool
  | suspended _ => true
  | _ => false

theorem exists_leftover? {st : Status T R} (hwait : st.isSuspended = false)
    (hfault : st.isFaulted = false) : ∃ leftover, st.leftover? = some leftover := by
  cases st with
  | failed leftover failure => exact ⟨leftover, rfl⟩
  | succeeded leftover value => exact ⟨leftover, rfl⟩
  | suspended resume => cases hwait
  | faulted fault => cases hfault

/-- Both runs wait, or both have finished in the same way. -/
def Matches : Status T R → Status T R → Prop
  | failed leftover failure, failed leftover' failure' => leftover = leftover' ∧ failure = failure'
  | succeeded leftover value, succeeded leftover' value' => leftover = leftover' ∧ value = value'
  | suspended _, suspended _ => True
  | _, _ => False

theorem matches_of_eq {st st' : Status T R} (h : st = st') (hfault : st'.isFaulted = false) :
    st.Matches st' := by
  subst h
  cases st with
  | failed => exact ⟨rfl, rfl⟩
  | succeeded => exact ⟨rfl, rfl⟩
  | suspended => trivial
  | faulted => cases hfault

theorem eq_of_agrees [DecidableEq T] [DecidableEq R] {st st' : Status T R}
    (h : st.agrees (fun v w => decide (v = w)) st' = true) : st = st' := by
  cases st <;> cases st' <;> simp_all [agrees]

theorem matches_of_isSuspended {st st' : Status T R} (h : st.isSuspended = true)
    (h' : st'.isSuspended = true) : st.Matches st' := by
  cases st <;> cases h
  cases st' <;> cases h'
  trivial

theorem Matches.symm : {st st' : Status T R} → st.Matches st' → st'.Matches st
  | failed _ _, failed _ _, ⟨hleftover, hfailure⟩ => ⟨hleftover.symm, hfailure.symm⟩
  | succeeded _ _, succeeded _ _, ⟨hleftover, hvalue⟩ => ⟨hleftover.symm, hvalue.symm⟩
  | suspended _, suspended _, _ => trivial

theorem Matches.trans : {st st' st'' : Status T R} → st.Matches st' → st'.Matches st'' →
    st.Matches st''
  | failed _ _, failed _ _, failed _ _, h, h' => ⟨h.1.trans h'.1, h.2.trans h'.2⟩
  | succeeded _ _, succeeded _ _, succeeded _ _, h, h' => ⟨h.1.trans h'.1, h.2.trans h'.2⟩
  | suspended _, suspended _, suspended _, _, _ => trivial

end Status

namespace Outcome

variable [Chunk T E]

/-- After any increments of less than `room` bytes in all, the two runs stand alike. -/
def Alike (room : Nat) (o o' : Outcome T R) : Prop :=
  ∀ cs : List T, Chunk.totalWidth cs < room → (o.feedAll cs).status.Matches (o'.feedAll cs).status

/-- A run that has finished stays as it is, but for its leftover. -/
theorem alike_of_finished {o o' : Outcome T R} {room : Nat} (h : o.status = o'.status)
    (hfinished : o.status.leftover? ≠ none) : o.Alike room o' := by
  intro cs _
  rw [status_feedAll o, status_feedAll o', ← h]
  cases hstatus : o.status with
  | failed leftover failure =>
    rw [Status.toOutcome, feedAll_failed]
    exact ⟨rfl, rfl⟩
  | succeeded leftover value =>
    rw [Status.toOutcome, feedAll_succeeded]
    exact ⟨rfl, rfl⟩
  | suspended resume => rw [hstatus] at hfinished; exact absurd rfl hfinished
  | faulted fault => rw [hstatus] at hfinished; exact absurd rfl hfinished

/-- The leftover of a finished run is what was left when it finished, and all that it was fed
since. -/
theorem leads_of_leftover {o : Outcome T R} {cs : List T} {leftover : T}
    (h : (o.feedAll cs).status.leftover? = some leftover) :
    ∃ events before behind o' rest, cs = before ++ behind ∧ o.Leads events before o' ∧ o'.Finished ∧
      o'.status.leftover? = some rest ∧ leftover = Chunk.appendAll rest behind := by
  induction o generalizing cs with
  | failed rest failure =>
    rw [feedAll_failed] at h
    exact ⟨[], [], cs, _, rest, rfl, .here _, trivial, rfl, (Option.some.inj h).symm⟩
  | succeeded rest value =>
    rw [feedAll_succeeded] at h
    exact ⟨[], [], cs, _, rest, rfl, .here _, trivial, rfl, (Option.some.inj h).symm⟩
  | suspended resume ih =>
    cases cs with
    | nil => cases h
    | cons c cs =>
      obtain ⟨events, before, behind, o', rest, rfl, hlead, hend⟩ := ih c h
      exact ⟨events, c :: before, behind, o', rest, rfl, .resumed hlead, hend⟩
  | logged event tail ih =>
    rw [feedAll_logged] at h
    obtain ⟨events, before, behind, o', rest, rfl, hlead, hend⟩ := ih () h
    exact ⟨event :: events, before, behind, o', rest, rfl, .logged hlead, hend⟩
  | faulted fault =>
    rw [feedAll_faulted] at h
    cases h

end Outcome

end Piecemeal

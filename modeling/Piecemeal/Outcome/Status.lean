import Piecemeal.Outcome.Basic

/-!
# Where a run stands

`Outcome.settle` lets a run go on until it finishes or waits, and returns the events logged on
the way with the status reached. A status has a result, a rendering and an equality: two that
wait are never equal, because what they will do cannot be compared.
-/

namespace Piecemeal

/-- Where a run stands once it has nothing more to log. -/
inductive Status (T R : Type) where
  /-- The parser failed, with this much input left. -/
  | failed (leftover : T) (failure : Failure)
  /-- The parser succeeded, with this much input left. -/
  | succeeded (leftover : T) (value : R)
  /-- The run waits for an increment. -/
  | suspended (resume : T → Outcome T R)
  /-- The run was broken off by a fault. -/
  | faulted (fault : Fault)

namespace Outcome

variable {T R : Type}

/-- The events logged before the run finishes or waits. -/
def events : Outcome T R → List Event
  | logged event rest => event :: (rest ()).events
  | _ => []

def status : Outcome T R → Status T R
  | failed leftover failure => .failed leftover failure
  | succeeded leftover value => .succeeded leftover value
  | suspended resume => .suspended resume
  | logged _ rest => (rest ()).status
  | faulted fault => .faulted fault

/-- The events added to an earlier log, and the status, in one walk. -/
def settleInto (log : Array Event) : Outcome T R → Array Event × Status T R
  | failed leftover failure => (log, .failed leftover failure)
  | succeeded leftover value => (log, .succeeded leftover value)
  | suspended resume => (log, .suspended resume)
  | logged event rest => settleInto (log.push event) (rest ())
  | faulted fault => (log, .faulted fault)

def settle (o : Outcome T R) : List Event × Status T R :=
  let (log, status) := o.settleInto #[]
  (log.toList, status)

theorem settleInto_eq (log : Array Event) (o : Outcome T R) :
    o.settleInto log = (log ++ o.events.toArray, o.status) := by
  induction o generalizing log with
  | failed => simp [settleInto, events, status]
  | succeeded => simp [settleInto, events, status]
  | suspended => simp [settleInto, events, status]
  | logged event rest ih => simp [settleInto, events, status, ih]
  | faulted => simp [settleInto, events, status]

theorem settle_eq (o : Outcome T R) : o.settle = (o.events, o.status) := by
  simp [settle, settleInto_eq]

end Outcome

namespace Status

variable {T E A R S : Type}

def toOutcome : Status T R → Outcome T R
  | failed leftover failure => .failed leftover failure
  | succeeded leftover value => .succeeded leftover value
  | suspended resume => .suspended resume
  | faulted fault => .faulted fault

def map (f : R → S) : Status T R → Status T S
  | failed leftover failure => .failed leftover failure
  | succeeded leftover value => .succeeded leftover (f value)
  | suspended resume => .suspended fun c => (resume c).map f
  | faulted fault => .faulted fault

def isFaulted : Status T R → Bool
  | faulted _ => true
  | _ => false

/-- What is left and the value, or why there is none; nothing after a fault. -/
def result? : Status T R → Option (Except ParseError (T × R))
  | failed _ failure => some (.error (.failed failure))
  | succeeded leftover value => some (.ok (leftover, value))
  | suspended _ => some (.error .incomplete)
  | faulted _ => none

/-- The two runs finished in the same way, with the same input left and the same failure or
value. -/
def agrees [DecidableEq T] (same : R → R → Bool) : Status T R → Status T R → Bool
  | failed l f, failed l' f' => l = l' && f = f'
  | succeeded l v, succeeded l' v' => l = l' && same v v'
  | _, _ => false

def literal [Chunk T E] (value : R → String) : Status T R → String
  | failed leftover failure =>
    "Failed \x7b leftover: " ++ Chunk.literal leftover ++ ", context: " ++ failure.contextLiteral
      ++ ", message: " ++ Literal.quoteString failure.message ++ " \x7d"
  | succeeded leftover v =>
    "Succeeded \x7b leftover: " ++ Chunk.literal leftover ++ ", value: " ++ value v ++ " \x7d"
  | suspended _ => "Suspended(<continuation>)"
  | faulted fault => fault.message

@[simp] theorem status_toOutcome (s : Status T R) : s.toOutcome.status = s := by cases s <;> rfl

@[simp] theorem events_toOutcome (s : Status T R) : s.toOutcome.events = [] := by cases s <;> rfl

theorem status_map (f : R → S) (o : Outcome T R) : (o.map f).status = o.status.map f := by
  induction o with
  | logged _ _ ih => exact ih ()
  | _ => rfl

theorem events_map (f : R → S) (o : Outcome T R) : (o.map f).events = o.events := by
  induction o with
  | logged _ _ ih => exact congrArg (List.cons _) (ih ())
  | _ => rfl

end Status

end Piecemeal

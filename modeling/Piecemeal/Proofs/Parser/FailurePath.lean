import Piecemeal.Proofs.Parser.Continuation

/-!
# Where a failure comes from

A `FailurePath` leads from a parser down to one of its parts, along the ways that a failure of the
part takes up: from the second side of a choice but not from the first, from the first of two
parsers in turn and from the one that its value selects, but never out of a repetition. The labels
on the path are the context that the failure collects.

Every failure of a closed parser comes from one primitive part, which the run came to and which
failed there by itself (`Explains`): there is such a path (`exists_explains`), what a path explains
happens (`Explains.leads`), and two paths that explain the same run are one (`Explains.unique`).
-/

namespace Piecemeal

open Verdict

variable {T E A B R : Type}

namespace Outcome

/-! ## One end for the increments given -/

theorem Leads.trans {o o' o'' : Outcome T R} {events events' : List Event} {cs cs' : List T}
    (h : o.Leads events cs o') (h' : o'.Leads events' cs' o'') :
    o.Leads (events ++ events') (cs ++ cs') o'' := by
  induction h with
  | here => exact h'
  | logged _ ih => exact .logged (ih h')
  | resumed _ ih => exact .resumed (ih h')

theorem Leads.unique {o : Outcome T R} {events events' : List Event} {cs cs' ds ds' : List T}
    {leftover leftover' : T} {value value' : R} (h : o.Leads events cs (.succeeded leftover value))
    (h' : o.Leads events' cs' (.succeeded leftover' value')) (hcs : cs ++ ds = cs' ++ ds') :
    value = value' ∧ ds = ds' := by
  induction o generalizing events events' cs cs' with
  | failed => cases h
  | succeeded l v =>
    cases h
    cases h'
    exact ⟨rfl, hcs⟩
  | suspended resume ih =>
    cases h with
    | resumed h =>
      cases h' with
      | resumed h' =>
        obtain ⟨rfl, hrest⟩ := List.cons_eq_cons.1 hcs
        exact ih _ h h' hrest
  | logged event rest ih =>
    cases h with
    | logged h =>
      cases h' with
      | logged h' => exact ih () h h' hcs
  | faulted => cases h

end Outcome

open Outcome

/-! ## Paths -/

/-- A way from a parser down to one of its parts, that failures of the part take up. -/
inductive FailurePath : {A : Type} → Parser T E A → Type 1 where
  /-- The parser itself. -/
  | here {A : Type} (parser : Parser T E A) : FailurePath parser
  /-- The second side of a choice. -/
  | alternative {A : Type} {first second : Parser T E A} :
      FailurePath second → FailurePath (.orElse first second)
  /-- The first of two parsers in turn. -/
  | leading {A B : Type} {first : Parser T E A} {next : A → Parser T E B} :
      FailurePath first → FailurePath (.andThen first next)
  /-- The parser that the value of the first one selects. -/
  | selected {A B : Type} {first : Parser T E A} {next : A → Parser T E B} (value : A) :
      FailurePath (next value) → FailurePath (.andThen first next)
  /-- The parser whose values are mapped. -/
  | mapped {A B : Type} {f : A → B} {parser : Parser T E A} :
      FailurePath parser → FailurePath (.map f parser)
  /-- The parser with a label. -/
  | labelled {A : Type} {name : String} {parser : Parser T E A} :
      FailurePath parser → FailurePath (.label name parser)

namespace FailurePath

/-- The labels on the path, outermost first. -/
def labels : {A : Type} → {parser : Parser T E A} → FailurePath parser → List String
  | _, _, here _ => []
  | _, _, alternative path => path.labels
  | _, _, leading path => path.labels
  | _, _, selected _ path => path.labels
  | _, _, mapped path => path.labels
  | _, .label name _, labelled path => name :: path.labels

def part : {A : Type} → {parser : Parser T E A} → FailurePath parser → (B : Type) × Parser T E B
  | A, _, here parser => ⟨A, parser⟩
  | _, _, alternative path => path.part
  | _, _, leading path => path.part
  | _, _, selected _ path => path.part
  | _, _, mapped path => path.part
  | _, _, labelled path => path.part

/-- The run of the parser from `s` comes to the part in the state `start`, once it was given `cs`:
the first side of each choice on the way failed, and each parser before another came to the value
that selects it. -/
def Reaches [Chunk T E] : {A : Type} → {parser : Parser T E A} → FailurePath parser →
    State T → List T → State T → Prop
  | _, _, here _, s, cs, start => cs = [] ∧ start = s
  | _, .orElse first _, alternative path, s, cs, start =>
    ∃ events before behind buffer failed failure, cs = before ++ behind ∧
      (first.verdict s).Leads events before (.succeeded buffer (.lost failed failure)) ∧
      path.Reaches (failed.moveTo s.pos) behind start
  | _, _, leading path, s, cs, start => path.Reaches s cs start
  | _, .andThen first _, selected value path, s, cs, start =>
    ∃ events before behind buffer mid, cs = before ++ behind ∧
      (first.verdict s).Leads events before (.succeeded buffer (.won mid value)) ∧
      path.Reaches mid behind start
  | _, _, mapped path, s, cs, start => path.Reaches s cs start
  | _, _, labelled path, s, cs, start => path.Reaches s cs start

end FailurePath

/-! ## Failures of primitive parsers -/

namespace Parser

variable [Chunk T E]

/-- The failures that a primitive parser raises in a state. Other parsers raise none: they pass on
those of their parts. -/
def Objects : {A : Type} → Parser T E A → State T → Failure → Prop
  | _, fail reason, _, own => own = .reading reason
  | _, accept refusal, t, own => own = .notEnoughInput ∨
    ∃ window found reason, Chunk.substring t.buffer t.pos.offset 1 = .ok window ∧
      Chunk.head window = .ok found ∧ refusal found = some reason ∧ own = .reading reason
  | _, demandInput, _, own => own = .notEnoughInput
  | _, ensure _, _, own => own = .notEnoughInput
  | _, take _, _, own => own = .notEnoughInput
  | _, endOfInput, _, own => own = .endOfInput
  | _, _, _, _ => False

theorem Objects.context {parser : Parser T E A} {t : State T} {own : Failure}
    (h : parser.Objects t own) : own.context = [] := by
  cases parser with
  | accept refusal =>
    rcases h with rfl | ⟨window, found, reason, -, -, -, rfl⟩
    · rfl
    · rfl
  | fail => cases h; rfl
  | demandInput => cases h; rfl
  | ensure => cases h; rfl
  | take => cases h; rfl
  | endOfInput => cases h; rfl
  | _ => exact h.elim

/-- Started in `start` and given `cs`, the parser fails in the state `t` for a reason of its own,
without having consumed anything. -/
structure FailsItself (parser : Parser T E A) (start : State T) (cs : List T) (t : State T)
    (own : Failure) : Prop where
  leads : ∃ events buffer, (parser.verdict start).Leads events cs (.succeeded buffer (.lost t own))
  pos : t.pos = start.pos
  objects : parser.Objects t own

/-- However it is resumed, the parser only fails where it started and for a reason of its own. -/
def FailsAlone (parser : Parser T E A) (s : State T) : Prop :=
  (parser.verdict s).Heeds False (fun
    | _, .lost t own => t.pos = s.pos ∧ parser.Objects t own
    | _, .won _ _ => True) s.more

theorem failsAlone_accept (refusal : E → Option String) (s : State T) :
    (accept refusal).FailsAlone s := by
  refine heeds_ensuring ?_ ?_
  · intro t ht
    exact ⟨ht, .inl rfl⟩
  · intro t window ht hwindow
    refine heeds_require fun found hfound => ?_
    split
    · trivial
    · next reason hreason =>
      exact ⟨ht, .inr ⟨window, found, reason, hwindow, hfound, hreason, rfl⟩⟩

theorem failsAlone_demandInput (s : State T) :
    (demandInput : Parser T E Unit).FailsAlone s := by
  unfold FailsAlone
  simp only [verdict, run]
  split
  · exact ⟨rfl, rfl⟩
  · next hmore => exact heeds_prompt hmore (fun t ht => ⟨ht, rfl⟩) fun _ _ _ => trivial

theorem failsAlone_wantInput (s : State T) : (wantInput : Parser T E Bool).FailsAlone s :=
  heeds_looking (fun _ _ => trivial) fun _ _ => trivial

theorem failsAlone_endOfInput (s : State T) : (endOfInput : Parser T E Unit).FailsAlone s :=
  heeds_looking (fun _ ht => ⟨ht, rfl⟩) fun _ _ => trivial

/-- A parser that waits for elements, and then succeeds, fails alone. -/
theorem failsAlone_of_ensuring {parser : Parser T E A} {n : Nat} {s : State T}
    {win : Win T T (Verdict T A)} (hrun : parser.verdict s = ensuring n s losing win)
    (hobjects : ∀ t, parser.Objects t .notEnoughInput)
    (hwin : ∀ t window, ∃ buffer next value, win t window = .succeeded buffer (.won next value)) :
    parser.FailsAlone s := by
  unfold FailsAlone
  rw [hrun]
  refine heeds_ensuring (fun t ht => ⟨ht, hobjects t⟩) ?_
  intro t window _ _
  obtain ⟨buffer, next, value, heq⟩ := hwin t window
  rw [heq]
  trivial

theorem failsAlone_manyAfter (found : List A) (parser : Parser T E A) (closed : parser.Closed)
    (s : State T) : (manyAfter found parser).FailsAlone s := by
  refine heeds_repeating (fun t => ?_) fun _ _ _ => trivial
  exact (parser.heeds_verdict closed t).mono fun _ _ h => h.1

end Parser

open Piecemeal.Parser

namespace FailurePath

variable [Chunk T E]

/-- The path leads to where the failure comes from: the run comes to the part, and the part fails
there by itself. -/
def Explains {parser : Parser T E A} (path : FailurePath parser) (s : State T) (cs : List T)
    (t : State T) (own : Failure) : Prop :=
  ∃ start before behind, cs = before ++ behind ∧ path.Reaches s before start ∧
    path.part.2.FailsItself start behind t own

theorem Explains.objects {parser : Parser T E A} {path : FailurePath parser} {s t : State T}
    {cs : List T} {own : Failure} (h : path.Explains s cs t own) : path.part.2.Objects t own := by
  obtain ⟨start, before, behind, -, -, hfails⟩ := h
  exact hfails.objects

theorem explains_alternative {first second : Parser T E A} {path : FailurePath second}
    {s t : State T} {cs : List T} {own : Failure} :
    (alternative path : FailurePath (.orElse first second)).Explains s cs t own ↔
      ∃ events before behind buffer failed failure, cs = before ++ behind ∧
        (first.verdict s).Leads events before (.succeeded buffer (.lost failed failure)) ∧
        path.Explains (failed.moveTo s.pos) behind t own := by
  constructor
  · rintro ⟨start, _, last, rfl, ⟨ev, before, mid, buffer, failed, f, rfl, hfirst, hreach⟩, hfails⟩
    exact ⟨ev, before, mid ++ last, buffer, failed, f, List.append_assoc _ _ _, hfirst, start, mid,
      last, rfl, hreach, hfails⟩
  · rintro ⟨ev, before, _, buffer, failed, f, rfl, hfirst, start, mid, last, rfl, hreach, hfails⟩
    exact ⟨start, before ++ mid, last, (List.append_assoc _ _ _).symm,
      ⟨ev, before, mid, buffer, failed, f, rfl, hfirst, hreach⟩, hfails⟩

theorem explains_selected {first : Parser T E A} {next : A → Parser T E B} {value : A}
    {path : FailurePath (next value)} {s t : State T} {cs : List T} {own : Failure} :
    (selected value path : FailurePath (.andThen first next)).Explains s cs t own ↔
      ∃ events before behind buffer mid, cs = before ++ behind ∧
        (first.verdict s).Leads events before (.succeeded buffer (.won mid value)) ∧
        path.Explains mid behind t own := by
  constructor
  · rintro ⟨start, _, last, rfl, ⟨ev, before, later, buffer, mid, rfl, hfirst, hreach⟩, hfails⟩
    exact ⟨ev, before, later ++ last, buffer, mid, List.append_assoc _ _ _, hfirst, start, later,
      last, rfl, hreach, hfails⟩
  · rintro ⟨ev, before, _, buffer, mid, rfl, hfirst, start, later, last, rfl, hreach, hfails⟩
    exact ⟨start, before ++ later, last, (List.append_assoc _ _ _).symm,
      ⟨ev, before, later, buffer, mid, rfl, hfirst, hreach⟩, hfails⟩

theorem explains_here {parser : Parser T E A} {s t : State T} {own : Failure}
    (halone : parser.FailsAlone s) {events : List Event} {cs : List T}
    {buffer : T} (h : (parser.verdict s).Leads events cs (.succeeded buffer (.lost t own))) :
    ∃ path : FailurePath parser, ∃ raised, path.Explains s cs t raised ∧
      own = ⟨path.labels, raised.message⟩ := by
  obtain ⟨-, hpos, hobjects⟩ := halone.leads h
  refine ⟨here parser, own, ⟨s, [], cs, rfl, ⟨rfl, rfl⟩, ⟨events, buffer, h⟩, hpos, hobjects⟩, ?_⟩
  have hcontext := hobjects.context
  cases own
  cases hcontext
  rfl

/-- Every failure comes from a primitive part, and collects the labels on the way up. -/
theorem exists_explains (parser : Parser T E A) (closed : parser.Closed) {s t : State T}
    {failure : Failure} {events : List Event} {cs : List T} {buffer : T}
    (h : (parser.verdict s).Leads events cs (.succeeded buffer (.lost t failure))) :
    ∃ path : FailurePath parser, ∃ own, path.Explains s cs t own ∧
      failure = ⟨path.labels, own.message⟩ := by
  induction parser generalizing s t failure events cs buffer with
  | succeed =>
    refine explains_here ?_ h
    trivial
  | fail =>
    refine explains_here ?_ h
    exact ⟨rfl, rfl⟩
  | accept refusal => exact explains_here (failsAlone_accept refusal s) h
  | demandInput => exact explains_here (failsAlone_demandInput s) h
  | wantInput => exact explains_here (failsAlone_wantInput s) h
  | ensure n =>
    refine explains_here (failsAlone_of_ensuring rfl ?_ ?_) h
    · exact fun _ => rfl
    · exact fun t window => ⟨_, t, window, rfl⟩
  | take n =>
    refine explains_here (failsAlone_of_ensuring rfl ?_ ?_) h
    · exact fun _ => rfl
    · exact fun t window => ⟨_, t.advance (Chunk.width window), window, rfl⟩
  | endOfInput => exact explains_here (failsAlone_endOfInput s) h
  | manyAfter found parser => exact explains_here (failsAlone_manyAfter found parser closed s) h
  | orElse first second ihFirst ihSecond =>
    obtain ⟨ev, later, before, behind, rest, v, -, rfl, hfirst, hgo⟩ :=
      leads_call first closed.1 h trivial
    cases v with
    | won next value => cases hgo
    | lost failed f =>
      cases hgo with
      | logged hsecond =>
        obtain ⟨path, own, hexplains, rfl⟩ := ihSecond closed.2 hsecond
        refine ⟨alternative path, own, explains_alternative.2 ?_, rfl⟩
        exact ⟨ev, before, behind, rest, failed, f, rfl, hfirst, hexplains⟩
  | andThen first next ihFirst ihNext =>
    obtain ⟨ev, later, before, behind, rest, v, -, rfl, hfirst, hgo⟩ :=
      leads_call first closed.1 h trivial
    cases v with
    | lost failed f =>
      cases hgo
      rw [List.append_nil]
      obtain ⟨path, own, hexplains, rfl⟩ := ihFirst closed.1 hfirst
      exact ⟨leading path, own, hexplains, rfl⟩
    | won mid value =>
      obtain ⟨path, own, hexplains, rfl⟩ := ihNext value (closed.2 value) hgo
      refine ⟨selected value path, own, explains_selected.2 ?_, rfl⟩
      exact ⟨ev, before, behind, rest, mid, rfl, hfirst, hexplains⟩
  | map f parser ih =>
    obtain ⟨ev, later, before, behind, rest, v, -, rfl, hparser, hgo⟩ :=
      leads_call parser closed h trivial
    cases v with
    | won => cases hgo
    | lost failed f =>
      cases hgo
      rw [List.append_nil]
      obtain ⟨path, own, hexplains, rfl⟩ := ih closed hparser
      exact ⟨mapped path, own, hexplains, rfl⟩
  | label name parser ih =>
    obtain ⟨ev, later, before, behind, rest, v, -, rfl, hparser, hgo⟩ :=
      leads_call parser closed h trivial
    cases v with
    | won => cases hgo
    | lost failed f =>
      cases hgo
      rw [List.append_nil]
      obtain ⟨path, own, hexplains, rfl⟩ := ih closed hparser
      exact ⟨labelled path, own, hexplains, rfl⟩
  | custom => exact closed.elim

/-- What a path explains happens: the failure of the part is that of the whole. -/
theorem Explains.leads {parser : Parser T E A} {path : FailurePath parser}
    (closed : parser.Closed) {s t : State T} {cs : List T} {own : Failure}
    (h : path.Explains s cs t own) :
    ∃ events buffer, (parser.verdict s).Leads events cs
      (.succeeded buffer (.lost t ⟨path.labels, own.message⟩)) := by
  induction path generalizing s cs with
  | here parser =>
    obtain ⟨start, before, behind, rfl, ⟨rfl, rfl⟩, ⟨ev, buffer, hlead⟩, -, hobjects⟩ := h
    have hown : own = ⟨[], own.message⟩ := hobjects.context ▸ rfl
    exact ⟨ev, buffer, hown ▸ hlead⟩
  | alternative path ih =>
    obtain ⟨ev, before, behind, rest, failed, f, rfl, hfirst, hexplains⟩ :=
      explains_alternative.1 h
    obtain ⟨later, buffer, hsecond⟩ := ih closed.2 hexplains
    rw [verdict_orElse closed]
    exact ⟨_, buffer, (hfirst.bind _).trans (.logged hsecond)⟩
  | leading path ih =>
    obtain ⟨ev, buffer, hfirst⟩ := ih closed.1 h
    rw [verdict_andThen closed]
    exact ⟨ev, _, hfirst.bind _⟩
  | selected value path ih =>
    obtain ⟨ev, before, behind, rest, mid, rfl, hfirst, hexplains⟩ := explains_selected.1 h
    obtain ⟨later, buffer, hnext⟩ := ih (closed.2 value) hexplains
    rw [verdict_andThen closed]
    exact ⟨_, buffer, (hfirst.bind _).trans hnext⟩
  | @mapped A B f parser path ih =>
    obtain ⟨ev, buffer, hparser⟩ := ih closed h
    rw [verdict_map f parser closed]
    exact ⟨ev, _, hparser.bind _⟩
  | @labelled A name parser path ih =>
    obtain ⟨ev, buffer, hparser⟩ := ih closed h
    rw [verdict_label name parser closed]
    exact ⟨ev, _, hparser.bind _⟩

theorem Explains.unique {parser : Parser T E A} {path other : FailurePath parser}
    (closed : parser.Closed) {s t t' : State T} {cs cs' ds ds' : List T} {own own' : Failure}
    (h : path.Explains s cs t own) (h' : other.Explains s cs' t' own')
    (hcs : cs ++ ds = cs' ++ ds') : other = path := by
  induction path generalizing s cs cs' with
  | here parser =>
    have hobjects := h.objects
    cases other with
    | here => rfl
    | _ => exact hobjects.elim
  | alternative path ih =>
    cases other with
    | here => exact h'.objects.elim
    | alternative other =>
      obtain ⟨ev, before, behind, rest, failed, f, rfl, hfirst, hexplains⟩ :=
        explains_alternative.1 h
      obtain ⟨ev', before', behind', rest', failed', f', rfl, hfirst', hexplains'⟩ :=
        explains_alternative.1 h'
      rw [List.append_assoc, List.append_assoc] at hcs
      obtain ⟨heq, hrest⟩ := hfirst.unique hfirst' hcs
      cases heq
      rw [ih closed.2 hexplains hexplains' hrest]
  | leading path ih =>
    cases other with
    | here => exact h'.objects.elim
    | leading other => rw [ih closed.1 h h' hcs]
    | selected value other =>
      have hleading : path.Explains s cs t own := h
      obtain ⟨ev, buffer, hlost⟩ := hleading.leads closed.1
      obtain ⟨ev', before, behind, rest, mid, rfl, hwon, -⟩ := explains_selected.1 h'
      rw [List.append_assoc] at hcs
      cases (hlost.unique hwon hcs).1
  | selected value path ih =>
    cases other with
    | here => exact h'.objects.elim
    | leading other =>
      have hleading : other.Explains s cs' t' own' := h'
      obtain ⟨ev, buffer, hlost⟩ := hleading.leads closed.1
      obtain ⟨ev', before, behind, rest, mid, rfl, hwon, -⟩ := explains_selected.1 h
      rw [List.append_assoc] at hcs
      cases (hwon.unique hlost hcs).1
    | selected value' other =>
      obtain ⟨ev, before, behind, rest, mid, rfl, hfirst, hexplains⟩ := explains_selected.1 h
      obtain ⟨ev', before', behind', rest', mid', rfl, hfirst', hexplains'⟩ :=
        explains_selected.1 h'
      rw [List.append_assoc, List.append_assoc] at hcs
      obtain ⟨heq, hrest⟩ := hfirst.unique hfirst' hcs
      cases heq
      rw [ih (closed.2 value) hexplains hexplains' hrest]
  | mapped path ih =>
    cases other with
    | here => exact h'.objects.elim
    | mapped other => rw [ih closed h h' hcs]
  | labelled path ih =>
    cases other with
    | here => exact h'.objects.elim
    | labelled other => rw [ih closed h h' hcs]

end FailurePath

namespace Parser

variable [Chunk T E]

theorem lost_of_stop {v : Verdict T A} {events : List Event} {cs : List T} {rest : T}
    {failure : Failure}
    (h : (v.resolve stopFailed stopSucceeded).Leads events cs (.failed rest failure)) :
    ∃ t, v = .lost t failure ∧ cs = [] ∧ Chunk.drop t.buffer t.pos.offset = .ok rest := by
  cases hdrop : Chunk.drop v.state.buffer v.state.pos.offset with
  | ok left =>
    rw [resolve_stop v hdrop] at h
    cases v with
    | lost t f => cases h; exact ⟨t, rfl, rfl, hdrop⟩
    | won t value => cases h
  | error fault =>
    cases v with
    | lost t f =>
      rw [Verdict.state_lost] at hdrop
      simp only [resolve, stopFailed, hdrop, require] at h
      cases h
    | won t value =>
      rw [Verdict.state_won] at hdrop
      simp only [resolve, stopSucceeded, hdrop, require] at h
      cases h

theorem lost_of_failed {parser : Parser T E A} (closed : parser.Closed) {s : State T} {cs : List T}
    {leftover : T} {failure : Failure}
    (h : ((parser.runFrom s).feedAll cs).status = .failed leftover failure) :
    ∃ events before behind buffer t rest, cs = before ++ behind ∧
      (parser.verdict s).Leads events before (.succeeded buffer (.lost t failure)) ∧
      Chunk.drop t.buffer t.pos.offset = .ok rest ∧ leftover = Chunk.appendAll rest behind := by
  have hleft : ((parser.runFrom s).feedAll cs).status.leftover? = some leftover := by
    rw [h]
    rfl
  obtain ⟨_, fed, kept, q, rest, rfl, hlead, hq, hrest, rfl⟩ := leads_of_leftover hleft
  rw [hlead.feedAll_append kept, status_logAll] at h
  obtain ⟨events, later, before, behind, buffer, v, -, rfl, hverdict, hstop⟩ :=
    leads_call parser closed hlead hq
  cases q with
  | failed rest' failure' =>
    rw [feedAll_failed] at h
    obtain ⟨-, rfl⟩ := Status.failed.inj h
    obtain ⟨t, rfl, rfl, hdrop⟩ := lost_of_stop hstop
    cases hrest
    exact ⟨events, before, kept, buffer, t, rest, by rw [List.append_nil], hverdict, hdrop, rfl⟩
  | succeeded rest' value => rw [feedAll_succeeded] at h; cases h
  | _ => exact hq.elim

/-- The context of a failed run is the label path to the one primitive part that failed: a path
that takes second sides of choices only, leads to what is tried first in a repetition that must
succeed once, and enters no other repetition. The message is the part's own, and what is left
begins where the part started. -/
theorem parseWith_failure_path (parser : Parser T E A) (closed : parser.Closed) (input : T)
    (more : More) (cs : List T) (leftover : T) (failure : Failure)
    (h : ((parser.parseWith input more).feedAll cs).status = .failed leftover failure) :
    ∃ (path : FailurePath parser) (start t : State T) (reached given behind : List T)
      (own : Failure) (rest : T), cs = reached ++ given ++ behind ∧
      path.Reaches (.start input more) reached start ∧
      path.part.2.FailsItself start given t own ∧
      failure.context = path.labels ∧ failure.message = own.message ∧
      Chunk.drop t.buffer start.pos.offset = .ok rest ∧
      leftover = Chunk.appendAll rest behind ∧
      ∀ (other : FailurePath parser) (before behind' : List T) (t' : State T) (own' : Failure),
        cs = before ++ behind' → other.Explains (.start input more) before t' own' →
        other = path := by
  obtain ⟨events, before, behind, buffer, t, rest, rfl, hlost, hdrop, hleftover⟩ :=
    lost_of_failed closed h
  obtain ⟨path, own, hexplains, rfl⟩ := FailurePath.exists_explains parser closed hlost
  have hpath := hexplains
  obtain ⟨start, reached, given, rfl, hreach, hfails⟩ := hpath
  refine ⟨path, start, t, reached, given, behind, own, rest, rfl, hreach, hfails, rfl, rfl, ?_,
    hleftover, ?_⟩
  · rw [← hfails.pos]
    exact hdrop
  · intro other before behind' t' own' hcs hother
    exact hexplains.unique closed hother hcs

theorem parseWith_failure_path_alternative :
    ∃ (path : FailurePath (label "entry" (andThen (label "key" (element 'a')) fun _ =>
        orElse (label "digit" (element '1')) (label "letter" (element 'b'))) :
          Parser Text Char Char)) (start t : State Text) (given behind : List Text)
      (own : Failure) (rest : Text),
      path.labels = ["entry", "letter"] ∧ path.part.2.FailsItself start given t own ∧
      own.message = "Failed reading: expected 'b', found 'c'" ∧
      Chunk.drop t.buffer start.pos.offset = .ok rest ∧
      Text.ofList ['c', 'd'] = Chunk.appendAll rest behind := by
  obtain ⟨path, start, t, _, given, behind, own, rest, -, -, hfails, hlabels, hmessage, hdrop,
      hleft, -⟩ :=
    parseWith_failure_path (label "entry" (andThen (label "key" (element 'a')) fun _ =>
      orElse (label "digit" (element '1')) (label "letter" (element 'b'))) : Parser Text Char Char)
    ⟨trivial, fun _ => ⟨trivial, trivial⟩⟩ (Text.ofList ['a']) .incomplete
    [Text.ofList ['c'], Text.ofList ['d']] (Text.ofList ['c', 'd'])
    ⟨["entry", "letter"], "Failed reading: expected 'b', found 'c'"⟩
    (Status.eq_of_agrees (by decide +kernel))
  exact ⟨path, start, t, given, behind, own, rest, hlabels.symm, hfails, hmessage.symm, hdrop,
    hleft⟩

end Parser

end Piecemeal

import Piecemeal.Proofs.Parser.Course

/-!
# How long a request waits

`ensure` and `take` ask for a number of elements behind the position. `Lacks` says of some
increments that the request is still open once they have come: more may come, and there are too few
elements. `Settles` says that the wait is over with the last of them, and was not before.

A request waits exactly while it lacks elements (`leads_of_lacks`), and ends with the increments
that settle it (`leads_of_settles`): it is met if there are enough elements by then, and otherwise
the input has come to its end. A request that is larger than any size is refused at once.
-/

namespace Piecemeal

open Verdict Outcome

variable {T E R : Type} [Chunk T E]

def Chunk.elements (cs : List T) : List E := cs.flatMap Chunk.toList

/-- Resumed with these increments, one after the other, the run comes to that point. -/
def Outcome.ComesTo (o : Outcome T R) (cs : List T) (point : Outcome T R) : Prop :=
  ∃ events, o.Leads events cs point

theorem Chunk.SplitsAt.givenAll [LawfulChunk T E] {s : State T} {before after : List E}
    (h : Chunk.SplitsAt s.buffer s.pos.offset before after) (cs : List T) :
    Chunk.SplitsAt (s.givenAll cs).buffer (s.givenAll cs).pos.offset before
      (after ++ Chunk.elements cs) := by
  induction cs generalizing s after with
  | nil => rwa [Chunk.elements, List.flatMap_nil, List.append_nil]
  | cons c cs ih =>
    rw [Chunk.elements, List.flatMap_cons, ← List.append_assoc]
    exact ih (s := s.given c) (h.append c)

theorem Chunk.appendAll_ofList [LawfulChunk T E] (es : List E) (cs : List T) :
    Chunk.appendAll (Chunk.ofList es) cs = Chunk.ofList (es ++ Chunk.elements cs) := by
  apply Chunk.ext_toList
  rw [Chunk.toList_appendAll, LawfulChunk.toList_ofList, LawfulChunk.toList_ofList]
  rfl

/-! ## Runs that replay, on given increments -/

section

variable {start : State T → Outcome T R} {o : Outcome T R} {s : State T} {cs : List T}

theorem RunsAs.leads_suspended (h : RunsAs start o s)
    (hcs : Chunk.width s.buffer + Chunk.totalWidth cs < Size.storable)
    (hwait : ∀ before behind, cs = before ++ behind → (start (s.givenAll before)).value? = none) :
    ∃ events resume, o.Leads events cs (.suspended resume) := by
  rcases h.exists_leads cs hcs with ⟨events, before, behind, buffer, v, rfl, hlead⟩ | hwaiting
  · rw [Chunk.totalWidth_append] at hcs
    have hend : (start (s.givenAll before)).value? = some v := (h.leads hlead (by omega)).2
    rw [hwait before behind rfl] at hend
    cases hend
  · exact hwaiting

/-- A run that replays ends as soon as a new run would. -/
theorem RunsAs.leads_succeeded {v : R} (h : RunsAs start o s)
    (hcs : Chunk.width s.buffer + Chunk.totalWidth cs < Size.storable)
    (hwait : ∀ before c behind, cs = before ++ c :: behind →
      (start (s.givenAll before)).value? = none)
    (hend : (start (s.givenAll cs)).value? = some v) :
    ∃ events buffer, o.Leads events cs (.succeeded buffer v) := by
  rcases h.exists_leads cs hcs with ⟨events, before, behind, buffer, w, rfl, hlead⟩ | hwaiting
  · rw [Chunk.totalWidth_append] at hcs
    have hw : (start (s.givenAll before)).value? = some w := (h.leads hlead (by omega)).2
    cases behind with
    | nil =>
      rw [List.append_nil] at hend ⊢
      rw [hw] at hend
      cases hend
      exact ⟨events, buffer, hlead⟩
    | cons c behind =>
      rw [hwait before c behind rfl] at hw
      cases hw
  · obtain ⟨events, resume, hlead⟩ := hwaiting
    have hnone : (start (s.givenAll cs)).value? = none := (h.leads hlead hcs).2.2.1
    rw [hend] at hnone
    cases hnone

end

/-! ## Open requests -/

section

variable (n : Nat) (s : State T) (past : List E)

/-- After these increments more may come, but fewer than `n` elements follow the position. The
elements in `past` were there at first. -/
def Lacks (cs : List T) : Prop :=
  (s.givenAll cs).more = .incomplete ∧ (past ++ Chunk.elements cs).length < n

/-- With the last of these increments the request lacks nothing any more, and until then it did. -/
structure Settles (cs : List T) : Prop where
  settled : ¬ Lacks n s past cs
  until_last : ∀ before c behind, cs = before ++ c :: behind → Lacks n s past before

end

section

variable {n : Nat} {s : State T} {past : List E}

instance (cs : List T) : Decidable (Lacks n s past cs) :=
  inferInstanceAs (Decidable (_ ∧ _))

theorem lacks_cons {c : T} {cs : List T} :
    Lacks n s past (c :: cs) ↔ Lacks n (s.given c) (past ++ Chunk.toList c) cs := by
  unfold Lacks Chunk.elements
  rw [List.flatMap_cons, List.append_assoc, State.givenAll_cons]

theorem Lacks.of_append {before behind : List T} (h : Lacks n s past (before ++ behind)) :
    Lacks n s past before := by
  obtain ⟨hmore, hfew⟩ := h
  rw [State.givenAll_more, List.any_append] at hmore
  simp only [Chunk.elements, List.flatMap_append, List.length_append] at hfew
  constructor
  · rw [State.givenAll_more]
    cases hflag : s.more.isComplete || before.any Chunk.isEmpty with
    | false => rfl
    | true =>
      rw [← Bool.or_assoc, hflag] at hmore
      cases hmore
  · simp only [Chunk.elements, List.length_append]
    omega

/-- A request lacks elements, or it was settled by some of the increments. -/
theorem lacks_or_settles (n : Nat) (s : State T) (past : List E) (cs : List T) :
    Lacks n s past cs ∨ ∃ before behind, cs = before ++ behind ∧ Settles n s past before := by
  have hnone : ∀ (s : State T) (past : List E) before (c : T) behind,
      [] = before ++ c :: behind → Lacks n s past before := by
    intro s past before c behind hnil
    simp at hnil
  induction cs generalizing s past with
  | nil =>
    by_cases hnow : Lacks n s past ([] : List T)
    · exact .inl hnow
    · exact .inr ⟨[], [], rfl, hnow, hnone s past⟩
  | cons c cs ih =>
    by_cases hnow : Lacks n s past ([] : List T)
    · rcases ih (s.given c) (past ++ Chunk.toList c) with hlacks |
        ⟨before, behind, rfl, hover, huntil⟩
      · exact .inl (lacks_cons.2 hlacks)
      · refine .inr ⟨c :: before, behind, rfl, mt lacks_cons.1 hover, ?_⟩
        intro init d rest hsplit
        cases init with
        | nil => exact hnow
        | cons _ init =>
          obtain ⟨rfl, htail⟩ := List.cons.inj hsplit
          exact lacks_cons.2 (huntil init d rest htail)
    · exact .inr ⟨[], c :: cs, rfl, hnow, hnone s past⟩

end

namespace Parser

variable {n consumed : Nat} {s : State T} {parser : Parser T E T}

/-! ## What a request does -/

/-- The parser does what a request for `n` elements has to do with these increments, and consumes
`consumed` of the elements if it gets them. -/
structure WaitsFor (parser : Parser T E T) (n consumed : Nat) (s : State T) (past : List E)
    (cs : List T) : Prop where
  /-- A request that is larger than any size is refused at once. -/
  oversized : Size.max < s.pos.offset + n →
    (∀ (R : Type) (lose : Lose T R) (win : Win T T R),
      parser.run s lose win = lose s .notEnoughInput) ∧
    ((parser.runFrom s).feedAll cs).status
      = .failed (Chunk.ofList (past ++ Chunk.elements cs)) .notEnoughInput
  /-- Any other waits exactly while elements are lacking. -/
  waits : s.pos.offset + n ≤ Size.max →
    (((parser.runFrom s).feedAll cs).status.isSuspended = true ↔ Lacks n s past cs)
  /-- It is met as soon as there are enough elements, with the first `n` of them. -/
  met : s.pos.offset + n ≤ Size.max → ∀ before behind, cs = before ++ behind →
    Settles n s past before → n ≤ (past ++ Chunk.elements before).length →
    (∃ next : Pos, next.offset = s.pos.offset
        + Chunk.widthOf T ((past ++ Chunk.elements before).take consumed) ∧
      ∀ (R : Type) (lose : Lose T R) (win : Win T T R),
        (parser.run s lose win).ComesTo before (win ((s.givenAll before).moveTo next)
          (Chunk.ofList ((past ++ Chunk.elements before).take n)))) ∧
    ((parser.runFrom s).feedAll cs).status
      = .succeeded (Chunk.ofList ((past ++ Chunk.elements cs).drop consumed))
          (Chunk.ofList ((past ++ Chunk.elements before).take n))
  /-- It is refused as soon as the input is complete without them. -/
  refused : s.pos.offset + n ≤ Size.max → ∀ before behind, cs = before ++ behind →
    Settles n s past before → (past ++ Chunk.elements before).length < n →
    (∀ (R : Type) (lose : Lose T R) (win : Win T T R),
      (parser.run s lose win).ComesTo before (lose (s.givenAll before) .notEnoughInput)) ∧
    ((parser.runFrom s).feedAll cs).status
      = .failed (Chunk.ofList (past ++ Chunk.elements cs)) .notEnoughInput

theorem comesTo_run {A : Type} {parser : Parser T E A} (closed : parser.Closed)
    {events : List Event} {before : List T} {buffer : T} {v : Verdict T A}
    (hlead : (parser.verdict s).Leads events before (.succeeded buffer v)) (lose : Lose T R)
    (win : Win T A R) : (parser.run s lose win).ComesTo before (v.resolve lose win) := by
  rw [run_eq_bind_verdict parser closed]
  exact ⟨events, hlead.bind (resolve lose win)⟩

/-- The parser waits for `n` elements. Once it has them, it consumes the first `consumed`, by moving
on as many bytes as `moved` says. -/
structure Asks (parser : Parser T E T) (n consumed : Nat) (moved : T → Nat) : Prop where
  closed : parser.Closed
  verdict_eq : ∀ s : State T, parser.verdict s = ((ensure n : Parser T E T).verdict s).bind
    (resolve losing fun t taken => winning (t.advance (moved taken)) taken)
  consumed_le : consumed ≤ n
  moved_eq : ∀ es : List E, es.length = n →
    moved (Chunk.ofList es) = Chunk.widthOf T (es.take consumed)

theorem asks_ensure [LawfulChunk T E] (n : Nat) :
    Asks (ensure n : Parser T E T) n 0 fun _ => 0 := by
  refine ⟨trivial, ?_, Nat.zero_le n, fun es _ => Chunk.widthOf_nil.symm⟩
  intro s
  have hstays : ∀ t : State T, t.advance 0 = t := fun t => by
    rw [State.advance, Pos.advance_zero]
  simp only [hstays]
  exact run_eq_bind_verdict (ensure n : Parser T E T) trivial s losing winning

theorem asks_take (n : Nat) : Asks (take n : Parser T E T) n n Chunk.width := by
  refine ⟨trivial, verdict_take n, Nat.le_refl n, ?_⟩
  intro es hes
  rw [List.take_of_length_le (Nat.le_of_eq hes)]
  rfl

theorem verdict_ensure_of_oversized (h : Size.max < s.pos.offset + n) :
    (ensure n : Parser T E T).verdict s = losing s .notEnoughInput := by
  have hfits : ¬ Size.fits (s.pos.offset + n) = true := by
    rw [Size.fits_iff]
    omega
  rw [verdict, run, ensuring, if_neg hfits]

theorem Asks.oversized {moved : T → Nat} (hasks : Asks parser n consumed moved)
    (h : Size.max < s.pos.offset + n) : parser.verdict s = losing s .notEnoughInput := by
  rw [hasks.verdict_eq, verdict_ensure_of_oversized h]
  rfl

section

variable [LawfulChunk T E] {front past : List E} {cs : List T}

theorem value?_ensure_eq_none_iff (hs : s.Sound)
    (hpos : Chunk.SplitsAt s.buffer s.pos.offset front past)
    (hcs : Chunk.width s.buffer + Chunk.totalWidth cs < Size.storable)
    (hfits : s.pos.offset + n ≤ Size.max) :
    ((ensure n : Parser T E T).verdict (s.givenAll cs)).value? = none ↔ Lacks n s past cs := by
  have hsize : Size.fits ((s.givenAll cs).pos.offset + n) = true := by
    rw [State.givenAll_pos, Size.fits_iff]
    exact hfits
  rw [value?_ensure (hs.givenAll hcs) (hpos.givenAll cs) n, hsize, Bool.not_true, Bool.or_false,
    Lacks]
  by_cases hn : n ≤ (past ++ Chunk.elements cs).length
  · rw [if_pos hn]
    simp only [reduceCtorEq, false_iff, not_and, Nat.not_lt]
    exact fun _ => hn
  · rw [if_neg hn]
    cases hmore : (s.givenAll cs).more with
    | complete => simp [More.isComplete]
    | incomplete => simpa [More.isComplete] using Nat.lt_of_not_le hn

theorem leads_of_lacks (hs : s.Sound) (hpos : Chunk.SplitsAt s.buffer s.pos.offset front past)
    (hcs : Chunk.width s.buffer + Chunk.totalWidth cs < Size.storable)
    (hfits : s.pos.offset + n ≤ Size.max) (h : Lacks n s past cs) :
    ∃ events resume, ((ensure n : Parser T E T).verdict s).Leads events cs (.suspended resume) := by
  refine (replays_ensure n s hs).leads_suspended hcs ?_
  rintro before behind rfl
  rw [Chunk.totalWidth_append] at hcs
  exact (value?_ensure_eq_none_iff hs hpos (by omega) hfits).2 h.of_append

/-- The verdict on a request, given the elements that follow the position in the end. -/
def settlement (n : Nat) (t : State T) (found : List E) : Verdict T T :=
  if n ≤ found.length then won t (Chunk.ofList (found.take n)) else lost t .notEnoughInput

theorem leads_of_settles (hs : s.Sound) (hpos : Chunk.SplitsAt s.buffer s.pos.offset front past)
    (hcs : Chunk.width s.buffer + Chunk.totalWidth cs < Size.storable)
    (hfits : s.pos.offset + n ≤ Size.max) (h : Settles n s past cs) :
    ∃ events buffer, ((ensure n : Parser T E T).verdict s).Leads events cs
      (.succeeded buffer (settlement n (s.givenAll cs) (past ++ Chunk.elements cs))) := by
  refine (replays_ensure n s hs).leads_succeeded hcs ?_ ?_
  · rintro before c behind rfl
    rw [Chunk.totalWidth_append] at hcs
    exact (value?_ensure_eq_none_iff hs hpos (by omega) hfits).2
      (h.until_last before c behind rfl)
  · have hsome := mt (value?_ensure_eq_none_iff hs hpos hcs hfits).1 h.settled
    rw [value?_ensure (hs.givenAll hcs) (hpos.givenAll cs) n] at hsome ⊢
    unfold settlement
    split
    · rfl
    · next hfew =>
      rw [if_neg hfew] at hsome
      split
      · rfl
      · next hopen => exact absurd (if_neg hopen) hsome

/-- A parser that stops at a verdict leaves what follows the position, and all that comes later. -/
theorem status_runFrom_of_leads {A : Type} {parser : Parser T E A} (closed : parser.Closed)
    {events : List Event} {before : List T} {buffer : T} {v : Verdict T A}
    (hlead : (parser.verdict s).Leads events before (.succeeded buffer v))
    (hpos : Chunk.SplitsAt v.state.buffer v.state.pos.offset front past) (behind : List T) :
    ((parser.runFrom s).feedAll (before ++ behind)).status
      = (v.finish (Chunk.ofList (past ++ Chunk.elements behind))).status := by
  unfold runFrom
  rw [status_run_decided closed hlead,
    status_stop_of_drop v (LawfulChunk.drop_eq hpos), Chunk.appendAll_ofList]

namespace Asks

variable {moved : T → Nat} {before : List T}

theorem isSuspended_of_lacks (hasks : Asks parser n consumed moved) (hs : s.Sound)
    (hpos : Chunk.SplitsAt s.buffer s.pos.offset front past)
    (hcs : Chunk.width s.buffer + Chunk.totalWidth cs < Size.storable)
    (hfits : s.pos.offset + n ≤ Size.max) (h : Lacks n s past cs) :
    ((parser.runFrom s).feedAll cs).status.isSuspended = true := by
  obtain ⟨events, resume, hlead⟩ := leads_of_lacks hs hpos hcs hfits h
  have hwait := hlead.bind (resolve losing fun t taken => winning (t.advance (moved taken)) taken)
  rw [← hasks.verdict_eq] at hwait
  exact isSuspended_run_waiting hasks.closed hwait stopFailed stopSucceeded

theorem met (hasks : Asks parser n consumed moved) (hs : s.Sound)
    (hpos : Chunk.SplitsAt s.buffer s.pos.offset front past)
    (hcs : Chunk.width s.buffer + Chunk.totalWidth before < Size.storable)
    (hfits : s.pos.offset + n ≤ Size.max) (h : Settles n s past before)
    (hn : n ≤ (past ++ Chunk.elements before).length) :
    (∃ next : Pos, next.offset = s.pos.offset
        + Chunk.widthOf T ((past ++ Chunk.elements before).take consumed) ∧
      ∀ (R : Type) (lose : Lose T R) (win : Win T T R),
        (parser.run s lose win).ComesTo before (win ((s.givenAll before).moveTo next)
          (Chunk.ofList ((past ++ Chunk.elements before).take n)))) ∧
    ∀ behind, ((parser.runFrom s).feedAll (before ++ behind)).status
      = .succeeded (Chunk.ofList ((past ++ Chunk.elements (before ++ behind)).drop consumed))
          (Chunk.ofList ((past ++ Chunk.elements before).take n)) := by
  obtain ⟨events, buffer, hlead⟩ := leads_of_settles hs hpos hcs hfits h
  have hsplit := hpos.givenAll before
  have hadvance := (hs.givenAll hcs).advance hsplit consumed
  have hkept : ∀ behind, past ++ Chunk.elements (before ++ behind)
      = (past ++ Chunk.elements before) ++ Chunk.elements behind := by
    intro behind
    simp only [Chunk.elements, List.flatMap_append, List.append_assoc]
  simp only [hkept]
  generalize past ++ Chunk.elements before = found at hn hlead hsplit hadvance ⊢
  have hmoved : moved (Chunk.ofList (found.take n)) = Chunk.widthOf T (found.take consumed) := by
    rw [hasks.moved_eq _ (List.length_take_of_le hn), List.take_take,
      Nat.min_eq_left hasks.consumed_le]
  have hmet := hlead.bind (resolve losing fun t taken => winning (t.advance (moved taken)) taken)
  rw [← hasks.verdict_eq, settlement, if_pos hn] at hmet
  constructor
  · refine ⟨((s.givenAll before).advance (Chunk.widthOf T (found.take consumed))).pos, ?_, ?_⟩
    · rw [← hadvance.2, Chunk.widthOf_append, hsplit.2, State.givenAll_pos]
    · intro R lose win
      rw [← hmoved]
      exact comesTo_run hasks.closed hmet lose win
  · intro behind
    have hle := hasks.consumed_le
    rw [List.drop_append_of_le_length (by omega)]
    rw [← hmoved] at hadvance
    exact status_runFrom_of_leads hasks.closed hmet hadvance behind

theorem refused (hasks : Asks parser n consumed moved) (hs : s.Sound)
    (hpos : Chunk.SplitsAt s.buffer s.pos.offset front past)
    (hcs : Chunk.width s.buffer + Chunk.totalWidth before < Size.storable)
    (hfits : s.pos.offset + n ≤ Size.max) (h : Settles n s past before)
    (hn : (past ++ Chunk.elements before).length < n) :
    (∀ (R : Type) (lose : Lose T R) (win : Win T T R),
      (parser.run s lose win).ComesTo before (lose (s.givenAll before) .notEnoughInput)) ∧
    ∀ behind, ((parser.runFrom s).feedAll (before ++ behind)).status
      = .failed (Chunk.ofList (past ++ Chunk.elements (before ++ behind))) .notEnoughInput := by
  obtain ⟨events, buffer, hlead⟩ := leads_of_settles hs hpos hcs hfits h
  have hrefused := hlead.bind
    (resolve losing fun t taken => winning (t.advance (moved taken)) taken)
  rw [← hasks.verdict_eq, settlement, if_neg (Nat.not_le.2 hn)] at hrefused
  constructor
  · intro R lose win
    exact comesTo_run hasks.closed hrefused lose win
  · intro behind
    rw [Chunk.elements, List.flatMap_append, ← List.append_assoc]
    exact status_runFrom_of_leads hasks.closed hrefused (hpos.givenAll before) behind

theorem waitsFor (hasks : Asks parser n consumed moved)
    (hpos : Chunk.SplitsAt s.buffer s.pos.offset front past)
    (hcs : Chunk.width s.buffer + Chunk.totalWidth cs < Size.storable) :
    WaitsFor parser n consumed s past cs := by
  have hs : s.Sound := ⟨by omega, front, past, hpos⟩
  have hwidth : ∀ before behind, cs = before ++ behind →
      Chunk.width s.buffer + Chunk.totalWidth before < Size.storable := by
    rintro before behind rfl
    rw [Chunk.totalWidth_append] at hcs
    omega
  refine ⟨?oversized, ?waits, ?met, ?refused⟩
  case oversized =>
    intro hsize
    have hverdict := hasks.oversized hsize
    constructor
    · intro R lose win
      rw [run_eq_bind_verdict parser hasks.closed, hverdict]
      rfl
    · have hlead : (parser.verdict s).Leads [] [] (losing s .notEnoughInput) := by
        rw [hverdict]
        exact .here _
      exact status_runFrom_of_leads hasks.closed hlead hpos cs
  case waits =>
    intro hfits
    refine ⟨?_, hasks.isSuspended_of_lacks hs hpos hcs hfits⟩
    intro hwait
    rcases lacks_or_settles n s past cs with hlacks | ⟨before, behind, rfl, hsettles⟩
    · exact hlacks
    · have hbefore := hwidth before behind rfl
      rcases Nat.lt_or_ge (past ++ Chunk.elements before).length n with hfew | hmany
      · rw [(hasks.refused hs hpos hbefore hfits hsettles hfew).2] at hwait
        cases hwait
      · rw [(hasks.met hs hpos hbefore hfits hsettles hmany).2] at hwait
        cases hwait
  case met =>
    rintro hfits before behind rfl hsettles hmany
    obtain ⟨hcall, hstatus⟩ :=
      hasks.met hs hpos (hwidth before behind rfl) hfits hsettles hmany
    exact ⟨hcall, hstatus behind⟩
  case refused =>
    rintro hfits before behind rfl hsettles hfew
    obtain ⟨hcall, hstatus⟩ :=
      hasks.refused hs hpos (hwidth before behind rfl) hfits hsettles hfew
    exact ⟨hcall, hstatus behind⟩

end Asks

/-- `ensure` and `take` wait for the elements that they need, and not longer. The one consumes none
of them, the other all. -/
theorem ensure_and_take_wait_for_elements (n : Nat) (s : State T) (front past : List E)
    (hpos : Chunk.SplitsAt s.buffer s.pos.offset front past) (cs : List T)
    (hcs : Chunk.width s.buffer + Chunk.totalWidth cs < Size.storable) :
    WaitsFor (ensure n) n 0 s past cs ∧ WaitsFor (take n) n n s past cs :=
  ⟨(asks_ensure n).waitsFor hpos hcs, (asks_take n).waitsFor hpos hcs⟩

theorem ensure_and_take_wait_for_elements_text :
    (((take 2 : Parser Text Char Text).runFrom
        ⟨Text.ofList ['é', 'a'], .ofOffset 2, .incomplete⟩).feedAll
          [Text.ofList ['ж'], Text.ofList [], Text.ofList ['b']]).status
      = .succeeded (Text.ofList ['b']) (Text.ofList ['a', 'ж']) ∧
    (((ensure 3 : Parser Text Char Text).runFrom
        ⟨Text.ofList ['é', 'a'], .ofOffset 2, .incomplete⟩).feedAll
          [Text.ofList ['ж'], Text.ofList [], Text.ofList ['b']]).status
      = .failed (Text.ofList ['a', 'ж', 'b']) .notEnoughInput ∧
    (((take Size.max : Parser Bytes UInt8 Bytes).runFrom
        ⟨Segment.ofList [7, 8], .ofOffset 1, .incomplete⟩).feedAll [Segment.ofList [9]]).status
      = .failed (Segment.ofList [8, 9]) .notEnoughInput := by
  have hsplit : Chunk.SplitsAt (Text.ofList ['é', 'a']) 2 ['é'] ['a'] :=
    Text.splitsAt_iff.2 ⟨Text.toList_ofList _, by decide⟩
  have hbytes : Chunk.SplitsAt (Segment.ofList [7, 8] : Bytes) 1 [7] [8] :=
    Bytes.splitsAt_iff.2 ⟨Segment.toList_ofList _, by decide⟩
  have hfirst := ensure_and_take_wait_for_elements 2
    ⟨Text.ofList ['é', 'a'], .ofOffset 2, .incomplete⟩ ['é'] ['a'] hsplit
    [Text.ofList ['ж'], Text.ofList [], Text.ofList ['b']] (by decide)
  have hsecond := ensure_and_take_wait_for_elements 3
    ⟨Text.ofList ['é', 'a'], .ofOffset 2, .incomplete⟩ ['é'] ['a'] hsplit
    [Text.ofList ['ж'], Text.ofList [], Text.ofList ['b']] (by decide)
  have hlarge := ensure_and_take_wait_for_elements Size.max
    ⟨Segment.ofList [7, 8], .ofOffset 1, .incomplete⟩ [7] [8] hbytes [Segment.ofList [9]]
    (by decide)
  refine ⟨?_, ?_, (hlarge.2.oversized (by decide)).2⟩
  · refine (hfirst.2.met (by decide) [Text.ofList ['ж']] _ rfl ⟨by decide, ?_⟩ (by decide)).2
    rintro (_ | ⟨_, before⟩) c behind heq
    · decide
    · simp at heq
  · refine (hsecond.1.refused (by decide) [Text.ofList ['ж'], Text.ofList []] _ rfl
      ⟨by decide, ?_⟩ (by decide)).2
    rintro (_ | ⟨_, _ | ⟨_, before⟩⟩) c behind heq
    · decide
    · cases heq
      decide
    · simp at heq

end

end Parser

end Piecemeal

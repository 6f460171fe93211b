import Piecemeal.Proofs.Parser.Course
import Piecemeal.Proofs.Parser.Repetition

/-!
# What a repetition consumes

A repetition is a loop: it looks at what has become of its current attempt, and starts the next one
if the attempt succeeded anywhere else than where it began. `Loop` is that loop between two looks,
with the test as plain as that, and `Loop.Reaches` the loops that a run comes through. The run goes
on as its loop says (`Reaches.leads`). A look that goes on moves the position forward, within the
input (`Loop.Sound.goes`), so the input that is not consumed bounds how often the loop goes round
before it waits or ends (`Loop.Sound.acc`).

Every value of a repetition has consumed an element at least (`passes_gathering`), so there are no
more values than elements consumed.
-/

namespace Piecemeal

open Verdict Outcome

variable {T E A R : Type} [Chunk T E]

/-! ## The elements between two positions -/

/-- The elements of a chunk from one offset to another one further on. -/
def Chunk.Between (c : T) (start stop : Nat) (es : List E) : Prop :=
  ∃ before after, SplitsAt c start before (es ++ after) ∧ SplitsAt c stop (before ++ es) after

/-- At least `n` elements lie between the positions of the two states. -/
def State.Passes (s next : State T) (n : Nat) : Prop :=
  ∃ es, Chunk.Between s.buffer s.pos.offset next.pos.offset es ∧ n ≤ es.length

section

variable [LawfulChunk T E]

namespace Chunk

variable {c : T} {i j k : Nat} {es fs : List E}

theorem Between.trans (h : Between c i j es) (h' : Between c j k fs) :
    Between c i k (es ++ fs) := by
  obtain ⟨before, after, hi, hj⟩ := h
  obtain ⟨before', after', hj', hk⟩ := h'
  obtain ⟨rfl, rfl⟩ := hj.unique hj'
  rw [← List.append_assoc] at hi
  rw [List.append_assoc] at hk
  exact ⟨before, after', hi, hk⟩

theorem Between.append (h : Between c i j es) (d : T) : Between (append c d) i j es := by
  obtain ⟨before, after, hi, hj⟩ := h
  have hi' := hi.append d
  rw [List.append_assoc] at hi'
  exact ⟨before, after ++ toList d, hi', hj.append d⟩

theorem Between.appendAll (h : Between c i j es) (cs : List T) :
    Between (appendAll c cs) i j es := by
  induction cs generalizing c with
  | nil => exact h
  | cons d cs ih => exact ih (h.append d)

theorem exists_between (hi : Boundary c i) (hj : Boundary c j) (hij : i ≤ j) :
    ∃ es : List E, Between c i j es ∧ (i < j → 1 ≤ es.length) := by
  obtain ⟨before, after, hsplit⟩ := hi
  obtain ⟨before', after', hsplit'⟩ := hj
  have hwidth := hsplit.2
  have hwidth' := hsplit'.2
  rcases List.append_eq_append_iff.1 (hsplit.1.symm.trans hsplit'.1) with
    ⟨ms, rfl, rfl⟩ | ⟨ms, rfl, rfl⟩
  · refine ⟨ms, ⟨before, after', hsplit, hsplit'⟩, ?_⟩
    have hpos := widthOf_pos_iff (T := T) ms
    rw [widthOf_append] at hwidth'
    omega
  · have hpos := widthOf_pos_iff (T := T) ms
    rw [widthOf_append] at hwidth
    obtain rfl : ms = [] := List.eq_nil_of_length_eq_zero (by omega)
    rw [List.append_nil] at hsplit
    refine ⟨[], ⟨before', after, hsplit, ?_⟩, ?_⟩
    · rw [List.append_nil]
      exact hsplit'
    · rw [widthOf_nil] at hwidth
      omega

end Chunk

namespace State

variable {s mid next : State T} {m n : Nat}

theorem Passes.trans (h : s.Passes mid m) (hbuffer : mid.buffer = s.buffer)
    (h' : mid.Passes next n) : s.Passes next (n + m) := by
  obtain ⟨es, hes, hm⟩ := h
  obtain ⟨fs, hfs, hn⟩ := h'
  rw [hbuffer] at hfs
  refine ⟨es ++ fs, hes.trans hfs, ?_⟩
  rw [List.length_append]
  omega

theorem Passes.given (h : s.Passes next n) (c : T) : (s.given c).Passes (next.given c) n := by
  obtain ⟨es, hes, hn⟩ := h
  exact ⟨es, hes.append c, hn⟩

theorem Onward.passes (h : s.Onward next) (hs : s.Sound) : s.Passes next 0 := by
  have hnext := h.boundary
  rw [h.buffer] at hnext
  obtain ⟨es, hes, -⟩ := Chunk.exists_between hs.boundary hnext h.pos
  exact ⟨es, hes, Nat.zero_le _⟩

theorem Onward.passes_one (h : s.Onward next) (hs : s.Sound) (hlt : s.pos < next.pos) :
    s.Passes next 1 := by
  have hnext := h.boundary
  rw [h.buffer] at hnext
  obtain ⟨es, hes, hone⟩ := Chunk.exists_between hs.boundary hnext h.pos
  exact ⟨es, hes, hone hlt⟩

end State

/-! ## No more values than elements -/

/-- However the run is resumed, it comes to a place that is at least as many elements further on as
it has counted. -/
abbrev PassesCount (place : R → State T) (count : R → Nat) (o : Outcome T R) (s : State T) : Prop :=
  o.Tracks (fun _ => True) (fun t r => t.Passes (place r) (count r)) s

/-- A run that starts further on has passed the elements on the way there as well. -/
theorem State.Passes.count {place : R → State T} {count : R → Nat} {o : Outcome T R}
    {s next : State T} {m : Nat} (hpass : s.Passes next m) (honward : s.Onward next)
    (ho : PassesCount place count o next) : PassesCount place (fun r => count r + m) o s := by
  refine ho.along (fun t u => u.Onward t ∧ u.Passes t m) ?_ ?_ ?_ ?_ ⟨honward, hpass⟩
  · rintro t u c ⟨hu, hm⟩ _ _
    exact ⟨hu.given c, hm.given c⟩
  · rintro t u ⟨hu, -⟩
    exact ⟨hu.buffer.symm, hu.more.symm⟩
  · intro _ _ _ _
    trivial
  · rintro t u r ⟨hu, hm⟩ hr
    exact hm.trans hu.buffer hr

def Verdict.size : Verdict T (List A) → Nat
  | lost _ _ => 0
  | won _ values => values.length

/-- Every value gathered stands for an attempt that moved forward. -/
theorem passes_gathering {attempt : State T → Outcome T (Verdict T A)}
    (hattempt : ∀ s, s.Sound → EndsOnward (attempt s) s) {s : State T} (hs : s.Sound) :
    PassesCount Gathered.state (fun g => g.values.length) (gathering attempt s) s := by
  fun_induction gathering attempt s with
  | case1 s ih =>
    refine Outcome.Tracks.bind ((hattempt s hs).keepStart hs) ?_
    rintro t v ⟨honward, ht, hpos⟩
    have hback : v.state.moveTo s.pos = t := hpos ▸ honward.moveTo
    have hhere : t.Passes (v.state.moveTo s.pos) 0 := by
      rw [hback]
      exact (State.Onward.refl ht).passes ht
    cases v with
    | lost next failure => exact hhere
    | won next value =>
      simp only
      split
      · next hlt =>
        have hrest := ih next hlt (honward.sound ht)
        have hone := honward.passes_one ht (hpos ▸ hlt)
        exact (hone.count honward hrest).bind fun _ _ hg => hg
      · exact hhere

namespace Parser

theorem passes_manyAfter (parser : Parser T E A) (closed : parser.Closed) (found : List A)
    {s : State T} (hs : s.Sound) :
    PassesCount Verdict.state (fun v => v.size - found.length)
      ((manyAfter found parser).verdict s) s := by
  have hgathered := passes_gathering (fun t ht => tracks_verdict parser closed ht) hs
  rw [verdict_manyAfter, repeating_eq_gathering, List.reverse_reverse]
  refine hgathered.bind ?_
  intro t g hg
  have hcount : (found ++ g.values).length - found.length = g.values.length := by
    rw [List.length_append]
    omega
  show t.Passes g.state ((found ++ g.values).length - found.length)
  rw [hcount]
  exact hg

theorem passes_many1 (parser : Parser T E A) (closed : parser.Closed) {s : State T}
    (hs : s.Sound) :
    PassesCount Verdict.state (fun v => v.size - 1) ((many1 parser).verdict s) s := by
  have hclosed : (many1 parser).Closed := ⟨closed, fun _ => closed⟩
  rw [many1, verdict_andThen hclosed]
  refine Outcome.Tracks.bind ((tracks_verdict parser closed hs).keepStart hs) ?_
  rintro t v ⟨honward, ht, -⟩
  have hpass := honward.passes ht
  cases v with
  | lost next failure => exact hpass
  | won next first =>
    exact hpass.count honward (passes_manyAfter parser closed [first] (honward.sound ht))

/-- What a run that has succeeded consumed lies between where it started and the position that it
came to, and what it left follows that position. -/
theorem consumed_of_succeeded {parser : Parser T E (List A)} (closed : parser.Closed) {s : State T}
    (hs : s.Sound) {already : Nat}
    (hpasses : PassesCount Verdict.state (fun v => v.size - already) (parser.verdict s) s)
    {cs : List T} (hcs : Chunk.width s.buffer + Chunk.totalWidth cs < Size.storable) {leftover : T}
    {values : List A}
    (h : ((parser.runFrom s).feedAll cs).status = .succeeded leftover values) :
    ∃ (final : Pos) (es : List E),
      Chunk.Between (Chunk.appendAll s.buffer cs) s.pos.offset final.offset es ∧
      Chunk.drop (Chunk.appendAll s.buffer cs) final.offset = .ok leftover ∧
      values.length ≤ es.length + already := by
  unfold runFrom at h
  cases course parser closed hs hcs with
  | waiting hlead =>
    have hwait := isSuspended_run_waiting closed hlead stopFailed stopSucceeded
    rw [h] at hwait
    cases hwait
  | @decided events before buffer v behind hlead =>
    have hbefore : Chunk.width s.buffer + Chunk.totalWidth before < Size.storable := by
      rw [Chunk.totalWidth_append] at hcs
      omega
    have honward := onward_of_leads parser closed hs hbefore hlead
    obtain ⟨front, rest, hsplit⟩ := honward.boundary
    have hdrop := LawfulChunk.drop_eq hsplit
    rw [status_run_decided closed hlead, status_stop_of_drop v hdrop] at h
    cases v with
    | lost next failure => cases h
    | won next found =>
      cases h
      obtain ⟨-, es, hes, hcount⟩ := hpasses.leads hlead hbefore
      have hbuffer : next.buffer = Chunk.appendAll s.buffer before :=
        honward.buffer.trans (State.givenAll_buffer s before)
      rw [State.givenAll_buffer, State.givenAll_pos] at hes
      rw [Chunk.appendAll_append]
      refine ⟨next.pos, es, hes.appendAll behind, ?_, ?_⟩
      · rw [← hbuffer]
        exact honward.boundary.drop_appendAll hdrop behind
      · exact Nat.sub_le_iff_le_add.1 hcount

end Parser

end

/-! ## The loop -/

/-- A repetition that looks at its current attempt. -/
structure Loop (T A : Type) where
  /-- The values found, last one first. -/
  found : List A
  /-- Where the attempt began. -/
  pos : Pos
  /-- What has become of the attempt so far. -/
  attempt : Outcome T (Verdict T A)

namespace Loop

def start (parser : Parser T E A) (found : List A) (s : State T) : Loop T A :=
  ⟨found, s.pos, parser.verdict s⟩

/-- The loop goes round: the attempt has succeeded elsewhere than it began, and the next one starts
there. -/
inductive Goes (parser : Parser T E A) : Loop T A → Loop T A → Prop where
  | round {l : Loop T A} {events : List Event} {buffer : T} {next : State T} {value : A} :
      l.attempt.Leads events [] (.succeeded buffer (.won next value)) → next.pos ≠ l.pos →
      Goes parser l (start parser (value :: l.found) next)

/-- The loops that a repetition comes through while it is given increments. -/
inductive Reaches (parser : Parser T E A) (found : List A) (s : State T) :
    List T → Loop T A → Prop where
  | start : Reaches parser found s [] (Loop.start parser found s)
  | goes {cs : List T} {l l' : Loop T A} : Reaches parser found s cs l → l.Goes parser l' →
      Reaches parser found s cs l'
  | resumed {cs : List T} {l : Loop T A} {events : List Event}
      {resume : T → Outcome T (Verdict T A)} (c : T) : Reaches parser found s cs l →
      l.attempt.Leads events [] (.suspended resume) →
      Reaches parser found s (cs ++ [c]) { l with attempt := resume c }

def run (parser : Parser T E A) (win : Win T (List A) R) (l : Loop T A) : Outcome T R :=
  l.attempt.bind fun verdict =>
    match verdict with
    | .lost next _ =>
      .logged (.repetitionStopped l.pos l.found.length) fun _ =>
        win (next.moveTo l.pos) l.found.reverse
    | .won next value =>
      if l.pos < next.pos then repeating parser.verdict next (value :: l.found) win
      else
        .logged (.noProgress l.pos l.found.length) fun _ =>
          win (next.moveTo l.pos) l.found.reverse

theorem run_start (parser : Parser T E A) (found : List A) (s : State T)
    (win : Win T (List A) R) :
    (start parser found s).run parser win = repeating parser.verdict s found win := by
  rw [repeating]
  rfl

variable [LawfulChunk T E]

/-- The attempt of the loop belongs to a run that was given what `t` holds, and it began at the
position of `t`. -/
structure Sound (l : Loop T A) (t : State T) : Prop where
  state : t.Sound
  pos : t.pos = l.pos
  onward : EndsOnward l.attempt t

theorem Sound.start (parser : Parser T E A) (closed : parser.Closed) (found : List A)
    {s : State T} (hs : s.Sound) : (Loop.start parser found s).Sound s :=
  ⟨hs, rfl, parser.tracks_verdict closed hs⟩

variable {parser : Parser T E A} {found : List A} {l l' : Loop T A} {s t : State T}

/-- Going round moves the position forward, within the input, and uses up none of it. -/
theorem Sound.goes (hl : l.Sound t) (closed : parser.Closed) (h : l.Goes parser l') :
    l.pos < l'.pos ∧ l'.pos.offset ≤ Chunk.width t.buffer ∧
      ∃ next, t.Onward next ∧ l'.Sound next := by
  cases h with
  | @round events buffer next value hlead hne =>
    have hstorable : Chunk.width t.buffer + Chunk.totalWidth ([] : List T) < Size.storable :=
      hl.state.storable
    have honward : t.Onward next := (hl.onward.leads hlead hstorable).2
    have hwidth := honward.boundary.le_width
    rw [honward.buffer] at hwidth
    refine ⟨?_, hwidth, next, honward, .start parser closed _ (honward.sound hl.state)⟩
    refine Nat.lt_of_le_of_ne (hl.pos ▸ honward.pos) fun heq => hne (Pos.ext heq.symm)

/-- The loop cannot go round for ever: the width that is not consumed gets smaller. -/
theorem Sound.acc (hl : l.Sound t) (closed : parser.Closed) :
    Acc (fun after before => before.Goes parser after) l := by
  induction hroom : Chunk.width t.buffer - t.pos.offset using Nat.strongRecOn
    generalizing l t with
  | ind room ih =>
    refine Acc.intro l ?_
    intro l' hgoes
    obtain ⟨hlt, hwidth, next, honward, hnext⟩ := hl.goes closed hgoes
    have hbuffer := congrArg Chunk.width honward.buffer
    have hpos := congrArg Pos.offset hl.pos
    have hpos' := congrArg Pos.offset hnext.pos
    rw [Pos.lt_def] at hlt
    exact ih (Chunk.width next.buffer - next.pos.offset) (by omega) hnext rfl

theorem Reaches.sound {cs : List T} (h : Reaches parser found s cs l) (closed : parser.Closed)
    (hs : s.Sound) (hcs : Chunk.width s.buffer + Chunk.totalWidth cs < Size.storable) :
    ∃ t, (s.givenAll cs).Onward t ∧ l.Sound t := by
  induction h with
  | start => exact ⟨s, .refl hs, .start parser closed found hs⟩
  | goes _ hgoes ih =>
    obtain ⟨t, ht, hl⟩ := ih hcs
    obtain ⟨-, -, next, honward, hnext⟩ := hl.goes closed hgoes
    exact ⟨next, ht.trans honward, hnext⟩
  | @resumed cs l events resume c _ hlead ih =>
    rw [Chunk.totalWidth_append] at hcs
    obtain ⟨t, ht, hl⟩ := ih (by omega)
    have hwidth : Chunk.width t.buffer = Chunk.width s.buffer + Chunk.totalWidth cs := by
      rw [ht.buffer, State.width_givenAll]
    have hc : Chunk.width t.buffer + Chunk.width c < Size.storable := by
      simp only [Chunk.totalWidth] at hcs
      omega
    obtain ⟨-, hwaits⟩ := hl.onward.leads hlead hl.state.storable
    refine ⟨t.given c, ?_, hl.state.given hc, hl.pos, hwaits.2.2 c hc⟩
    rw [State.givenAll_append]
    exact ht.given c

/-- The run of the repetition goes on as its loop does, wherever the loop has come to. -/
theorem Reaches.leads {cs : List T} (h : Reaches parser found s cs l) (closed : parser.Closed)
    (hs : s.Sound) (hcs : Chunk.width s.buffer + Chunk.totalWidth cs < Size.storable)
    (win : Win T (List A) R) :
    ∃ events, (repeating parser.verdict s found win).Leads events cs (l.run parser win) := by
  induction h with
  | start =>
    rw [run_start]
    exact ⟨[], .here _⟩
  | @goes cs l l' hreach hgoes ih =>
    obtain ⟨log, hlog⟩ := ih hcs
    obtain ⟨t, -, hl⟩ := hreach.sound closed hs hcs
    obtain ⟨hlt, -⟩ := hl.goes closed hgoes
    cases hgoes with
    | @round events buffer next value hlead hne =>
      have hround := hlog.trans (hlead.bind _)
      simp only [if_pos (show l.pos < next.pos from hlt), List.append_nil, Outcome.bind] at hround
      rw [run_start]
      exact ⟨_, hround⟩
  | @resumed cs l events resume c _ hlead ih =>
    rw [Chunk.totalWidth_append] at hcs
    obtain ⟨log, hlog⟩ := ih (by omega)
    have hwaits := hlog.trans (hlead.bind _)
    rw [List.append_nil] at hwaits
    exact ⟨_, hwaits.trans (.resumed (.here _))⟩

end Loop

/-- A repetition goes round only finitely often before it waits or ends, for each time it moves
forward within the input that it holds. It comes to no more values than it has consumed elements,
and to one more if it must succeed once. -/
theorem Parser.many_bounded_by_consumption [LawfulChunk T E] (parser : Parser T E A)
    (closed : parser.Closed) (s : State T) (hpos : Chunk.Boundary s.buffer s.pos.offset)
    (cs : List T) (hcs : Chunk.width s.buffer + Chunk.totalWidth cs < Size.storable) :
    (∀ (found : List A) (l : Loop T A), Loop.Reaches parser found.reverse s cs l →
      (∀ l', l.Goes parser l' →
        l.pos < l'.pos ∧ l'.pos.offset ≤ Chunk.width (Chunk.appendAll s.buffer cs)) ∧
      Acc (fun after before => before.Goes parser after) l ∧
      ∀ (R : Type) (lose : Lose T R) (win : Win T (List A) R), ∃ events,
        ((manyAfter found parser).run s lose win).Leads events cs (l.run parser win)) ∧
    (∀ leftover values,
      (((many parser).runFrom s).feedAll cs).status = .succeeded leftover values →
      ∃ (final : Pos) (es : List E),
        Chunk.Between (Chunk.appendAll s.buffer cs) s.pos.offset final.offset es ∧
        Chunk.drop (Chunk.appendAll s.buffer cs) final.offset = .ok leftover ∧
        values.length ≤ es.length) ∧
    (∀ leftover values,
      (((many1 parser).runFrom s).feedAll cs).status = .succeeded leftover values →
      ∃ (final : Pos) (es : List E),
        Chunk.Between (Chunk.appendAll s.buffer cs) s.pos.offset final.offset es ∧
        Chunk.drop (Chunk.appendAll s.buffer cs) final.offset = .ok leftover ∧
        values.length ≤ es.length + 1) := by
  have hs : s.Sound := ⟨by omega, hpos⟩
  have hmany : (many parser).Closed := closed
  have hmany1 : (many1 parser).Closed := ⟨closed, fun _ => closed⟩
  refine ⟨?_, ?_, ?_⟩
  · intro found l hreach
    obtain ⟨t, ht, hl⟩ := hreach.sound closed hs hcs
    refine ⟨?_, hl.acc closed, fun R _ win => hreach.leads closed hs hcs win⟩
    intro l' hgoes
    obtain ⟨hlt, hwidth, -⟩ := hl.goes closed hgoes
    rw [ht.buffer, State.givenAll_buffer] at hwidth
    exact ⟨hlt, hwidth⟩
  · intro leftover values h
    exact consumed_of_succeeded hmany hs (passes_manyAfter parser closed [] hs) hcs h
  · intro leftover values h
    exact consumed_of_succeeded hmany1 hs (passes_many1 parser closed hs) hcs h

theorem Parser.many_bounded_by_consumption_pairs :
    Acc (fun after before => before.Goes (orElse (take 2) (ensure 1) : Parser Text Char Text) after)
      (Loop.start (orElse (take 2) (ensure 1)) []
        ⟨Text.ofList ['é', 'a', 'b'], .ofOffset 2, .incomplete⟩) ∧
    (∃ (final : Pos) (es : List Char),
      Chunk.Between (Text.ofList ['é', 'a', 'b', 'ж']) 2 final.offset es ∧
      Chunk.drop (Text.ofList ['é', 'a', 'b', 'ж']) final.offset = .ok (Text.ofList ['ж']) ∧
      [Text.ofList ['a', 'b']].length ≤ es.length) ∧
    (∃ (final : Pos) (es : List UInt8),
      Chunk.Between (Segment.ofList [7] : Bytes) 0 final.offset es ∧
      Chunk.drop (Segment.ofList [7] : Bytes) final.offset = .ok (Segment.ofList [7]) ∧
      [true].length ≤ es.length + 1) := by
  refine ⟨?_, ?_, ?_⟩
  · exact ((many_bounded_by_consumption (orElse (take 2) (ensure 1) : Parser Text Char Text)
      ⟨trivial, trivial⟩ ⟨Text.ofList ['é', 'a', 'b'], .ofOffset 2, .incomplete⟩
      (Text.boundary_iff.2 (Text.isBoundary_iff.1 (by decide))) [] (by decide)).1 [] _ .start).2.1
  · exact (many_bounded_by_consumption (orElse (take 2) (ensure 1) : Parser Text Char Text)
      ⟨trivial, trivial⟩ ⟨Text.ofList ['é', 'a', 'b'], .ofOffset 2, .incomplete⟩
      (Text.boundary_iff.2 (Text.isBoundary_iff.1 (by decide))) [Text.ofList ['ж'], Text.ofList []]
      (by decide)).2.1 _ _ (Status.eq_of_agrees (by decide +kernel))
  · exact (many_bounded_by_consumption (wantInput : Parser Bytes UInt8 Bool) trivial
      ⟨Segment.ofList [7], .zero, .incomplete⟩ (Chunk.boundary_zero _) [] (by decide)).2.2 _ _
      (Status.eq_of_agrees (by decide +kernel))

end Piecemeal

import Piecemeal.Proofs.Parser.Threading

/-!
# Reading a list of elements

`Parser.reading` says what a closed parser makes of a plain list of elements, all of them there:
the value or the failure, and the elements left. It knows no positions, no waits and no ways to go
on. A choice commits to its first parser as soon as that one succeeds, and a repetition goes on for
as long as the list gets shorter.

`DerivedReadings` says the same of the parsers that are defined over others, each on its own.

On a complete input the verdict of a run agrees with the reading of the elements behind its position
(`agrees_reading`), so the run finishes at once with what the reading says.
-/

namespace Piecemeal

variable {T E A B : Type}

/-- What a parser makes of a list of elements. -/
inductive Reading (E A : Type) where
  /-- It failed where these elements were left. -/
  | failed (rest : List E) (failure : Failure)
  /-- It read a value and left these elements. -/
  | read (rest : List E) (value : A)

namespace Reading

def rest : Reading E A → List E
  | failed rest _ => rest
  | read rest _ => rest

def status [Chunk T E] : Reading E A → Status T A
  | failed rest failure => .failed (Chunk.ofList rest) failure
  | read rest value => .succeeded (Chunk.ofList rest) value

def orElse (first second : Reading E A) : Reading E A :=
  match first with
  | failed _ _ => second
  | read rest value => read rest value

def andThen (first : Reading E A) (next : A → List E → Reading E B) : Reading E B :=
  match first with
  | failed rest failure => failed rest failure
  | read rest value => next value rest

def label (name : String) : Reading E A → Reading E A
  | failed rest failure => failed rest (failure.within name)
  | read rest value => read rest value

/-- The values of a reader that is repeated until it fails or leaves no fewer elements, and the
elements left. -/
def many (one : List E → Reading E A) (es : List E) : List A × List E :=
  match one es with
  | failed _ _ => ([], es)
  | read rest value =>
    if rest.length < es.length then (value :: (many one rest).1, (many one rest).2) else ([], es)
termination_by es.length

end Reading

namespace Parser

/-- What a closed parser makes of a list of elements. -/
def reading [Chunk T E] :
    {A : Type} → (parser : Parser T E A) → parser.Closed → List E → Reading E A
  | _, succeed value, _, es => .read es value
  | _, fail reason, _, es => .failed es (.reading reason)
  | _, accept _, _, [] => .failed [] .notEnoughInput
  | _, accept refusal, _, e :: es =>
    match refusal e with
    | none => .read es e
    | some reason => .failed (e :: es) (.reading reason)
  | _, demandInput, _, es => .failed es .notEnoughInput
  | _, wantInput, _, es => .read es (!es.isEmpty)
  | _, ensure n, _, es =>
    if n ≤ es.length then .read es (Chunk.ofList (es.take n)) else .failed es .notEnoughInput
  | _, take n, _, es =>
    if n ≤ es.length then .read (es.drop n) (Chunk.ofList (es.take n))
    else .failed es .notEnoughInput
  | _, endOfInput, _, es => if es.isEmpty then .read es () else .failed es .endOfInput
  | _, orElse first second, closed, es =>
    (first.reading closed.1 es).orElse (second.reading closed.2 es)
  | _, andThen first next, closed, es =>
    (first.reading closed.1 es).andThen fun a rest => (next a).reading (closed.2 a) rest
  | _, map f parser, closed, es =>
    (parser.reading closed es).andThen fun a rest => .read rest (f a)
  | _, manyAfter found parser, closed, es =>
    .read (Reading.many (parser.reading closed) es).2
      (found ++ (Reading.many (parser.reading closed) es).1)
  | _, label name parser, closed, es => (parser.reading closed es).label name
  | _, custom _, closed, _ => closed.elim

end Parser

/-! ## Parsers that are defined over others -/

namespace Parser

/-- What the parsers that are defined over others make of a list of elements. -/
structure DerivedReadings (T : Type) {E : Type} [Chunk T E] : Prop where
  never : ∀ (A : Type) (es : List E),
    (Parser.never : Parser T E A).reading trivial es = .failed es (.reading "empty")
  satisfy : ∀ (predicate : E → Bool) (es : List E),
    (Parser.satisfy predicate : Parser T E E).reading trivial es =
      match es with
      | [] => .failed [] .notEnoughInput
      | e :: rest =>
        if predicate e then .read rest e else .failed (e :: rest) (.reading "satisfy")
  element : ∀ [DecidableEq E] (expected : E) (es : List E),
    (Parser.element expected : Parser T E E).reading trivial es =
      match es with
      | [] => .failed [] .notEnoughInput
      | e :: rest =>
        if e = expected then .read rest e
        else .failed (e :: rest) (.reading ("expected "
          ++ Literal.quoteChar (Chunk.toChar T expected) ++ ", found "
          ++ Literal.quoteChar (Chunk.toChar T e)))
  anyElement : ∀ es : List E,
    (Parser.anyElement : Parser T E E).reading trivial es =
      match es with
      | [] => .failed [] .notEnoughInput
      | e :: rest => .read rest e
  atEnd : ∀ es : List E, (Parser.atEnd : Parser T E Bool).reading trivial es = .read es es.isEmpty
  both : ∀ {A B : Type} (first : Parser T E A) (second : Parser T E B) (hfirst : first.Closed)
    (hsecond : second.Closed) (es : List E),
    (Parser.both first second).reading ⟨hfirst, fun _ => hsecond⟩ es =
      (first.reading hfirst es).andThen fun a rest =>
        (second.reading hsecond rest).andThen fun b rest => .read rest (a, b)
  many : ∀ {A : Type} (parser : Parser T E A) (closed : parser.Closed) (es : List E),
    (Parser.many parser).reading closed es =
      match parser.reading closed es with
      | .failed _ _ => .read es []
      | .read rest value =>
        if rest.length < es.length then
          ((Parser.many parser).reading closed rest).andThen fun values rest =>
            .read rest (value :: values)
        else .read es []
  many1 : ∀ {A : Type} (parser : Parser T E A) (closed : parser.Closed) (es : List E),
    (Parser.many1 parser).reading ⟨closed, fun _ => closed⟩ es =
      (parser.reading closed es).andThen fun value rest =>
        ((Parser.many parser).reading closed rest).andThen fun values rest =>
          .read rest (value :: values)

theorem reading_accept_cons [Chunk T E] (refusal : E → Option String)
    (closed : (accept refusal : Parser T E E).Closed) (e : E) (rest : List E) :
    (accept refusal : Parser T E E).reading closed (e :: rest) =
      match refusal e with
      | none => .read rest e
      | some reason => .failed (e :: rest) (.reading reason) := rfl

theorem derivedReadings (T : Type) {E : Type} [Chunk T E] : DerivedReadings T := by
  refine ⟨?never, ?satisfy, ?element, ?anyElement, ?atEnd, ?both, ?many, ?many1⟩
  case never => intro A es; rfl
  case satisfy =>
    intro predicate es
    cases es with
    | nil => rfl
    | cons e rest =>
      refine (reading_accept_cons _ _ e rest).trans ?_
      cases h : predicate e <;> simp [h]
  case element =>
    intro _ expected es
    cases es with
    | nil => rfl
    | cons e rest =>
      refine (reading_accept_cons _ _ e rest).trans ?_
      by_cases h : e = expected <;> simp [h]
  case anyElement =>
    intro es
    cases es <;> rfl
  case atEnd =>
    intro es
    cases es <;> rfl
  case both => intro A B first second hfirst hsecond es; rfl
  case many =>
    intro A parser closed es
    show Reading.read (Reading.many (parser.reading closed) es).2
      (Reading.many (parser.reading closed) es).1 = _
    rw [Reading.many]
    cases parser.reading closed es with
    | failed rest failure => rfl
    | read rest value =>
      simp only
      split <;> rfl
  case many1 => intro A parser closed es; rfl

end Parser

/-! ## A reading only takes elements off the front -/

namespace Reading

theorem suffix_many {one : List E → Reading E A} (hone : ∀ es, (one es).rest <:+ es)
    (es : List E) : (many one es).2 <:+ es := by
  fun_induction many one es with
  | case1 es rest failure hes => exact List.suffix_refl es
  | case2 es rest value hes hlt ih =>
    have hsuffix := hone es
    rw [hes] at hsuffix
    exact ih.trans hsuffix
  | case3 es rest value hes hlt => exact List.suffix_refl es

theorem suffix_andThen {first : Reading E A} {next : A → List E → Reading E B} {es : List E}
    (hfirst : first.rest <:+ es) (hnext : ∀ a rest, (next a rest).rest <:+ rest) :
    (first.andThen next).rest <:+ es := by
  cases first with
  | failed rest failure => exact hfirst
  | read rest value => exact (hnext value rest).trans hfirst

end Reading

namespace Parser

variable [Chunk T E]

theorem suffix_reading (parser : Parser T E A) (closed : parser.Closed) (es : List E) :
    (parser.reading closed es).rest <:+ es := by
  induction parser generalizing es with
  | succeed => exact List.suffix_refl es
  | fail => exact List.suffix_refl es
  | accept refusal =>
    cases es with
    | nil => exact List.suffix_refl []
    | cons e es =>
      unfold reading
      split
      · exact List.suffix_cons e es
      · exact List.suffix_refl _
  | demandInput => exact List.suffix_refl es
  | wantInput => exact List.suffix_refl es
  | ensure n =>
    unfold reading
    split <;> exact List.suffix_refl es
  | take n =>
    unfold reading
    split
    · exact List.drop_suffix n es
    · exact List.suffix_refl es
  | endOfInput =>
    unfold reading
    split <;> exact List.suffix_refl es
  | orElse first second ihFirst ihSecond =>
    have hfirst := ihFirst closed.1 es
    unfold reading
    cases hread : first.reading closed.1 es with
    | failed => exact ihSecond closed.2 es
    | read rest value =>
      rw [hread] at hfirst
      exact hfirst
  | andThen first next ihFirst ihNext =>
    exact Reading.suffix_andThen (ihFirst closed.1 es) fun a rest => ihNext a (closed.2 a) rest
  | map f parser ih =>
    exact Reading.suffix_andThen (ih closed es) fun _ rest => List.suffix_refl rest
  | manyAfter found parser ih => exact Reading.suffix_many (ih closed) es
  | label name parser ih =>
    have hbody := ih closed es
    unfold reading
    cases hread : parser.reading closed es <;> rw [hread] at hbody <;> exact hbody
  | custom => exact closed.elim

end Parser

/-! ## Runs on a complete input -/

/-- The verdict has the failure or the value of the reading, at a position with the elements that
the reading left. -/
inductive Verdict.Agrees [Chunk T E] : Verdict T A → Reading E A → Prop where
  | lost {next : State T} {failure : Failure} {before rest : List E} :
      Chunk.SplitsAt next.buffer next.pos.offset before rest →
      Agrees (.lost next failure) (.failed rest failure)
  | won {next : State T} {value : A} {before rest : List E} :
      Chunk.SplitsAt next.buffer next.pos.offset before rest →
      Agrees (.won next value) (.read rest value)

/-- On complete inputs the runs come to the verdicts that the readings say. -/
def ReadsAs [Chunk T E] (start : State T → Outcome T (Verdict T A))
    (read : List E → Reading E A) : Prop :=
  ∀ {s : State T} {before after : List E}, s.Sound → s.more = .complete →
    Chunk.SplitsAt s.buffer s.pos.offset before after →
    ∃ v, (start s).value? = some v ∧ s.Onward v.state ∧ v.Agrees (read after)

open Verdict in
theorem readsAs_repeating [Chunk T E] [LawfulChunk T E]
    {attempt : State T → Outcome T (Verdict T A)} {one : List E → Reading E A}
    (hattempt : ReadsAs attempt one) {s : State T} {found : List A} {before after : List E}
    (hs : s.Sound) (hmore : s.more = .complete)
    (h : Chunk.SplitsAt s.buffer s.pos.offset before after) :
    ∃ v, (repeating attempt s found winning).value? = some v ∧
      v.Agrees (.read (Reading.many one after).2
        (found.reverse ++ (Reading.many one after).1)) := by
  fun_induction repeating attempt s found winning generalizing before after with
  | case1 s found ih =>
    obtain ⟨v, hv, honward, hagrees⟩ := hattempt hs hmore h
    have hback : v.state.moveTo s.pos = s := honward.moveTo
    have hhere : (Verdict.won s found.reverse).Agrees (.read after (found.reverse ++ [])) := by
      rw [List.append_nil]
      exact .won h
    rw [Outcome.value?_bind_of_value? hv, Reading.many]
    generalize one after = reading at hagrees
    cases hagrees with
    | lost hsplit => exact ⟨_, rfl, hback.symm ▸ hhere⟩
    | @won next value _ rest hsplit =>
      rw [state_won] at honward
      rw [honward.buffer] at hsplit
      have hlt : s.pos < next.pos ↔ rest.length < after.length := h.lt_iff hsplit
      simp only
      by_cases hprogress : s.pos < next.pos
      · rw [if_pos hprogress, if_pos (hlt.1 hprogress)]
        rw [← honward.buffer] at hsplit
        obtain ⟨w, hw, hw'⟩ := ih next value hprogress (honward.sound hs)
          (honward.more.trans hmore) hsplit
        refine ⟨w, hw, ?_⟩
        simpa using hw'
      · rw [if_neg hprogress, if_neg (fun hshort => hprogress (hlt.2 hshort))]
        exact ⟨_, rfl, hback.symm ▸ hhere⟩

namespace Parser

open Verdict

variable [Chunk T E] [LawfulChunk T E]

variable {s : State T} {before after : List E}

theorem value?_ensure_complete (hs : s.Sound) (hmore : s.more = .complete)
    (h : Chunk.SplitsAt s.buffer s.pos.offset before after) (n : Nat) :
    ((ensure n : Parser T E T).verdict s).value? =
      if n ≤ after.length then some (won s (Chunk.ofList (after.take n)))
      else some (lost s .notEnoughInput) := by
  rw [value?_ensure hs h, hmore]
  rfl

theorem agrees_accept (refusal : E → Option String)
    (closed : (accept refusal : Parser T E E).Closed) (hs : s.Sound) (hmore : s.more = .complete)
    (h : Chunk.SplitsAt s.buffer s.pos.offset before after) :
    ∃ v, ((accept refusal).verdict s).value? = some v ∧
      v.Agrees ((accept refusal).reading closed after) := by
  rw [verdict_accept, Outcome.value?_bind, value?_ensure_complete hs hmore h]
  cases after with
  | nil => exact ⟨_, rfl, .lost h⟩
  | cons e es =>
    have hhead : Chunk.head (Chunk.ofList ((e :: es).take 1) : T) = .ok e :=
      LawfulChunk.head_of_cons (LawfulChunk.toList_ofList _)
    have hone : 1 ≤ (e :: es).length := Nat.succ_le_succ (Nat.zero_le _)
    rw [if_pos hone, Option.bind_some, Verdict.resolve, accepting, hhead, Outcome.require_ok]
    unfold reading
    cases refusal e with
    | none => exact ⟨_, rfl, .won (hs.advance h 1)⟩
    | some reason => exact ⟨_, rfl, .lost h⟩

theorem agrees_take (n : Nat) (closed : (take n : Parser T E T).Closed) (hs : s.Sound)
    (hmore : s.more = .complete) (h : Chunk.SplitsAt s.buffer s.pos.offset before after) :
    ∃ v, ((take n).verdict s).value? = some v ∧ v.Agrees ((take n).reading closed after) := by
  rw [verdict_take, Outcome.value?_bind, value?_ensure_complete hs hmore h]
  unfold reading
  by_cases hn : n ≤ after.length
  · rw [if_pos hn, if_pos hn]
    exact ⟨_, rfl, .won (hs.advance h n)⟩
  · rw [if_neg hn, if_neg hn]
    exact ⟨_, rfl, .lost h⟩

theorem agrees_reading (parser : Parser T E A) (closed : parser.Closed) (hs : s.Sound)
    (hmore : s.more = .complete) (h : Chunk.SplitsAt s.buffer s.pos.offset before after) :
    ∃ v, (parser.verdict s).value? = some v ∧ v.Agrees (parser.reading closed after) := by
  induction parser generalizing s before after with
  | succeed => exact ⟨_, rfl, .won h⟩
  | fail => exact ⟨_, rfl, .lost h⟩
  | accept refusal => exact agrees_accept refusal closed hs hmore h
  | demandInput =>
    simp only [verdict, run, hmore, More.isComplete, if_true]
    exact ⟨_, rfl, .lost h⟩
  | wantInput =>
    rw [value?_wantInput hs h, hmore]
    cases after with
    | nil => exact ⟨_, rfl, .won h⟩
    | cons e es => exact ⟨_, rfl, .won h⟩
  | ensure n =>
    rw [value?_ensure_complete hs hmore h]
    unfold reading
    by_cases hn : n ≤ after.length
    · rw [if_pos hn, if_pos hn]
      exact ⟨_, rfl, .won h⟩
    · rw [if_neg hn, if_neg hn]
      exact ⟨_, rfl, .lost h⟩
  | take n => exact agrees_take n closed hs hmore h
  | endOfInput =>
    rw [value?_endOfInput hs h, hmore]
    cases after with
    | nil => exact ⟨_, rfl, .won h⟩
    | cons e es => exact ⟨_, rfl, .lost h⟩
  | orElse first second ihFirst ihSecond =>
    obtain ⟨v, hv, hagrees⟩ := ihFirst closed.1 hs hmore h
    have hback := (onward_of_value? first closed.1 hs hv).moveTo
    rw [verdict_orElse closed, Outcome.value?_bind_of_value? hv]
    unfold reading
    generalize first.reading closed.1 after = reading at hagrees
    cases hagrees with
    | lost hsplit =>
      have hsecond := ihSecond closed.2 hs hmore h
      rw [← hback] at hsecond
      exact hsecond
    | won hsplit => exact ⟨_, rfl, .won hsplit⟩
  | andThen first next ihFirst ihNext =>
    obtain ⟨v, hv, hagrees⟩ := ihFirst closed.1 hs hmore h
    have honward := onward_of_value? first closed.1 hs hv
    rw [verdict_andThen closed, Outcome.value?_bind_of_value? hv]
    unfold reading
    generalize first.reading closed.1 after = reading at hagrees
    cases hagrees with
    | lost hsplit => exact ⟨_, rfl, .lost hsplit⟩
    | won hsplit =>
      exact ihNext _ (closed.2 _) (honward.sound hs) (honward.more.trans hmore) hsplit
  | map f parser ih =>
    obtain ⟨v, hv, hagrees⟩ := ih closed hs hmore h
    rw [verdict_map f parser closed, Outcome.value?_bind_of_value? hv]
    unfold reading
    generalize parser.reading closed after = reading at hagrees
    cases hagrees with
    | lost hsplit => exact ⟨_, rfl, .lost hsplit⟩
    | won hsplit => exact ⟨_, rfl, .won hsplit⟩
  | manyAfter found parser ih =>
    have hattempt : ReadsAs parser.verdict (parser.reading closed) := by
      intro t before after ht htmore hsplit
      obtain ⟨v, hv, hagrees⟩ := ih closed ht htmore hsplit
      exact ⟨v, hv, onward_of_value? parser closed ht hv, hagrees⟩
    obtain ⟨v, hv, hagrees⟩ := readsAs_repeating hattempt hs hmore h
    rw [List.reverse_reverse] at hagrees
    exact ⟨v, hv, hagrees⟩
  | label name parser ih =>
    obtain ⟨v, hv, hagrees⟩ := ih closed hs hmore h
    rw [verdict_label name parser closed, Outcome.value?_bind_of_value? hv]
    unfold reading
    generalize parser.reading closed after = reading at hagrees
    cases hagrees with
    | lost hsplit => exact ⟨_, rfl, .lost hsplit⟩
    | won hsplit => exact ⟨_, rfl, .won hsplit⟩
  | custom => exact closed.elim

theorem status_of_agrees {v : Verdict T A} {r : Reading E A} (h : v.Agrees r) :
    (v.resolve stopFailed stopSucceeded).status = r.status := by
  cases h with
  | @lost next failure _ _ hsplit =>
    rw [resolve_stop (.lost next failure) (LawfulChunk.drop_eq hsplit)]
    rfl
  | @won next value _ _ hsplit =>
    rw [resolve_stop (.won next value) (LawfulChunk.drop_eq hsplit)]
    rfl

/-- A run on a complete input has finished, with the reading of its elements. Readings take elements
off the front only, so a repetition ends where the list stays as it is, and parsers that are defined
over others read as described. -/
theorem parseWith_complete_eq_reading (parser : Parser T E A) (closed : parser.Closed) (data : T)
    (hdata : Chunk.width data < Size.storable) :
    (parser.parseWith data .complete).status
      = (parser.reading closed (Chunk.toList data)).status ∧
    (∀ es, (parser.reading closed es).rest <:+ es) ∧ DerivedReadings T := by
  refine ⟨?_, suffix_reading parser closed, derivedReadings T⟩
  have hs : (State.start data .complete).Sound := ⟨hdata, Chunk.boundary_zero data⟩
  have hsplit : Chunk.SplitsAt data 0 [] (Chunk.toList data) := ⟨rfl, Chunk.widthOf_nil⟩
  obtain ⟨v, hv, hagrees⟩ := agrees_reading parser closed hs rfl hsplit
  rw [parseWith, runFrom, run_eq_bind_verdict parser closed, Outcome.status_bind_of_value? hv]
  exact status_of_agrees hagrees

theorem parseWith_complete_pairs :
    ((many (orElse (take 2) (take 1)) : Parser Text Char (List Text)).parseWith
        (Text.ofList ['é', 'a', 'ж']) .complete).status
      = .succeeded (Text.ofList []) [Text.ofList ['é', 'a'], Text.ofList ['ж']] ∧
    ((label "pair" (take 2) : Parser Bytes UInt8 Bytes).parseWith
        (Segment.ofList [7]) .complete).status
      = .failed (Segment.ofList [7]) ⟨["pair"], "not enough input"⟩ := by
  constructor
  · have h := parseWith_complete_eq_reading
      (many (orElse (take 2) (take 1)) : Parser Text Char (List Text)) ⟨trivial, trivial⟩
      (Text.ofList ['é', 'a', 'ж']) (by decide)
    refine h.1.trans ?_
    rw [show Chunk.toList (Text.ofList ['é', 'a', 'ж']) = ['é', 'a', 'ж'] from Text.toList_ofList _]
    simp [many, reading, Reading.many, Reading.orElse, Reading.status, Chunk.ofList]
  · have h := parseWith_complete_eq_reading
      (label "pair" (take 2) : Parser Bytes UInt8 Bytes) trivial (Segment.ofList [7]) (by decide)
    exact h.1.trans rfl

end Parser

end Piecemeal

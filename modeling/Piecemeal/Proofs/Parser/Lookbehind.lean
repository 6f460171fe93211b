import Piecemeal.Proofs.Parser.Lockstep

/-!
# What is consumed has no influence

A run keeps the input that it has consumed, to go back to, and its positions count it. But no
parser looks behind the position where it was started: a run from a position does what a run from
any other position with the same rest does, and logs the same events, with the bytes in front not
counted (`finishing_shifted`). The two runs are in lockstep, so this is a case of
`Pairing.finishing_runFrom`.

Requests for more elements than any buffer can hold are refused by a test of the position, so it is
asked that the run makes none on its way, or that the input is complete, where they are refused
anyway.
-/

namespace Piecemeal

variable {T E A : Type} [Chunk T E]

/-! ## An input and its rest -/

namespace Pairing

/-- An input, and the same input without the bytes in front. -/
def withoutFront (T : Type) {E : Type} [Chunk T E] (skip : Nat) : Pairing T T where
  elements := Eq
  widthOf_eq h := by rw [h]
  skip := skip

variable {skip : Nat}

theorem chunks_withoutFront [LawfulChunk T E] {c c' : T} :
    (withoutFront T skip).chunks c c' ↔ c = c' := by
  have heq : (withoutFront T skip).chunks c c' ↔ Chunk.toList c = Chunk.toList c' := by
    rw [← List.forall₂_eq_eq_eq]
    rfl
  rw [heq]
  exact ⟨Chunk.ext_toList, fun h => h ▸ rfl⟩

theorem forall₂_chunks_self [LawfulChunk T E] (skip : Nat) (cs : List T) :
    List.Forall₂ (withoutFront T skip).chunks cs cs :=
  List.forall₂_same.2 fun _ _ => chunks_withoutFront.2 rfl

theorem corresponds_self [LawfulChunk T E] (parser : Parser T E A) (closed : parser.Closed) :
    (withoutFront T skip).Corresponds Eq parser parser := by
  induction parser with
  | succeed value => exact .succeed rfl
  | fail reason => exact .fail reason
  | accept refusal => exact .accept fun _ _ h => congrArg refusal h
  | demandInput => exact .demandInput
  | wantInput => exact .wantInput
  | ensure n => exact .weaken (fun _ _ h => chunks_withoutFront.1 h) (.ensure n)
  | take n => exact .weaken (fun _ _ h => chunks_withoutFront.1 h) (.take n)
  | endOfInput => exact .endOfInput
  | orElse first second ihFirst ihSecond => exact .orElse (ihFirst closed.1) (ihSecond closed.2)
  | andThen first next ihFirst ihNext =>
    refine .andThen (ihFirst closed.1) ?_
    rintro a _ rfl
    exact ihNext a (closed.2 a)
  | map f parser ih => exact .map (fun _ _ h => congrArg f h) (ih closed)
  | manyAfter found parser ih =>
    refine .weaken ?_ (.manyAfter (List.forall₂_same.2 fun _ _ => rfl) (ih closed))
    intro values values' h
    rw [List.forall₂_eq_eq_eq] at h
    exact h
  | label name parser ih => exact .label name (ih closed)
  | custom => exact closed.elim

theorem matches_of_standAlike [LawfulChunk T E] : {st st' : Status T A} →
    (withoutFront T skip).StandAlike Eq st st' → st.Matches st'
  | .failed _ _, .failed _ _, h => ⟨chunks_withoutFront.1 h.1, h.2⟩
  | .succeeded _ _, .succeeded _ _, h => ⟨chunks_withoutFront.1 h.1, h.2⟩
  | .suspended _, .suspended _, _ => trivial

/-- A count up to `2 ^ 63 - 1` is no larger than a size wherever it is asked for. -/
theorem grants_of_le {n : Nat} (h : n ≤ Nat.pow 2 63 - 1) : (withoutFront T skip).Grants n := by
  have hsmall : Nat.pow 2 63 - 1 + Size.storable ≤ Size.max := by decide
  exact .inr (Nat.le_trans (Nat.add_le_add_right h _) hsmall)

end Pairing

namespace Parser

variable [LawfulChunk T E]

/-- Runs from two positions with the same rest, given the same increments, finish together. -/
theorem finishing_shifted (parser : Parser T E A) (closed : parser.Closed) {s s' : State T}
    {before before' after : List E} (h : Chunk.SplitsAt s.buffer s.pos.offset before after)
    (h' : Chunk.SplitsAt s'.buffer s'.pos.offset before' after) (hmore : s.more = s'.more)
    {skip : Nat} (hskip : s.pos.offset = s'.pos.offset + skip) {cs : List T}
    (hcs : Chunk.width s.buffer + Chunk.totalWidth cs < Size.storable)
    (hasks : s.more = .complete ∨ ∀ n, parser.Requests s cs n → parser.Requests s' cs n →
      n ≤ Nat.pow 2 63 - 1) :
    (Pairing.withoutFront T skip).Finishing Eq cs cs (parser.runFrom s) (parser.runFrom s') := by
  refine Pairing.finishing_runFrom (Pairing.corresponds_self parser closed) closed closed ?_ ?_
  · have hrest : List.Forall₂ Eq after after := List.forall₂_same.2 fun _ _ => rfl
    exact ⟨⟨by omega, before, after, h⟩, ⟨before, after, before', after, h, h', hrest⟩, hskip,
      hmore, Pairing.forall₂_chunks_self skip cs, hcs⟩
  · exact hasks.imp_right fun hall n hn hn' => Pairing.grants_of_le (hall n hn hn')

/-- Where a run from a position stands after these increments is decided by what follows the
position, whatever comes before it and however far on it is, as long as it asks on its way for no
more than `2 ^ 63 - 1` elements at once or the input is complete. The run on the rest alone logs the
same events, with the bytes in front not counted. -/
theorem runFrom_ignores_consumed (parser : Parser T E A) (closed : parser.Closed) (s : State T)
    (hpos : Chunk.Boundary s.buffer s.pos.offset) (cs : List T)
    (hcs : Chunk.width s.buffer + Chunk.totalWidth cs < Size.storable)
    (hcounts : s.more = .complete ∨ ∀ n, parser.Requests s cs n → n ≤ Nat.pow 2 63 - 1) :
    (∃ rest, Chunk.drop s.buffer s.pos.offset = .ok rest ∧
      ((parser.runFrom s).feedAll cs).status.Matches
        ((parser.parseWith rest s.more).feedAll cs).status ∧
      ((parser.runFrom s).feedAll cs).events =
        ((parser.parseWith rest s.more).feedAll cs).events.map (Event.shifted s.pos.offset)) ∧
    (∀ s' : State T, Chunk.Boundary s'.buffer s'.pos.offset →
      Chunk.width s'.buffer + Chunk.totalWidth cs < Size.storable → s'.more = s.more →
      Chunk.drop s'.buffer s'.pos.offset = Chunk.drop s.buffer s.pos.offset →
      ((parser.runFrom s').feedAll cs).status.Matches ((parser.runFrom s).feedAll cs).status) := by
  obtain ⟨before, after, h⟩ := hpos
  have hrest := LawfulChunk.drop_eq h
  constructor
  · have hstart : Chunk.SplitsAt (State.start (Chunk.ofList after : T) s.more).buffer
        (State.start (Chunk.ofList after : T) s.more).pos.offset [] after :=
      ⟨LawfulChunk.toList_ofList after, Chunk.widthOf_nil⟩
    have halike := (finishing_shifted parser closed h hstart rfl (Nat.zero_add _).symm hcs
      (hcounts.imp_right fun hall n hn _ => hall n hn)).feedAll (Pairing.forall₂_chunks_self _ cs)
    exact ⟨_, hrest, Pairing.matches_of_standAlike halike.1, halike.2⟩
  · intro s' hpos' hcs' hmore hdrop
    obtain ⟨before', after', h'⟩ := hpos'
    obtain rfl : after' = after := by
      rw [hrest, LawfulChunk.drop_eq h'] at hdrop
      have hlist := congrArg Chunk.toList (Except.ok.inj hdrop)
      rwa [LawfulChunk.toList_ofList, LawfulChunk.toList_ofList] at hlist
    rcases Nat.le_total s.pos.offset s'.pos.offset with hle | hle
    · have halike := (finishing_shifted parser closed h' h hmore
        (Nat.add_sub_cancel' hle).symm hcs' ?_).feedAll (Pairing.forall₂_chunks_self _ cs)
      · exact Pairing.matches_of_standAlike halike.1
      · rw [hmore]
        exact hcounts.imp_right fun hall n _ hn => hall n hn
    · have halike := (finishing_shifted parser closed h h' hmore.symm
        (Nat.add_sub_cancel' hle).symm hcs ?_).feedAll (Pairing.forall₂_chunks_self _ cs)
      · exact (Pairing.matches_of_standAlike halike.1).symm
      · exact hcounts.imp_right fun hall n hn _ => hall n hn

theorem runFrom_ignores_consumed_text :
    (∃ rest, Chunk.drop (Text.ofList ['é', 'a']) 2 = .ok rest ∧
      (((orElse (andThen (succeed 3) take) (take 1) : Parser Text Char Text).runFrom
        ⟨Text.ofList ['é', 'a'], .ofOffset 2, .incomplete⟩).feedAll
        [Text.ofList ['ж'], Text.ofList []]).status.Matches
      (((orElse (andThen (succeed 3) take) (take 1) : Parser Text Char Text).parseWith rest
        .incomplete).feedAll [Text.ofList ['ж'], Text.ofList []]).status) ∧
    (((orElse (take Size.max) (take 1) : Parser Bytes UInt8 Bytes).runFrom
        ⟨Segment.ofList [9, 9, 7], .ofOffset 2, .complete⟩).feedAll
        [Segment.ofList [8]]).status.Matches
      (((orElse (take Size.max) (take 1) : Parser Bytes UInt8 Bytes).runFrom
        ⟨Segment.ofList [5, 7], .ofOffset 1, .complete⟩).feedAll [Segment.ofList [8]]).status := by
  constructor
  · have hcounts : ∀ n,
        (orElse (andThen (succeed 3) take) (take 1) : Parser Text Char Text).Requests
        ⟨Text.ofList ['é', 'a'], .ofOffset 2, .incomplete⟩ [Text.ofList ['ж'], Text.ofList []] n →
        n ≤ Nat.pow 2 63 - 1 := by
      rintro n ((hnone | ⟨mid, value, ds, ⟨events, before, leftover, -, hlead⟩, rfl⟩) |
        ⟨failed, failure, ds, -, rfl⟩)
      · exact hnone.elim
      · cases hlead
        decide
      · decide
    have hclosed : (orElse (andThen (succeed 3) take) (take 1) : Parser Text Char Text).Closed :=
      And.intro ⟨trivial, fun _ => trivial⟩ trivial
    obtain ⟨rest, hrest, halike, -⟩ := (runFrom_ignores_consumed
      (orElse (andThen (succeed 3) take) (take 1) : Parser Text Char Text)
      hclosed
      ⟨Text.ofList ['é', 'a'], .ofOffset 2, .incomplete⟩
      (Text.boundary_iff.2 (Text.isBoundary_iff.1 (by decide))) [Text.ofList ['ж'], Text.ofList []]
      (by decide) (.inr hcounts)).1
    exact ⟨rest, hrest, halike⟩
  · exact (runFrom_ignores_consumed (orElse (take Size.max) (take 1) : Parser Bytes UInt8 Bytes)
      ⟨trivial, trivial⟩ ⟨Segment.ofList [5, 7], .ofOffset 1, .complete⟩
      (Bytes.boundary_iff.2 (by decide)) [Segment.ofList [8]] (by decide) (.inl rfl)).2
      ⟨Segment.ofList [9, 9, 7], .ofOffset 2, .complete⟩ (Bytes.boundary_iff.2 (by decide))
      (by decide) rfl (congrArg Except.ok (Segment.ext (by decide)))

end Parser

end Piecemeal

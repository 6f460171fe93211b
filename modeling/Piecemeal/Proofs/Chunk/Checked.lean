import Piecemeal.Proofs.Chunk.Elements

/-!
# Chunks that check what they are asked

`Chunk.checked` are the same chunks, except that they answer a request only if it meets its
precondition: an offset between two elements, as many elements behind it as are asked for, and
sums that are sizes. Any other request is a fault. So a run over checked chunks that is never broken
off makes no request but what it may ask.

The laws of chunks speak of requests that may be made, so checked chunks obey them
(`lawfulChunk_checked`), and what was proved of lawful chunks holds of runs over checked ones.
-/

namespace Piecemeal.Chunk

open LawfulChunk

variable {T E A : Type} [Chunk T E]

/-- The offset lies between two elements, or at either end, and at least `n` elements follow it. -/
def Holds (c : T) (offset n : Nat) : Prop :=
  ∃ before after : List E, SplitsAt c offset before after ∧ n ≤ after.length

theorem holds_iff_take {c : T} {offset n : Nat} :
    Holds c offset n ↔ ∃ k, k < (toList c).length + 1 ∧
      widthOf T ((toList c).take k) = offset ∧ k + n ≤ (toList c).length := by
  constructor
  · rintro ⟨before, after, ⟨hlist, hwidth⟩, hn⟩
    refine ⟨before.length, ?_, ?_, ?_⟩
    · rw [hlist, List.length_append]
      omega
    · rw [hlist, List.take_left]
      exact hwidth
    · rw [hlist, List.length_append]
      omega
  · rintro ⟨k, -, hwidth, hn⟩
    refine ⟨(toList c).take k, (toList c).drop k, ⟨?_, hwidth⟩, ?_⟩
    · rw [List.take_append_drop]
    · rw [List.length_drop]
      omega

instance (c : T) (offset n : Nat) : Decidable (Holds c offset n) :=
  decidable_of_iff _ holds_iff_take.symm

/-- The answer to a request that may be made; any other is a fault. -/
def answerIf (may : Prop) [Decidable may] (fault : Fault) (answer : Except Fault A) :
    Except Fault A :=
  if may then answer else .error fault

theorem answerIf_of_may {may : Prop} [Decidable may] {fault : Fault} {answer : Except Fault A}
    (h : may) : answerIf may fault answer = answer := if_pos h

theorem answerIf_of_ok {may : Prop} [Decidable may] {fault : Fault} {answer : Except Fault A}
    {a : A} (h : answerIf may fault answer = .ok a) : may ∧ answer = .ok a := by
  unfold answerIf at h
  split at h
  · next hmay => exact ⟨hmay, h⟩
  · cases h

/-- The `n` elements that follow an offset, if they are there and neither the request nor the offset
behind the answer is larger than any size. -/
def checkedSubstring (c : T) (offset n : Nat) : Except Fault T :=
  match answerIf (Holds c offset n ∧ offset + n ≤ Size.max)
    (.fewCharacters n offset (literal c)) (substring c offset n) with
  | .ok taken => answerIf (offset + width taken ≤ Size.max) .overflow (.ok taken)
  | .error fault => .error fault

theorem substring_of_checked {c taken : T} {offset n : Nat}
    (h : checkedSubstring c offset n = .ok taken) :
    substring c offset n = .ok taken ∧ offset + width taken ≤ Size.max := by
  unfold checkedSubstring at h
  split at h
  · next found hfound =>
    obtain ⟨hsize, hsame⟩ := answerIf_of_ok h
    cases hsame
    exact ⟨(answerIf_of_ok hfound).2, hsize⟩
  · cases h

/-- The same chunks; their operations answer only what they may be asked. -/
@[reducible] def checked (T : Type) {E : Type} [chunk : Chunk T E] : Chunk T E :=
  { chunk with
    head := fun c => answerIf (Holds c 0 1) .emptyText (head c)
    tail := fun c => answerIf (Holds c 0 1) .emptyText (tail c)
    lengthAtLeast := fun c offset n =>
      answerIf (Holds c offset 0) (.offBoundary offset (literal c)) (lengthAtLeast c offset n)
    substring := checkedSubstring
    drop := fun c offset =>
      answerIf (Holds c offset 0) (.offBoundary offset (literal c)) (drop c offset)
    width_lt_of_short := fun h => width_lt_of_short (answerIf_of_ok h).2 }

theorem SplitsAt.holds {c : T} {offset n : Nat} {before after : List E}
    (h : SplitsAt c offset before after) (hn : n ≤ after.length) : Holds c offset n :=
  ⟨before, after, h, hn⟩

theorem checkedSubstring_eq [LawfulChunk T E] {c : T} {offset n : Nat} {before after : List E}
    (h : SplitsAt c offset before after) (hw : width c < Size.max) (hn : n ≤ after.length) :
    checkedSubstring c offset n = .ok (ofList (after.take n)) := by
  have hwidth := h.width_eq
  have hlength := length_le_widthOf (T := T) after
  have hsplit := (h.advance n).width_eq
  have hmay : Holds c offset n ∧ offset + n ≤ Size.max := ⟨h.holds hn, by omega⟩
  have hsize : offset + width (ofList (after.take n) : T) ≤ Size.max := by
    unfold widthOf at hsplit
    omega
  unfold checkedSubstring answerIf
  rw [if_pos hmay, substring_eq h hw hn]
  exact if_pos hsize

/-- The laws ask nothing that may not be asked. -/
theorem lawfulChunk_checked [lawful : LawfulChunk T E] : @LawfulChunk T E (checked T) := by
  refine @LawfulChunk.mk T E (checked T) lawful.toList_ofList lawful.ofList_toList
    lawful.toList_append lawful.toList_empty lawful.isEmpty_iff ?head ?length ?substring ?drop
  case head =>
    intro c e es h
    have hsplit : SplitsAt c 0 [] (e :: es) := ⟨h, widthOf_nil⟩
    exact (answerIf_of_may (hsplit.holds (Nat.le_add_left 1 _))).trans (lawful.head_of_cons h)
  case length =>
    intro c offset before after h hw n
    have hsplit : SplitsAt c offset before after := h
    exact (answerIf_of_may (hsplit.holds (Nat.zero_le _))).trans (lawful.lengthAtLeast_eq h hw n)
  case substring =>
    intro c offset n before after h hw hn
    exact checkedSubstring_eq h hw hn
  case drop =>
    intro c offset before after h
    have hsplit : SplitsAt c offset before after := h
    exact (answerIf_of_may (hsplit.holds (Nat.zero_le _))).trans (lawful.drop_eq h)

end Piecemeal.Chunk

import Piecemeal.Proofs.Chunk.Elements

/-!
# What chunks refuse

`LawfulChunk` says what a chunk answers to a request that its elements can meet. `StrictChunk` is
the other half: a request that they cannot meet is a fault, so an answer proves that the
precondition held. Chunks of bytes and chunks of text are strict.
-/

namespace Piecemeal

/-- A chunk type whose operations answer only requests that the elements can meet. -/
class StrictChunk (T : Type) (E : outParam Type) [Chunk T E] : Prop where
  length_eq (c : T) : Chunk.length c = (Chunk.toList c).length
  head_of_nil {c : T} (h : Chunk.toList c = []) : ∃ fault, Chunk.head c = .error fault
  tail_of_nil {c : T} (h : Chunk.toList c = []) : ∃ fault, Chunk.tail c = .error fault
  tail_of_cons {c : T} {e : E} {es : List E} (h : Chunk.toList c = e :: es) :
    Chunk.tail c = .ok (Chunk.ofList es)
  splits_of_drop {c d : T} {offset : Nat} (h : Chunk.drop c offset = .ok d) :
    ∃ before, Chunk.SplitsAt c offset before (Chunk.toList d)
  splits_of_substring {c d : T} {offset n : Nat} (h : Chunk.substring c offset n = .ok d) :
    ∃ before after, Chunk.SplitsAt c offset before (Chunk.toList d ++ after) ∧
      (Chunk.toList d).length = n

theorem Chunk.splits_of_tail {T E : Type} [Chunk T E] [LawfulChunk T E] [StrictChunk T E] {c d : T}
    (h : tail c = .ok d) : ∃ before, SplitsAt c (width c - width d) before (toList d) := by
  cases hlist : toList c with
  | nil =>
    obtain ⟨fault, herror⟩ := StrictChunk.tail_of_nil hlist
    rw [herror] at h
    cases h
  | cons e es =>
    rw [StrictChunk.tail_of_cons hlist] at h
    cases h
    refine ⟨[e], ?_, ?_⟩
    · rw [LawfulChunk.toList_ofList, hlist, List.singleton_append]
    · have hwidth := widthOf_append (T := T) [e] es
      rw [List.singleton_append, ← hlist, widthOf_toList] at hwidth
      rw [hwidth]
      exact (Nat.add_sub_cancel _ _).symm

/-! ## Bytes -/

namespace Bytes

theorem le_of_window {b d : Bytes} {start stop : Nat} (h : b.window start stop = .ok d) :
    start ≤ stop ∧ stop ≤ b.size := by
  unfold window at h
  split at h
  · assumption
  · cases h

theorem splitsAt_of_window {b d : Bytes} {start stop : Nat} (h : b.window start stop = .ok d) :
    Chunk.SplitsAt b start (b.toList.take start) (b.toList.drop start) := by
  have hle := le_of_window h
  refine splitsAt_iff.2 ⟨(List.take_append_drop _ _).symm, ?_⟩
  rw [List.length_take, b.length_toList]
  omega

theorem window_of_substring {b d : Bytes} {offset n : Nat} (h : b.substring offset n = .ok d) :
    b.window offset (offset + n) = .ok d := by
  unfold substring at h
  split at h
  · exact h
  · cases h

instance : StrictChunk Bytes UInt8 where
  length_eq b := b.length_toList.symm
  head_of_nil h := ⟨_, head_of_nil h⟩
  tail_of_nil {b} h := by
    have hsize : b.size = 0 := by
      rw [← b.length_toList]
      exact congrArg List.length h
    exact ⟨_, window_of_not (by omega)⟩
  tail_of_cons {b x xs} h := by
    have hsplit : Chunk.SplitsAt b 1 [x] xs := splitsAt_iff.2 ⟨h, rfl⟩
    exact LawfulChunk.drop_eq hsplit
  splits_of_drop {b d offset} h := by
    have hlist : Chunk.toList d = b.toList.drop offset := toList_of_dropFrom h
    rw [hlist]
    exact ⟨_, splitsAt_of_window h⟩
  splits_of_substring {b d offset n} h := by
    have hwindow := window_of_substring h
    have hle := le_of_window hwindow
    have hlist : Chunk.toList d = (b.toList.drop offset).take n := toList_of_substring h
    rw [hlist]
    refine ⟨b.toList.take offset, (b.toList.drop offset).drop n, ?_, ?_⟩
    · rw [List.take_append_drop]
      exact splitsAt_of_window hwindow
    · rw [List.length_take, List.length_drop, b.length_toList]
      omega

end Bytes

/-! ## Text -/

namespace Text

open Cell

theorem boundary_of_drop {t u : Text} {offset : Nat} (h : t.drop offset = .ok u) :
    t.Boundary offset := by
  unfold drop at h
  split at h
  · next hb => exact isBoundary_iff.1 hb
  · cases h

theorem boundary_of_substring {t u : Text} {offset n : Nat} (h : t.substring offset n = .ok u) :
    t.Boundary offset := by
  unfold substring at h
  split at h
  · next hb => exact isBoundary_iff.1 hb
  · cases h

theorem tail_of_nil {t : Text} (h : t.toList = []) : t.tail = .error .emptyText := by
  have hadvance : t.advance 0 1 = none := advance_split (List.append_nil [] ▸ h) 1
  unfold tail
  split
  · next stop hs =>
    rw [hadvance] at hs
    cases hs
  · rfl

theorem tail_of_cons {t : Text} {c : Char} {cs : List Char} (h : t.toList = c :: cs) :
    t.tail = .ok (ofList cs) := by
  have hsplit : t.toList = [] ++ (c :: cs) := h
  have hadvance : t.advance 0 1 = some (layout [c]).length :=
    (advance_split hsplit 1).trans (if_pos (Nat.le_add_left 1 cs.length))
  unfold tail
  split
  · next stop hs =>
    rw [hadvance] at hs
    refine congrArg Except.ok (ext ?_)
    rw [toList_ofList]
    have hcut : t.toList = [c] ++ (cs ++ []) := by rw [List.append_nil, h, List.singleton_append]
    exact toList_cut hcut _ _ _ (Option.some.inj hs) (by rw [width_eq, h, List.singleton_append])
  · next hs =>
    rw [hadvance] at hs
    cases hs

instance : StrictChunk Text Char where
  length_eq _ := rfl
  head_of_nil h := ⟨_, head_of_nil h⟩
  tail_of_nil h := ⟨_, tail_of_nil h⟩
  tail_of_cons := tail_of_cons
  splits_of_drop {t u offset} h := by
    obtain ⟨as, bs, hlist, rfl⟩ := boundary_of_drop h
    have hu : t.drop _ = .ok u := h
    rw [drop_split hlist] at hu
    cases hu
    have hout : Chunk.toList (ofList bs) = bs := toList_ofList bs
    rw [hout]
    exact ⟨as, splitsAt_iff.2 ⟨hlist, rfl⟩⟩
  splits_of_substring {t u offset n} h := by
    obtain ⟨as, bs, hlist, rfl⟩ := boundary_of_substring h
    have hu : t.substring _ n = .ok u := h
    by_cases hn : n ≤ bs.length
    · rw [substring_split hlist hn] at hu
      cases hu
      have hout : Chunk.toList (ofList (bs.take n)) = bs.take n := toList_ofList _
      rw [hout]
      refine ⟨as, bs.drop n, splitsAt_iff.2 ⟨?_, rfl⟩, ?_⟩
      · rw [List.take_append_drop, hlist]
      · rw [List.length_take, Nat.min_eq_left hn]
    · rw [substring_short hlist (Nat.lt_of_not_le hn)] at hu
      cases hu

end Text

end Piecemeal

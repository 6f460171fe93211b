import Piecemeal.Proofs.Chunk.Sharing

/-!
# Growing chunks

A parser that starts again further back does so on a buffer that has grown in between, and trusts
that its offset still names the same element. `Chunk.KeepsPlace a b offset n`: appending `b` to `a`
leaves what is at the offset, and the next `n` elements, where they are.

`appending_keeps_place` is this for chunks of bytes and chunks of text, together with what appending
does to the store: whether the units are written behind a view or copied, the new view shows both
chunks, and every register shows what it did before.
-/

namespace Piecemeal

namespace Chunk

variable {T E : Type} [Chunk T E]

/-- What an offset into `a` names is the same in `a` with `b` appended. -/
structure KeepsPlace (a b : T) (offset n : Nat) : Prop where
  boundary : Boundary (append a b) offset
  width : width (append a b) = width a + width b
  length : length (append a b) = length a + length b
  /-- What followed the offset is followed by `b`. -/
  rest : ∃ d, drop a offset = .ok d ∧ drop (append a b) offset = .ok (append d b)
  /-- Elements that were there are there, and end at a boundary. -/
  part : lengthAtLeast a offset n = .ok true →
    lengthAtLeast (append a b) offset n = .ok true ∧
    ∃ taken behind, substring a offset n = .ok taken ∧
      substring (append a b) offset n = .ok taken ∧
      Boundary a (offset + Chunk.width taken) ∧
      Boundary (append a b) (offset + Chunk.width taken) ∧
      drop a (offset + Chunk.width taken) = .ok behind ∧
      drop a offset = .ok (append taken behind)

variable [LawfulChunk T E] {a : T} {offset : Nat} {before after : List E}

/-- What follows an offset is what a cut takes of it, and then the rest. -/
theorem SplitsAt.drop_eq_append (h : SplitsAt a offset before after) (n : Nat) :
    drop a offset = .ok (Chunk.append (ofList (after.take n)) (ofList (after.drop n))) := by
  rw [LawfulChunk.drop_eq h, append_ofList, List.take_append_drop]

theorem keepsPlace_append [StrictChunk T E] (b : T) (n : Nat)
    (hw : width a + width b < Size.storable) (h : Boundary a offset) :
    KeepsPlace a b offset n := by
  obtain ⟨before, after, hsplit⟩ := h
  have hgrown := hsplit.append b
  have hmax := Size.storable_lt_max
  have hsum : width (append a b) = width a + width b := width_append a b
  refine ⟨⟨_, _, hgrown⟩, hsum, ?length, ?rest, ?part⟩
  case length =>
    simp only [StrictChunk.length_eq, LawfulChunk.toList_append, List.length_append]
  case rest =>
    refine ⟨ofList after, LawfulChunk.drop_eq hsplit, ?_⟩
    rw [LawfulChunk.drop_eq hgrown, ← append_ofList, LawfulChunk.ofList_toList]
  case part =>
    intro henough
    rw [LawfulChunk.lengthAtLeast_eq hsplit (by omega), Except.ok.injEq, decide_eq_true_iff]
      at henough
    have hmore : n ≤ (after ++ toList b).length := by
      rw [List.length_append]
      omega
    have hcut := hsplit.advance n
    have hend : Boundary a (offset + width (ofList (after.take n) : T)) := ⟨_, _, hcut⟩
    refine ⟨?_, ofList (after.take n), ofList (after.drop n), ?_, ?_, hend, hend.append b,
      LawfulChunk.drop_eq hcut, hsplit.drop_eq_append n⟩
    · rw [LawfulChunk.lengthAtLeast_eq hgrown (by omega), decide_eq_true hmore]
    · exact LawfulChunk.substring_eq hsplit (by omega) henough
    · rw [LawfulChunk.substring_eq hgrown (by omega) hmore, List.take_append_of_le_length henough]

end Chunk

/-- Appending disturbs nothing that an offset names: neither in chunks of bytes nor in chunks of
text, and not where they are stored either. -/
theorem appending_keeps_place :
    (∀ (a b : Bytes) (offset n : Nat), Chunk.width a + Chunk.width b < Size.storable →
      offset ≤ Chunk.width a → Chunk.KeepsPlace a b offset n) ∧
    (∀ (a b : Text) (offset n : Nat), Chunk.width a + Chunk.width b < Size.storable →
      a.Boundary offset → Chunk.KeepsPlace a b offset n) ∧
    (∀ (m : Shared UInt8) (registers : Machine Bytes) (v w : View) (a b : Bytes),
      m.Mirrors registers → m.Shows v a → m.Shows w b →
        (m.append v w).1.Mirrors registers ∧
          (m.append v w).1.Shows (m.append v w).2 (Chunk.append a b)) ∧
    (∀ (m : Shared Cell) (registers : Machine Text) (v w : View) (a b : Text),
      m.Mirrors registers → m.Shows v a → m.Shows w b →
        (m.append v w).1.Mirrors registers ∧
          (m.append v w).1.Shows (m.append v w).2 (Chunk.append a b)) := by
  refine ⟨?_, ?_, ?_, ?_⟩
  · intro a b offset n hw hle
    exact Chunk.keepsPlace_append b n hw (Bytes.boundary_iff.2 hle)
  · intro a b offset n hw hboundary
    exact Chunk.keepsPlace_append b n hw (Text.boundary_iff.2 hboundary)
  · intro m registers v w a b hregisters hv hw
    exact hregisters.append hv hw
  · intro m registers v w a b hregisters hv hw
    exact hregisters.append hv hw

/-- Behind "a", the chunk "aé" has an "é", also once "😀" is appended. In a slot that holds stale
bytes behind a view, appending overwrites them, and the view then shows both chunks. -/
theorem appending_keeps_place_overwriting :
    Chunk.substring (Text.ofList ['a', 'é']) 1 1 = .ok (Text.ofList ['é']) ∧
    Chunk.substring (Chunk.append (Text.ofList ['a', 'é']) (Text.ofList ['😀'])) 1 1
      = .ok (Text.ofList ['é']) ∧
    Chunk.Boundary (Chunk.append (Text.ofList ['a', 'é']) (Text.ofList ['😀'])) 3 ∧
    (∃ d : Bytes, Chunk.drop (Segment.ofList [1, 2, 3] : Bytes) 2 = .ok d ∧
      Chunk.drop (Chunk.append (Segment.ofList [1, 2, 3] : Bytes) (Segment.ofList [4])) 2
        = .ok (Chunk.append d (Segment.ofList [4]))) ∧
    ∃ m v, (⟨#[#[1, 2, 3, 4]], #[]⟩ : Shared UInt8).append ⟨0, 1, 3⟩ ⟨0, 0, 1⟩ = (m, v) ∧
      m.store = #[#[1, 2, 3, 1]] ∧
      m.Shows v (Chunk.append (Segment.ofList [2, 3] : Bytes) (Segment.ofList [1])) := by
  have hboundary : (Text.ofList ['a', 'é']).Boundary 1 := ⟨['a'], ['é'], rfl, rfl⟩
  have htext := appending_keeps_place.2.1 (Text.ofList ['a', 'é']) (Text.ofList ['😀']) 1 1
    (by decide +kernel) hboundary
  have hbytes := appending_keeps_place.1 (Segment.ofList [1, 2, 3]) (Segment.ofList [4]) 2 0
    (by decide +kernel) (by decide +kernel)
  obtain ⟨-, taken, -, hbefore, hafter, -, hend, -⟩ := htext.part rfl
  have hlist : (Text.ofList ['a', 'é']).toList = ['a'] ++ ['é'] := rfl
  have hcut : Chunk.substring (Text.ofList ['a', 'é']) 1 1 = .ok (Text.ofList ['é']) :=
    Text.substring_split hlist (Nat.le_refl 1)
  rw [hcut] at hbefore
  cases hbefore
  have hv : (⟨#[#[1, 2, 3, 4]], #[]⟩ : Shared UInt8).Shows ⟨0, 1, 3⟩
      (Segment.ofList [2, 3] : Bytes) := ⟨#[1, 2, 3, 4], [1], [4], rfl, rfl, rfl, rfl⟩
  have hw : (⟨#[#[1, 2, 3, 4]], #[]⟩ : Shared UInt8).Shows ⟨0, 0, 1⟩
      (Segment.ofList [1] : Bytes) := ⟨#[1, 2, 3, 4], [], [2, 3, 4], rfl, rfl, rfl, rfl⟩
  have hstored := appending_keeps_place.2.2.1 _ #[] _ _ _ _ ⟨rfl, fun _ => .none⟩ hv hw
  exact ⟨hcut, hafter, hend, hbytes.rest, _, _, rfl, by decide +kernel, hstored.2⟩

end Piecemeal

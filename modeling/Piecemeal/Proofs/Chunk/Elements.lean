import Piecemeal.Chunk.Bytes
import Piecemeal.Chunk.Text.Lemmas

/-!
# Chunks as sequences of elements

`LawfulChunk`: a chunk is the sequence of its elements. Chunks with the same elements are equal,
appending concatenates, and at an offset that separates the elements (`Chunk.SplitsAt`) every
operation answers what the elements behind the offset say. Chunks of bytes and chunks of text obey
these laws; what follows from the laws holds of both.

The laws about offsets hold of chunks that are narrower than the largest size. Runs stay well below
it: all that a run is given is narrower than `Size.storable`.
-/

namespace Piecemeal

/-- Storage can be asked for twice a width below this one. -/
def Size.storable : Nat := Nat.pow 2 62

theorem Size.storable_lt_max : Size.storable < Size.max := by decide

namespace Chunk

variable {T E : Type} [Chunk T E]

/-- The number of bytes that some elements take. -/
def widthOf (T : Type) {E : Type} [Chunk T E] (es : List E) : Nat := width (ofList es : T)

/-- The offset separates the elements before it from those after it. -/
def SplitsAt (c : T) (offset : Nat) (before after : List E) : Prop :=
  toList c = before ++ after ∧ widthOf T before = offset

/-- The offset lies between two elements, or at either end. -/
def Boundary (c : T) (offset : Nat) : Prop :=
  ∃ before after : List E, SplitsAt c offset before after

def appendAll (c : T) (cs : List T) : T := cs.foldl append c

def totalWidth : List T → Nat
  | [] => 0
  | c :: cs => width c + totalWidth cs

theorem appendAll_append (c : T) (cs ds : List T) :
    appendAll c (cs ++ ds) = appendAll (appendAll c cs) ds := List.foldl_append

@[simp] theorem totalWidth_cons (c : T) (cs : List T) :
    totalWidth (c :: cs) = width c + totalWidth cs := rfl

@[simp] theorem totalWidth_append (cs ds : List T) :
    totalWidth (cs ++ ds) = totalWidth cs + totalWidth ds := by
  induction cs with
  | nil => exact (Nat.zero_add _).symm
  | cons c cs ih =>
    rw [List.cons_append, totalWidth_cons, totalWidth_cons, ih]
    omega

end Chunk

/-- A chunk type whose operations are those of the sequences of elements. -/
class LawfulChunk (T : Type) (E : outParam Type) [Chunk T E] : Prop where
  toList_ofList (es : List E) : Chunk.toList (Chunk.ofList es : T) = es
  ofList_toList (c : T) : Chunk.ofList (Chunk.toList c) = c
  toList_append (c d : T) : Chunk.toList (Chunk.append c d) = Chunk.toList c ++ Chunk.toList d
  toList_empty : Chunk.toList (Chunk.empty : T) = []
  isEmpty_iff {c : T} : Chunk.isEmpty c = true ↔ Chunk.toList c = []
  head_of_cons {c : T} {e : E} {es : List E} (h : Chunk.toList c = e :: es) : Chunk.head c = .ok e
  lengthAtLeast_eq {c : T} {offset : Nat} {before after : List E}
    (h : Chunk.SplitsAt c offset before after) (hw : Chunk.width c < Size.max) (n : Nat) :
    Chunk.lengthAtLeast c offset n = .ok (decide (n ≤ after.length))
  substring_eq {c : T} {offset n : Nat} {before after : List E}
    (h : Chunk.SplitsAt c offset before after) (hw : Chunk.width c < Size.max)
    (hn : n ≤ after.length) : Chunk.substring c offset n = .ok (Chunk.ofList (after.take n))
  drop_eq {c : T} {offset : Nat} {before after : List E}
    (h : Chunk.SplitsAt c offset before after) : Chunk.drop c offset = .ok (Chunk.ofList after)

/-! ## What follows from the laws -/

namespace Chunk

open LawfulChunk

variable {T E : Type} [Chunk T E] [LawfulChunk T E]

theorem ext_toList {c d : T} (h : toList c = toList d) : c = d := by
  rw [← ofList_toList c, h, ofList_toList]

theorem isEmpty_eq_false {c : T} : isEmpty c = false ↔ toList c ≠ [] := by
  rw [← Bool.not_eq_true, not_congr LawfulChunk.isEmpty_iff]

theorem isEmpty_empty : isEmpty (empty : T) = true := LawfulChunk.isEmpty_iff.2 toList_empty

theorem append_of_isEmpty (c : T) {d : T} (h : isEmpty d = true) : append c d = c := by
  apply ext_toList
  rw [toList_append, LawfulChunk.isEmpty_iff.1 h, List.append_nil]

theorem toList_appendAll (c : T) (cs : List T) :
    toList (appendAll c cs) = toList c ++ cs.flatMap toList := by
  induction cs generalizing c with
  | nil => exact (List.append_nil _).symm
  | cons d cs ih =>
    have hrest := ih (append c d)
    rw [LawfulChunk.toList_append, List.append_assoc] at hrest
    exact hrest

theorem append_ofList (es fs : List E) :
    append (ofList es : T) (ofList fs) = ofList (es ++ fs) := by
  apply ext_toList
  simp only [toList_append, toList_ofList]

@[simp] theorem widthOf_toList (c : T) : widthOf T (toList c) = width c := by
  rw [widthOf, ofList_toList]

@[simp] theorem widthOf_append (es fs : List E) :
    widthOf T (es ++ fs) = widthOf T es + widthOf T fs := by
  simp only [widthOf, ← append_ofList, width_append]

@[simp] theorem widthOf_nil : widthOf T ([] : List E) = 0 := by
  have h := widthOf_append (T := T) ([] : List E) []
  rw [List.append_nil] at h
  omega

theorem widthOf_singleton_pos (e : E) : 0 < widthOf T [e] := by
  apply width_pos
  rw [isEmpty_eq_false, toList_ofList]
  exact List.cons_ne_nil e []

theorem length_le_widthOf (es : List E) : es.length ≤ widthOf T es := by
  induction es with
  | nil => exact Nat.zero_le _
  | cons e es ih =>
    have hpos := widthOf_singleton_pos (T := T) e
    have happend := widthOf_append (T := T) [e] es
    simp only [List.singleton_append] at happend
    simp only [List.length_cons]
    omega

theorem widthOf_pos_iff (es : List E) : 0 < widthOf T es ↔ 0 < es.length := by
  cases es with
  | nil => rw [widthOf_nil]; rfl
  | cons e es =>
    have hle := length_le_widthOf (T := T) (e :: es)
    rw [List.length_cons] at hle ⊢
    omega

theorem boundary_zero (c : T) : Boundary c 0 := ⟨[], toList c, rfl, widthOf_nil⟩

namespace SplitsAt

variable {c : T} {offset : Nat} {before after : List E}

theorem width_eq (h : SplitsAt c offset before after) : width c = offset + widthOf T after := by
  obtain ⟨hlist, rfl⟩ := h
  rw [← widthOf_toList, hlist, widthOf_append]

/-- What is appended stands behind every offset. -/
theorem append (h : SplitsAt c offset before after) (d : T) :
    SplitsAt (Chunk.append c d) offset before (after ++ toList d) := by
  obtain ⟨hlist, hwidth⟩ := h
  refine ⟨?_, hwidth⟩
  rw [toList_append, hlist, List.append_assoc]

theorem advance (h : SplitsAt c offset before after) (n : Nat) :
    SplitsAt c (offset + widthOf T (after.take n)) (before ++ after.take n) (after.drop n) := by
  obtain ⟨hlist, rfl⟩ := h
  refine ⟨?_, widthOf_append _ _⟩
  rw [List.append_assoc, List.take_append_drop, hlist]

theorem lt_iff {offset' : Nat} {before' after' : List E} (h : SplitsAt c offset before after)
    (h' : SplitsAt c offset' before' after') : offset < offset' ↔ after'.length < after.length := by
  have hwidth := h.width_eq
  have hwidth' := h'.width_eq
  rcases List.append_eq_append_iff.1 (h.1.symm.trans h'.1) with ⟨ms, -, rfl⟩ | ⟨ms, -, rfl⟩
  · rw [widthOf_append] at hwidth
    have hpos := widthOf_pos_iff (T := T) ms
    rw [List.length_append]
    omega
  · rw [widthOf_append] at hwidth'
    rw [List.length_append]
    omega

theorem unique {before' after' : List E} (h : SplitsAt c offset before after)
    (h' : SplitsAt c offset before' after') : before = before' ∧ after = after' := by
  have hlt := h.lt_iff h'
  have hgt := h'.lt_iff h
  refine List.append_inj' (h.1.symm.trans h'.1) ?_
  omega

end SplitsAt

theorem Boundary.le_width {c : T} {offset : Nat} (h : Boundary c offset) : offset ≤ width c := by
  obtain ⟨before, after, hsplit⟩ := h
  have := hsplit.width_eq
  omega

theorem Boundary.append {c : T} {offset : Nat} (h : Boundary c offset) (d : T) :
    Boundary (Chunk.append c d) offset := by
  obtain ⟨before, after, hsplit⟩ := h
  exact ⟨before, _, hsplit.append d⟩

end Chunk

/-- Appending adds to what follows a boundary, and leaves the boundary where it is. -/
theorem Chunk.Boundary.drop_appendAll {T E : Type} [Chunk T E] [LawfulChunk T E] {c d : T}
    {offset : Nat} (h : Boundary c offset) (hd : drop c offset = .ok d) (cs : List T) :
    drop (appendAll c cs) offset = .ok (appendAll d cs) := by
  induction cs generalizing c d with
  | nil => exact hd
  | cons e cs ih =>
    refine ih (h.append e) ?_
    obtain ⟨before, after, hsplit⟩ := h
    rw [LawfulChunk.drop_eq hsplit] at hd
    cases hd
    rw [LawfulChunk.drop_eq (hsplit.append e), ← append_ofList, LawfulChunk.ofList_toList]

/-! ## Bytes -/

namespace Bytes

theorem widthOf_eq (xs : List UInt8) : Chunk.widthOf Bytes xs = xs.length := by
  have h := (Segment.ofList xs).length_toList
  rw [Segment.toList_ofList] at h
  exact h.symm

theorem splitsAt_iff {b : Bytes} {offset : Nat} {before after : List UInt8} :
    Chunk.SplitsAt b offset before after ↔
      b.toList = before ++ after ∧ before.length = offset := by
  unfold Chunk.SplitsAt
  rw [widthOf_eq]
  rfl

theorem boundary_iff {b : Bytes} {offset : Nat} : Chunk.Boundary b offset ↔ offset ≤ b.size := by
  constructor
  · rintro ⟨before, after, hsplit⟩
    obtain ⟨hlist, rfl⟩ := splitsAt_iff.1 hsplit
    rw [← b.length_toList, hlist, List.length_append]
    exact Nat.le_add_right _ _
  · intro h
    refine ⟨b.toList.take offset, b.toList.drop offset, splitsAt_iff.2 ⟨?_, ?_⟩⟩
    · rw [List.take_append_drop]
    · rw [List.length_take, b.length_toList, Nat.min_eq_left h]

instance : LawfulChunk Bytes UInt8 where
  toList_ofList := Segment.toList_ofList
  ofList_toList := Segment.ofList_toList
  toList_append := Segment.toList_append
  toList_empty := Segment.toList_empty
  isEmpty_iff {b} := by
    have hsize := b.length_toList
    constructor
    · intro h
      exact List.eq_nil_of_length_eq_zero (hsize.trans (eq_of_beq h))
    · intro h
      have hnil : b.toList = [] := h
      rw [hnil] at hsize
      exact beq_iff_eq.2 hsize.symm
  head_of_cons := head_of_cons
  lengthAtLeast_eq {b offset before after} h _ n := by
    obtain ⟨hlist, rfl⟩ := splitsAt_iff.1 h
    have hsize := b.length_toList
    rw [hlist, List.length_append] at hsize
    refine congrArg Except.ok ?_
    rw [Bool.eq_iff_iff, atLeast_iff, decide_eq_true_iff]
    omega
  substring_eq {b offset n before after} h hw hn := by
    obtain ⟨hlist, rfl⟩ := splitsAt_iff.1 h
    have hsize := b.length_toList
    rw [hlist, List.length_append] at hsize
    have hwidth : b.size < Size.max := hw
    have hfits : Size.fits (before.length + n) = true := by
      rw [Size.fits_iff]; omega
    show Bytes.substring b before.length n = _
    unfold Bytes.substring
    rw [if_pos hfits, window_of_le (by omega) (by omega)]
    refine congrArg Except.ok (Segment.ext ?_)
    show _ = (Segment.ofList (after.take n)).toList
    rw [Segment.toList_extract, hlist, Segment.toList_ofList, List.drop_left,
      Nat.add_sub_cancel_left]
  drop_eq {b offset before after} h := by
    obtain ⟨hlist, rfl⟩ := splitsAt_iff.1 h
    have hsize := b.length_toList
    rw [hlist, List.length_append] at hsize
    show Bytes.dropFrom b before.length = _
    unfold dropFrom
    rw [window_of_le (by omega) (Nat.le_refl _)]
    refine congrArg Except.ok (Segment.ext ?_)
    show _ = (Segment.ofList after).toList
    rw [Segment.toList_extract, hlist, Segment.toList_ofList, List.drop_left,
      List.take_of_length_le (by omega)]

end Bytes

/-! ## Text -/

namespace Text

open Cell

theorem widthOf_eq (cs : List Char) : Chunk.widthOf Text cs = (layout cs).length := by
  have h := (ofList cs).width_eq
  rw [toList_ofList] at h
  exact h

theorem splitsAt_iff {t : Text} {offset : Nat} {before after : List Char} :
    Chunk.SplitsAt t offset before after ↔
      t.toList = before ++ after ∧ (layout before).length = offset := by
  unfold Chunk.SplitsAt
  rw [widthOf_eq]
  rfl

theorem boundary_iff {t : Text} {offset : Nat} : Chunk.Boundary t offset ↔ t.Boundary offset := by
  simp only [Chunk.Boundary, splitsAt_iff, Boundary]

theorem length_layout_le (cs : List Char) : (layout cs).length ≤ 4 * cs.length := by
  induction cs with
  | nil => exact Nat.le_refl _
  | cons c cs ih =>
    have := c.utf8Size_le_four
    simp only [layout_cons, List.length_append, length_spell, List.length_cons]
    omega

theorem length_le_layout (cs : List Char) : cs.length ≤ (layout cs).length := by
  induction cs with
  | nil => exact Nat.le_refl _
  | cons c cs ih =>
    have := c.utf8Size_pos
    simp only [layout_cons, List.length_append, length_spell, List.length_cons]
    omega

/-- The bounds in bytes never contradict the count of characters. -/
theorem atLeast_split {t : Text} {as bs : List Char} (h : t.toList = as ++ bs)
    (hw : t.width < Size.max) (n : Nat) :
    t.atLeast (layout as).length n = .ok (decide (n ≤ bs.length)) := by
  have hwidth : t.width = (layout as).length + (layout bs).length := by
    rw [width_eq, h, layout_append, List.length_append]
  have hle := length_le_layout bs
  have hge := length_layout_le bs
  unfold atLeast
  rw [if_neg (by omega), hwidth, Nat.add_sub_cancel_left]
  split
  · next hfew =>
    rw [decide_eq_false (by omega)]
  · split
    · next hmany =>
      have hsat : Size.saturate (4 * n) = 4 * n := by
        unfold Size.saturate at hmany ⊢
        omega
      rw [hsat] at hmany
      rw [decide_eq_true (by omega)]
    · rw [if_pos (isBoundary_iff.2 ⟨as, bs, h, rfl⟩), advance_split h n]
      by_cases hn : n ≤ bs.length
      · rw [if_pos hn, decide_eq_true hn]; rfl
      · rw [if_neg hn, decide_eq_false hn]; rfl

instance : LawfulChunk Text Char where
  toList_ofList := toList_ofList
  ofList_toList t := ext (toList_ofList t.toList)
  toList_append := toList_append
  toList_empty := toList_ofList []
  isEmpty_iff {t} := by
    have hwidth := t.width_eq
    constructor
    · intro h
      have hzero : t.width = 0 := eq_of_beq h
      have := length_le_layout t.toList
      exact List.eq_nil_of_length_eq_zero (show t.toList.length = 0 by omega)
    · intro h
      have hnil : t.toList = [] := h
      rw [hnil] at hwidth
      exact beq_iff_eq.2 hwidth
  head_of_cons := head_of_cons
  lengthAtLeast_eq h hw n := by
    obtain ⟨hlist, rfl⟩ := splitsAt_iff.1 h
    exact atLeast_split hlist hw n
  substring_eq h _ hn := by
    obtain ⟨hlist, rfl⟩ := splitsAt_iff.1 h
    exact substring_split hlist hn
  drop_eq h := by
    obtain ⟨hlist, rfl⟩ := splitsAt_iff.1 h
    exact drop_split hlist

end Text

end Piecemeal

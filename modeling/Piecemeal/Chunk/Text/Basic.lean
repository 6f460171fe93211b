import Piecemeal.Chunk.Basic
import Piecemeal.Chunk.Cell
import Piecemeal.Chunk.Segment
import Piecemeal.Size

/-!
# Chunks of text

Elements are characters, and a character takes one to four bytes. The cells of a text lead
straight from an offset in bytes to its character, so an offset is on a boundary exactly when its
cell leads a character or it is the end of the text. `Text.Boundary` says the same of the
characters, and `isBoundary_iff` that the two agree.

Two texts are equal exactly when their characters are (`Text.ext`).
-/

namespace Piecemeal

structure Text where
  /-- The cells, one per byte. -/
  cells : Segment Cell
  laidOut : ∃ cs : List Char, cells.toList = Cell.layout cs

namespace Text

open Cell

def ofList (cs : List Char) : Text := ⟨Segment.ofList (layout cs), cs, by simp⟩

def toList (t : Text) : List Char := t.cells.toList.filterMap char?

def toString (t : Text) : String := String.ofList t.toList

/-- The number of bytes. -/
def width (t : Text) : Nat := t.cells.size

theorem toList_cells (t : Text) : t.cells.toList = layout t.toList := by
  obtain ⟨cells, cs, h⟩ := t
  simp [toList, h]

theorem width_eq (t : Text) : t.width = (layout t.toList).length := by
  rw [← toList_cells, Segment.length_toList, width]

@[simp] theorem toList_ofList (cs : List Char) : (ofList cs).toList = cs := by
  simp [ofList, toList]

@[ext] theorem ext {t u : Text} (h : t.toList = u.toList) : t = u := by
  have hcells : t.cells = u.cells := Segment.ext (by rw [toList_cells, toList_cells, h])
  cases t
  cases u
  simp_all

theorem toList_inj {t u : Text} : t.toList = u.toList ↔ t = u := ⟨ext, fun h => h ▸ rfl⟩

instance : DecidableEq Text := fun t u => decidable_of_iff (t.toList = u.toList) toList_inj

theorem get?_cells (t : Text) (i : Nat) : t.cells.get? i = (layout t.toList)[i]? := by
  rw [Segment.get?_eq, toList_cells]

/-! ## Boundaries -/

/-- The offset lies between two characters, or at either end. -/
def Boundary (t : Text) (offset : Nat) : Prop :=
  ∃ as bs, t.toList = as ++ bs ∧ (layout as).length = offset

/-- The cell at the offset leads a character, or the offset is the end of the text. -/
def isBoundary (t : Text) (offset : Nat) : Bool :=
  match t.cells.get? offset with
  | some (.lead _) => true
  | some .trail => false
  | none => offset == t.width

theorem boundary_width (t : Text) : t.Boundary t.width :=
  ⟨t.toList, [], by simp, t.width_eq.symm⟩

theorem boundary_zero (t : Text) : t.Boundary 0 := ⟨[], t.toList, rfl, rfl⟩

theorem Boundary.le_width {t : Text} {offset : Nat} (h : t.Boundary offset) :
    offset ≤ t.width := by
  obtain ⟨as, bs, hcs, rfl⟩ := h
  rw [width_eq, hcs]
  simp

/-- The character that leads at an offset makes the offset behind it a boundary too. -/
theorem Boundary.of_lead {t : Text} {offset : Nat} {c : Char}
    (h : t.cells.get? offset = some (.lead c)) :
    t.Boundary offset ∧ t.Boundary (offset + c.utf8Size) := by
  rw [get?_cells] at h
  obtain ⟨as, bs, hcs, hlen⟩ := exists_split_of_lead h
  exact ⟨⟨as, c :: bs, hcs, hlen⟩, ⟨as ++ [c], bs, by simp [hcs], by simp [hlen]⟩⟩

theorem isBoundary_iff {t : Text} {offset : Nat} :
    t.isBoundary offset = true ↔ t.Boundary offset := by
  constructor
  · intro h
    rw [isBoundary] at h
    split at h
    · next c hc => exact (Boundary.of_lead hc).1
    · cases h
    · rw [eq_of_beq h]
      exact t.boundary_width
  · rintro ⟨as, bs, hcs, rfl⟩
    rw [isBoundary, get?_cells, hcs, layout_append, List.getElem?_append_right (Nat.le_refl _),
      Nat.sub_self]
    cases bs with
    | nil => simp [width_eq, hcs]
    | cons b bs => rfl

/-! ## Cutting -/

theorem exists_layout_extract {t : Text} {i j : Nat} (hi : t.Boundary i) (hj : t.Boundary j)
    (hij : i ≤ j) : ∃ cs, (t.cells.extract i j).toList = layout cs := by
  obtain ⟨as, bs, hcs, rfl⟩ := hi
  obtain ⟨ds, es, hcs', rfl⟩ := hj
  rw [hcs] at hcs'
  rw [Segment.toList_extract, toList_cells, hcs]
  rcases List.append_eq_append_iff.1 hcs' with ⟨ms, rfl, rfl⟩ | ⟨ms, rfl, rfl⟩
  · exact ⟨ms, by simp⟩
  · refine ⟨[], ?_⟩
    simp only [layout_append, List.length_append] at hij
    simp only [layout_append, List.length_append, layout_nil]
    rw [show (layout ds).length - ((layout ds).length + (layout ms).length) = 0 by omega,
      List.take_zero]

/-- The text between two boundaries. -/
def cut (t : Text) (i j : Nat) (hi : t.Boundary i) (hj : t.Boundary j) (hij : i ≤ j) : Text :=
  ⟨t.cells.extract i j, exists_layout_extract hi hj hij⟩

/-- The offset behind the next `n` characters, if there are as many. -/
def advance (t : Text) : Nat → Nat → Option Nat
  | offset, 0 => some offset
  | offset, n + 1 =>
    match t.cells.get? offset with
    | some (.lead c) => t.advance (offset + c.utf8Size) n
    | _ => none

theorem boundary_advance {t : Text} {offset n stop : Nat} (h : t.Boundary offset)
    (hstop : t.advance offset n = some stop) : t.Boundary stop ∧ offset ≤ stop := by
  induction n generalizing offset with
  | zero =>
    cases hstop
    exact ⟨h, Nat.le_refl _⟩
  | succ n ih =>
    rw [advance] at hstop
    split at hstop
    · next c hc =>
      obtain ⟨hb, hle⟩ := ih (Boundary.of_lead hc).2 hstop
      exact ⟨hb, by omega⟩
    · cases hstop

/-! ## Operations -/

def head (t : Text) : Except Fault Char :=
  match t.cells.get? 0 with
  | some (.lead c) => .ok c
  | _ => .error .emptyText

def tail (t : Text) : Except Fault Text :=
  match h : t.advance 0 1 with
  | some stop =>
    have hstop := (boundary_advance t.boundary_zero h).1
    .ok (t.cut stop t.width hstop t.boundary_width hstop.le_width)
  | none => .error .emptyText

/-- At least `n` characters follow the offset. The number of bytes behind the offset decides
where it can, because a character takes one to four of them. -/
def atLeast (t : Text) (offset n : Nat) : Except Fault Bool :=
  if t.width < offset then .ok false
  else if t.width - offset < n then .ok false
  else if Size.saturate (4 * n) ≤ t.width - offset then .ok true
  else if t.isBoundary offset then .ok (t.advance offset n).isSome
  else .error (.offBoundary offset t.toString)

def substring (t : Text) (offset n : Nat) : Except Fault Text :=
  if h : t.isBoundary offset = true then
    match hs : t.advance offset n with
    | some stop =>
      have hstop := boundary_advance (isBoundary_iff.1 h) hs
      .ok (t.cut offset stop (isBoundary_iff.1 h) hstop.1 hstop.2)
    | none => .error (.fewCharacters n offset t.toString)
  else .error (.offBoundary offset t.toString)

def drop (t : Text) (offset : Nat) : Except Fault Text :=
  if h : t.isBoundary offset = true then
    have hb := isBoundary_iff.1 h
    .ok (t.cut offset t.width hb t.boundary_width hb.le_width)
  else .error (.offBoundary offset t.toString)

def append (t u : Text) : Text :=
  ⟨t.cells ++ u.cells, t.toList ++ u.toList, by simp [toList_cells]⟩

@[simp] theorem toList_append (t u : Text) : (t.append u).toList = t.toList ++ u.toList := by
  simp [append, toList]

theorem width_append (t u : Text) : (t.append u).width = t.width + u.width :=
  Segment.size_append _ _

theorem width_lt_of_short {t : Text} {offset n : Nat} (h : t.atLeast offset n = .ok false) :
    t.width < offset + 4 * n := by
  have hsat := Size.saturate_le_self (4 * n)
  rw [atLeast] at h
  split at h
  · omega
  · split at h
    · omega
    · split at h
      · cases h
      · omega

instance : Chunk Text Char where
  empty := ofList []
  ofList := ofList
  toList := toList
  isEmpty t := t.width == 0
  length t := t.toList.length
  width := width
  head := head
  tail := tail
  lengthAtLeast := atLeast
  substring := substring
  drop := drop
  append := append
  toChar c := c
  literal t := Literal.quoteString t.toString
  display? t := some t.toString
  elementLiteral := Literal.quoteChar
  width_append := width_append
  width_pos h := Nat.pos_of_ne_zero (by simpa using h)
  width_lt_of_short := width_lt_of_short

end Text

end Piecemeal

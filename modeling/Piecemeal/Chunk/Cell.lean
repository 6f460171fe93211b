/-!
# Cells of a text

A text is stored as one cell per byte: the cell of a character's first byte holds the character, the
cells of its other bytes hold nothing. `Cell.layout` spells a list of characters out in cells, and
reading the leading cells gives the characters back (`filterMap_layout`).
-/

namespace Piecemeal

/-- One byte's place in a stored text. -/
inductive Cell where
  /-- The first byte of a character. -/
  | lead (c : Char)
  /-- A further byte of the character before. -/
  | trail
  deriving DecidableEq, Repr

namespace Cell

/-- The character that starts at a cell. -/
def char? : Cell → Option Char
  | lead c => some c
  | trail => none

/-- The cells of a character. -/
def spell (c : Char) : List Cell := lead c :: List.replicate (c.utf8Size - 1) trail

/-- The cells of a list of characters. -/
def layout (cs : List Char) : List Cell := cs.flatMap spell

@[simp] theorem length_spell (c : Char) : (spell c).length = c.utf8Size := by
  have := c.utf8Size_pos
  simp only [spell, List.length_cons, List.length_replicate]
  omega

@[simp] theorem layout_nil : layout [] = [] := rfl

@[simp] theorem layout_cons (c : Char) (cs : List Char) :
    layout (c :: cs) = spell c ++ layout cs := rfl

@[simp] theorem layout_append (as bs : List Char) :
    layout (as ++ bs) = layout as ++ layout bs := by
  simp [layout]

theorem spell_getElem?_zero (c : Char) : (spell c)[0]? = some (lead c) := rfl

theorem spell_getElem?_of_pos {c : Char} {i : Nat} (h : 0 < i) (hi : i < c.utf8Size) :
    (spell c)[i]? = some trail := by
  obtain ⟨j, rfl⟩ : ∃ j, i = j + 1 := ⟨i - 1, by omega⟩
  simp only [spell, List.getElem?_cons_succ]
  rw [List.getElem?_replicate, if_pos (by omega)]

@[simp] theorem filterMap_layout (cs : List Char) : (layout cs).filterMap char? = cs := by
  induction cs with
  | nil => rfl
  | cons c cs ih =>
    have htrail : (List.replicate (c.utf8Size - 1) trail).filterMap char? = [] := by
      rw [List.filterMap_replicate]
      rfl
    simp [spell, List.filterMap_append, char?, ih, htrail]

/-- A cell that leads a character splits the characters there. -/
theorem exists_split_of_lead {cs : List Char} {i : Nat} {c : Char}
    (h : (layout cs)[i]? = some (lead c)) :
    ∃ as bs, cs = as ++ c :: bs ∧ (layout as).length = i := by
  induction cs generalizing i with
  | nil => simp at h
  | cons d ds ih =>
    rw [layout_cons] at h
    by_cases hi : i < d.utf8Size
    · rw [List.getElem?_append_left (by simpa using hi)] at h
      obtain rfl | hpos := Nat.eq_zero_or_pos i
      · rw [spell_getElem?_zero] at h
        cases h
        exact ⟨[], ds, rfl, rfl⟩
      · rw [spell_getElem?_of_pos hpos hi] at h
        cases h
    · rw [List.getElem?_append_right (by simpa using Nat.le_of_not_lt hi), length_spell] at h
      obtain ⟨as, bs, rfl, hlen⟩ := ih h
      refine ⟨d :: as, bs, rfl, ?_⟩
      simp only [layout_cons, List.length_append, length_spell, hlen]
      omega

end Cell

end Piecemeal

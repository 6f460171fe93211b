import Piecemeal.Chunk.Text.Basic

/-!
# What the operations on texts answer

A boundary splits the characters of a text in two, and what the operations answer there is said of
the second part: `advance_split` walks into it, `substring_split` and `drop_split` cut from it, and
`substring_short` is the request that goes beyond it.
-/

namespace Piecemeal.Text

open Cell

theorem toList_cut {t : Text} {as ms bs : List Char} (h : t.toList = as ++ (ms ++ bs))
    {i j : Nat} (hi : t.Boundary i) (hj : t.Boundary j) (hij : i ≤ j)
    (hli : (layout as).length = i) (hlj : (layout (as ++ ms)).length = j) :
    (t.cut i j hi hj hij).toList = ms := by
  subst hli hlj
  rw [toList, cut, Segment.toList_extract, toList_cells, h]
  simp

theorem advance_split {t : Text} {as bs : List Char} (h : t.toList = as ++ bs) (n : Nat) :
    t.advance (layout as).length n =
      if n ≤ bs.length then some (layout (as ++ bs.take n)).length else none := by
  induction n generalizing as bs with
  | zero => simp [advance]
  | succ n ih =>
    rw [advance, get?_cells, h, layout_append, List.getElem?_append_right (Nat.le_refl _),
      Nat.sub_self]
    cases bs with
    | nil => simp
    | cons b bs =>
      have hstep := @ih (as ++ [b]) bs (by simp [h])
      have hlen : (layout (as ++ [b])).length = (layout as).length + b.utf8Size := by simp
      rw [hlen] at hstep
      simp only [layout_cons, spell, List.cons_append, List.getElem?_cons_zero, hstep]
      simp [List.take_succ_cons]

theorem substring_split {t : Text} {as bs : List Char} (h : t.toList = as ++ bs) {n : Nat}
    (hn : n ≤ bs.length) : t.substring (layout as).length n = .ok (ofList (bs.take n)) := by
  have hadvance := advance_split h n
  rw [if_pos hn] at hadvance
  rw [substring, dif_pos (isBoundary_iff.2 ⟨as, bs, h, rfl⟩)]
  split
  · next stop hs =>
    rw [hadvance] at hs
    have hms : t.toList = as ++ (bs.take n ++ bs.drop n) := by rw [List.take_append_drop, h]
    refine congrArg Except.ok (ext ?_)
    rw [toList_ofList]
    exact toList_cut hms _ _ _ rfl (Option.some.inj hs)
  · next hs =>
    rw [hadvance] at hs
    cases hs

theorem substring_short {t : Text} {as bs : List Char} (h : t.toList = as ++ bs) {n : Nat}
    (hn : bs.length < n) :
    t.substring (layout as).length n =
      .error (.fewCharacters n (layout as).length t.toString) := by
  have hadvance := advance_split h n
  rw [if_neg (Nat.not_le.2 hn)] at hadvance
  rw [substring, dif_pos (isBoundary_iff.2 ⟨as, bs, h, rfl⟩)]
  split
  · next stop hs =>
    rw [hadvance] at hs
    cases hs
  · rfl

theorem drop_split {t : Text} {as bs : List Char} (h : t.toList = as ++ bs) :
    t.drop (layout as).length = .ok (ofList bs) := by
  have hms : t.toList = as ++ (bs ++ []) := by rw [List.append_nil, h]
  rw [drop, dif_pos (isBoundary_iff.2 ⟨as, bs, h, rfl⟩)]
  refine congrArg Except.ok (ext ?_)
  rw [toList_ofList]
  exact toList_cut hms _ _ _ rfl (by rw [width_eq, h])

theorem head_of_cons {t : Text} {c : Char} {cs : List Char} (h : t.toList = c :: cs) :
    t.head = .ok c := by
  simp [head, get?_cells, h, spell]

theorem head_of_nil {t : Text} (h : t.toList = []) : t.head = .error .emptyText := by
  simp [head, get?_cells, h]

end Piecemeal.Text

import Piecemeal.Proofs.Chunk.Sequences

/-!
# Counting characters by their bytes

`Text.atLeast` looks at the number of bytes behind an offset and counts characters only where that
number leaves it open. At an offset between two characters the answer is the count all the same
(`atLeast_split`), and it tells whether `substring` has one. Inside a character there is nothing to
count: where the bytes leave it open the test is a fault (`atLeast_of_not_boundary`), and so is
every cut.
-/

namespace Piecemeal.Text

open Cell

theorem length_layout (cs : List Char) :
    (layout cs).length = Sequence.width Char.utf8Size cs := by
  rw [← widthOf_eq, measures.width_eq]

variable {t : Text} {offset : Nat}

theorem boundary_iff_width : t.Boundary offset ↔
    ∃ before after, t.toList = before ++ after ∧
      Sequence.width Char.utf8Size before = offset := by
  simp only [Boundary, length_layout]

/-! ## Off the boundaries -/

theorem not_isBoundary (h : ¬ t.Boundary offset) : ¬ t.isBoundary offset = true :=
  fun hb => h (isBoundary_iff.1 hb)

theorem atLeast_of_width_lt (h : t.width < offset) (n : Nat) : t.atLeast offset n = .ok false :=
  if_pos h

/-- Inside a character, the bytes behind it are all there is to answer from. -/
theorem atLeast_of_not_boundary (hle : offset ≤ t.width) (hb : ¬ t.Boundary offset) (n : Nat) :
    t.atLeast offset n =
      if n ≤ t.width - offset ∧ t.width - offset < Size.saturate (4 * n) then
        .error (.offBoundary offset t.toString)
      else .ok (decide (n ≤ t.width - offset)) := by
  unfold atLeast
  rw [if_neg (Nat.not_lt.2 hle)]
  by_cases hfew : t.width - offset < n
  · have hshort : ¬ n ≤ t.width - offset := Nat.not_le.2 hfew
    rw [if_pos hfew, if_neg fun h => hshort h.1, decide_eq_false hshort]
  · have henough : n ≤ t.width - offset := Nat.le_of_not_lt hfew
    rw [if_neg hfew]
    by_cases hmany : Size.saturate (4 * n) ≤ t.width - offset
    · rw [if_pos hmany, if_neg fun h => Nat.not_lt.2 hmany h.2, decide_eq_true henough]
    · rw [if_neg hmany, if_neg (not_isBoundary hb),
        if_pos ⟨henough, Nat.lt_of_not_le hmany⟩]

theorem substring_of_not_boundary (hb : ¬ t.Boundary offset) (n : Nat) :
    t.substring offset n = .error (.offBoundary offset t.toString) :=
  dif_neg (not_isBoundary hb)

theorem drop_of_not_boundary (hb : ¬ t.Boundary offset) :
    t.drop offset = .error (.offBoundary offset t.toString) :=
  dif_neg (not_isBoundary hb)

/-! ## On a boundary -/

theorem exists_substring_iff {as bs : List Char} (h : t.toList = as ++ bs) (n : Nat) :
    (∃ u, t.substring (layout as).length n = .ok u) ↔ n ≤ bs.length := by
  constructor
  · rintro ⟨u, hu⟩
    refine Nat.le_of_not_lt fun hfew => ?_
    rw [substring_short h hfew] at hu
    cases hu
  · intro hn
    exact ⟨_, substring_split h hn⟩

theorem eq_of_substring {as bs : List Char} (h : t.toList = as ++ bs) {n : Nat} {u : Text}
    (hu : t.substring (layout as).length n = .ok u) : n ≤ bs.length ∧ u = ofList (bs.take n) := by
  have hn : n ≤ bs.length := (exists_substring_iff h n).1 ⟨u, hu⟩
  rw [substring_split h hn] at hu
  cases hu
  exact ⟨hn, rfl⟩

/-- The length test is exact. Beyond the end it is false. Between two characters it counts those
that follow, which is also when they can be cut out. Inside a character it tells only what the
number of bytes tells, and nothing can be cut there. -/
theorem atLeast_licenses_substring (t : Text) (hwidth : t.width < Size.max) (offset n : Nat) :
    (t.width < offset → t.atLeast offset n = .ok false) ∧
    (∀ before after : List Char, t.toList = before ++ after →
      Sequence.width Char.utf8Size before = offset →
        t.atLeast offset n = .ok (decide (n ≤ after.length)) ∧
        (t.atLeast offset n = .ok true ↔ ∃ u, t.substring offset n = .ok u) ∧
        ∀ u, t.substring offset n = .ok u →
          u.toList = after.take n ∧ Chunk.length u = n ∧
            u.width = Sequence.width Char.utf8Size (after.take n)) ∧
    (offset ≤ t.width →
      (¬ ∃ before after : List Char, t.toList = before ++ after ∧
        Sequence.width Char.utf8Size before = offset) →
      t.atLeast offset n =
        (if n ≤ t.width - offset ∧ t.width - offset < Size.saturate (4 * n) then
          .error (.offBoundary offset t.toString)
        else .ok (decide (n ≤ t.width - offset))) ∧
      t.substring offset n = .error (.offBoundary offset t.toString) ∧
      t.drop offset = .error (.offBoundary offset t.toString)) := by
  refine ⟨fun hbeyond => atLeast_of_width_lt hbeyond n, ?_, ?_⟩
  · intro before after hlist hoffset
    rw [← length_layout] at hoffset
    subst hoffset
    have hexact := atLeast_split hlist hwidth n
    refine ⟨hexact, ?_, ?_⟩
    · rw [hexact, exists_substring_iff hlist, Except.ok.injEq, decide_eq_true_iff]
    · intro u hu
      obtain ⟨hn, rfl⟩ := eq_of_substring hlist hu
      have hout : (ofList (after.take n)).toList = after.take n := toList_ofList _
      refine ⟨hout, ?_, ?_⟩
      · show (ofList (after.take n)).toList.length = n
        rw [hout, List.length_take, Nat.min_eq_left hn]
      · rw [width_eq, hout, length_layout]
  · intro hle hinside
    rw [← boundary_iff_width] at hinside
    exact ⟨atLeast_of_not_boundary hle hinside n, substring_of_not_boundary hinside n,
      drop_of_not_boundary hinside⟩

/-- In "aé😀b" the emoji takes the bytes 3 to 6. From offset 1 three characters follow. From inside
the emoji, at offset 5, three bytes follow: too few for four characters, enough for none, and no
telling for one. -/
theorem atLeast_licenses_substring_emoji :
    (ofList ['a', 'é', '😀', 'b']).width < Size.max ∧
    (ofList ['a', 'é', '😀', 'b']).atLeast 9 0 = .ok false ∧
    (ofList ['a', 'é', '😀', 'b']).atLeast 1 3 = .ok true ∧
    (∃ u, (ofList ['a', 'é', '😀', 'b']).substring 1 2 = .ok u ∧ u.toList = ['é', '😀'] ∧
      u.width = 6) ∧
    (ofList ['a', 'é', '😀', 'b']).atLeast 5 4 = .ok false ∧
    (ofList ['a', 'é', '😀', 'b']).atLeast 5 0 = .ok true ∧
    (ofList ['a', 'é', '😀', 'b']).atLeast 5 1 = .error (.offBoundary 5 "aé😀b") := by
  have hwidth : (ofList ['a', 'é', '😀', 'b']).width < Size.max := by decide +kernel
  have hsplit : (ofList ['a', 'é', '😀', 'b']).toList = ['a'] ++ ['é', '😀', 'b'] := toList_ofList _
  have hinside : ¬ ∃ before after, (ofList ['a', 'é', '😀', 'b']).toList = before ++ after ∧
      Sequence.width Char.utf8Size before = 5 := by
    rw [← boundary_iff_width, ← isBoundary_iff]
    decide +kernel
  have hle : 5 ≤ (ofList ['a', 'é', '😀', 'b']).width := by decide +kernel
  have hon := (atLeast_licenses_substring _ hwidth 1 2).2.1 _ _ hsplit (by decide)
  obtain ⟨u, hu⟩ := hon.2.1.1 hon.1
  have hcut := hon.2.2 u hu
  refine ⟨hwidth, ?_, ?_, ⟨u, hu, hcut.1, hcut.2.2⟩, ?_, ?_, ?_⟩
  · exact (atLeast_licenses_substring _ hwidth 9 0).1 (by decide +kernel)
  · exact ((atLeast_licenses_substring _ hwidth 1 3).2.1 _ _ hsplit (by decide)).1
  · exact ((atLeast_licenses_substring _ hwidth 5 4).2.2 hle hinside).1
  · exact ((atLeast_licenses_substring _ hwidth 5 0).2.2 hle hinside).1
  · exact ((atLeast_licenses_substring _ hwidth 5 1).2.2 hle hinside).1

end Piecemeal.Text

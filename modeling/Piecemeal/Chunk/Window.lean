/-!
# Windows into shared storage

A window is a stretch of an array, given by where it starts and stops. Cutting a window only
moves its ends, so the storage in front of it and behind it may hold items of other windows.
`toList` is what a window shows; one lemma per operation says what the operation does to it.
-/

namespace Piecemeal

/-- A stretch of an array. -/
structure Window (α : Type) where
  /-- The array that the window looks into. -/
  storage : Array α
  /-- The index of the first item in view. -/
  start : Nat
  /-- The index after the last item in view. -/
  stop : Nat
  start_le_stop : start ≤ stop
  stop_le_size : stop ≤ storage.size

namespace Window

variable {α : Type}

def ofArray (items : Array α) : Window α :=
  ⟨items, 0, items.size, Nat.zero_le _, Nat.le_refl _⟩

def size (w : Window α) : Nat := w.stop - w.start

/-- The items in view, as an array of their own. -/
def toArray (w : Window α) : Array α := w.storage.extract w.start w.stop

def toList (w : Window α) : List α := w.toArray.toList

/-- The item at an index counted from the start of the window. -/
def get? (w : Window α) (i : Nat) : Option α :=
  if i < w.size then w.storage[w.start + i]? else none

/-- The first `n` items, or all of them if there are fewer. -/
def take (w : Window α) (n : Nat) : Window α :=
  ⟨w.storage, w.start, min (w.start + n) w.stop,
    Nat.le_min.2 ⟨Nat.le_add_right _ _, w.start_le_stop⟩,
    Nat.le_trans (Nat.min_le_right _ _) w.stop_le_size⟩

def drop (w : Window α) (n : Nat) : Window α :=
  ⟨w.storage, min (w.start + n) w.stop, w.stop, Nat.min_le_right _ _, w.stop_le_size⟩

/-- Puts the items of `w` behind those of `v` in the storage of `v`, over whatever was there. -/
def grow (v w : Window α) : Window α :=
  ⟨v.storage.shrink v.stop ++ w.toArray, v.start, (v.storage.shrink v.stop ++ w.toArray).size,
    by
      have := v.start_le_stop
      have := v.stop_le_size
      simp
      omega,
    Nat.le_refl _⟩

/-- Puts the items of both windows into storage of their own. -/
def copy (v w : Window α) : Window α := ofArray (v.toArray ++ w.toArray)

/-- The items of `v`, then those of `w`. A window that reaches the end of its storage grows the
storage; any other is copied, because what follows it may be in view elsewhere. -/
def append (v w : Window α) : Window α :=
  if w.size = 0 then v
  else if v.size = 0 then w
  else if v.stop = v.storage.size then v.grow w
  else v.copy w

/-! ## The items in view -/

theorem toList_eq (w : Window α) : w.toList = (w.storage.toList.drop w.start).take w.size := by
  simp [toList, toArray, size, List.extract_eq_take_drop]

@[simp] theorem toList_toArray (w : Window α) : w.toArray.toList = w.toList := rfl

@[simp] theorem size_toArray (w : Window α) : w.toArray.size = w.size := by
  have := w.stop_le_size
  simp only [toArray, size, Array.size_extract]
  omega

@[simp] theorem length_toList (w : Window α) : w.toList.length = w.size := by
  have := w.start_le_stop
  have := w.stop_le_size
  simp only [toList_eq, List.length_take, List.length_drop, Array.length_toList, size]
  omega

@[simp] theorem toList_ofArray (items : Array α) : (ofArray items).toList = items.toList := by
  simp [toList, toArray, ofArray]

theorem get?_eq (w : Window α) (i : Nat) : w.get? i = w.toList[i]? := by
  rw [toList_eq, get?, List.getElem?_take]
  split
  · rw [List.getElem?_drop, Array.getElem?_toList]
  · rfl

@[simp] theorem toList_take (w : Window α) (n : Nat) : (w.take n).toList = w.toList.take n := by
  have := w.start_le_stop
  rw [toList_eq, toList_eq, List.take_take]
  simp only [take, size]
  congr 1
  omega

@[simp] theorem toList_drop (w : Window α) (n : Nat) : (w.drop n).toList = w.toList.drop n := by
  have h := w.start_le_stop
  rw [toList_eq, toList_eq, List.drop_take, List.drop_drop]
  simp only [drop, size]
  by_cases hn : w.start + n ≤ w.stop
  · rw [Nat.min_eq_left hn, Nat.sub_sub]
  · have hsize : w.stop - min (w.start + n) w.stop = 0 := by omega
    have hsub : w.stop - w.start - n = 0 := by omega
    rw [hsize, hsub, List.take_zero, List.take_zero]

@[simp] theorem toList_grow (v w : Window α) : (v.grow w).toList = v.toList ++ w.toList := by
  have := v.start_le_stop
  have := v.stop_le_size
  rw [toList_eq v, toList_eq (v.grow w), List.take_of_length_le]
  · simp only [grow, size, Array.shrink_eq_take, Array.toList_append, toList_toArray,
      Array.take_eq_extract, Array.toList_extract, List.extract_eq_take_drop, List.drop_zero,
      Nat.sub_zero]
    rw [List.drop_append_of_le_length (by simp; omega), List.drop_take]
  · simp [grow, size]

@[simp] theorem toList_copy (v w : Window α) : (v.copy w).toList = v.toList ++ w.toList := by
  simp [copy]

/-- Whichever way the storage is arranged, appending concatenates what is in view. -/
@[simp] theorem toList_append (v w : Window α) : (v.append w).toList = v.toList ++ w.toList := by
  rw [append]
  split
  · have : w.toList = [] := List.eq_nil_of_length_eq_zero (by simpa)
    simp [this]
  · split
    · have : v.toList = [] := List.eq_nil_of_length_eq_zero (by simpa)
      simp [this]
    · split <;> simp

end Window

end Piecemeal

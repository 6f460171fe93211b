import Piecemeal.Chunk.Window

/-!
# Segments

A segment is a window of which only the items in view count: `Window` modulo "shows the same
items". Two segments are equal exactly when their items are (`Segment.ext`), however their
storage came about, and no function of a segment can tell more than its items. Every operation is
that of a window.
-/

namespace Piecemeal

def Window.sameItems (α : Type) : Setoid (Window α) where
  r v w := v.toList = w.toList
  iseqv := ⟨fun _ => rfl, fun h => h.symm, fun h k => h.trans k⟩

/-- A sequence of items, stored as a window. -/
def Segment (α : Type) : Type := Quotient (Window.sameItems α)

namespace Segment

variable {α : Type}

def ofWindow (w : Window α) : Segment α := Quotient.mk _ w

theorem ofWindow_eq {v w : Window α} (h : v.toList = w.toList) : ofWindow v = ofWindow w :=
  Quotient.sound h

def ofArray (items : Array α) : Segment α := ofWindow (Window.ofArray items)

def ofList (items : List α) : Segment α := ofArray items.toArray

def empty : Segment α := ofArray #[]

instance : Inhabited (Segment α) := ⟨empty⟩

def toList (s : Segment α) : List α := Quotient.lift Window.toList (fun _ _ h => h) s

def size (s : Segment α) : Nat :=
  Quotient.lift Window.size
    (fun v w h => by rw [← v.length_toList, ← w.length_toList, show v.toList = w.toList from h]) s

def get? (s : Segment α) (i : Nat) : Option α :=
  Quotient.lift (fun w => w.get? i)
    (fun v w h => by simp only [Window.get?_eq, show v.toList = w.toList from h]) s

/-- The first `n` items, or all of them if there are fewer. -/
def take (s : Segment α) (n : Nat) : Segment α :=
  Quotient.lift (fun w => ofWindow (w.take n))
    (fun v w h => ofWindow_eq (by simp [show v.toList = w.toList from h])) s

def drop (s : Segment α) (n : Nat) : Segment α :=
  Quotient.lift (fun w => ofWindow (w.drop n))
    (fun v w h => ofWindow_eq (by simp [show v.toList = w.toList from h])) s

/-- The items from index `i` up to and without index `j`. -/
def extract (s : Segment α) (i j : Nat) : Segment α := (s.drop i).take (j - i)

def append (s t : Segment α) : Segment α :=
  Quotient.lift₂ (fun v w => ofWindow (v.append w))
    (fun v w v' w' h k => ofWindow_eq (by
      simp [show v.toList = v'.toList from h, show w.toList = w'.toList from k])) s t

instance : Append (Segment α) := ⟨append⟩

/-! ## The items -/

@[ext] theorem ext {s t : Segment α} (h : s.toList = t.toList) : s = t := by
  induction s using Quotient.ind
  induction t using Quotient.ind
  exact Quotient.sound h

theorem toList_inj {s t : Segment α} : s.toList = t.toList ↔ s = t :=
  ⟨ext, fun h => h ▸ rfl⟩

instance [DecidableEq α] : DecidableEq (Segment α) := fun s t =>
  decidable_of_iff (s.toList = t.toList) toList_inj

@[simp] theorem toList_ofArray (items : Array α) : (ofArray items).toList = items.toList :=
  Window.toList_ofArray items

@[simp] theorem toList_ofList (items : List α) : (ofList items).toList = items := by
  simp [ofList]

@[simp] theorem toList_empty : (empty : Segment α).toList = [] := by simp [empty]

@[simp] theorem ofList_toList (s : Segment α) : ofList s.toList = s := ext (by simp)

@[simp] theorem length_toList (s : Segment α) : s.toList.length = s.size := by
  induction s using Quotient.ind with
  | _ w => exact w.length_toList

theorem get?_eq (s : Segment α) (i : Nat) : s.get? i = s.toList[i]? := by
  induction s using Quotient.ind with
  | _ w => exact w.get?_eq i

@[simp] theorem toList_take (s : Segment α) (n : Nat) : (s.take n).toList = s.toList.take n := by
  induction s using Quotient.ind with
  | _ w => exact w.toList_take n

@[simp] theorem toList_drop (s : Segment α) (n : Nat) : (s.drop n).toList = s.toList.drop n := by
  induction s using Quotient.ind with
  | _ w => exact w.toList_drop n

@[simp] theorem toList_extract (s : Segment α) (i j : Nat) :
    (s.extract i j).toList = (s.toList.drop i).take (j - i) := by
  simp [extract]

@[simp] theorem toList_append (s t : Segment α) : (s ++ t).toList = s.toList ++ t.toList := by
  induction s using Quotient.ind with
  | _ v =>
    induction t using Quotient.ind with
    | _ w => exact v.toList_append w

@[simp] theorem size_append (s t : Segment α) : (s ++ t).size = s.size + t.size := by
  rw [← length_toList, toList_append, List.length_append, length_toList, length_toList]

end Segment

end Piecemeal

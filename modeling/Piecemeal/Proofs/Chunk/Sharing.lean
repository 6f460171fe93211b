import Piecemeal.Chunk.Shared
import Piecemeal.Proofs.Chunk.Preconditions

/-!
# Shared storage is not seen

`Shared.Shows`: the units that a view looks at spell a chunk. What the array holds in front of them
and behind them does not matter, so a view shows the same chunk as long as the array in its slot
stays as it is (`Shows.frame`), and a part of a view shows a part of the chunk (`Shows.part`).

`Shared.Mirrors`: every register shows the chunk that the same register of a machine of values
holds. An instruction preserves this and is answered alike (`step_tracks`), and so is every program
(`run_tracks`). The one instruction that writes into an array that is there already is `append`, and
it does so only where no register looks (`Mirrors.extend`).
-/

namespace Piecemeal

/-- A chunk type whose units are laid side by side when chunks are appended. -/
class LawfulStored (T : Type) (E U : outParam Type) [Chunk T E] [Stored T U] : Prop where
  ofUnits_units (c : T) : Stored.ofUnits (Stored.units c) = c
  units_append (c d : T) : Stored.units (Chunk.append c d) = Stored.units c ++ Stored.units d
  size_units (c : T) : (Stored.units c).size = Chunk.width c

instance : LawfulStored Bytes UInt8 UInt8 where
  ofUnits_units _ := rfl
  units_append _ _ := rfl
  size_units _ := rfl

instance : LawfulStored Text Char Cell where
  ofUnits_units t := Text.ext (Text.toList_ofList t.toList)
  units_append _ _ := rfl
  size_units _ := rfl

namespace Chunk

variable {T E : Type} [Chunk T E]

theorem isEmpty_of_width {c : T} (h : width c = 0) : isEmpty c = true := by
  cases hempty : isEmpty c with
  | true => rfl
  | false =>
    have := width_pos hempty
    omega

theorem append_of_isEmpty_left [LawfulChunk T E] {c : T} (h : isEmpty c = true) (d : T) :
    append c d = d := by
  apply ext_toList
  rw [LawfulChunk.toList_append, LawfulChunk.isEmpty_iff.1 h, List.nil_append]

end Chunk

theorem Window.toList_storage_grow {α : Type} (v w : Window α) :
    (v.grow w).storage.toList = v.storage.toList.take v.stop ++ w.toList := by
  simp [Window.grow, Array.shrink_eq_take, List.extract_eq_take_drop]

/-! ## Registers -/

namespace Machine

variable {T E : Type}

theorem read?_of_lt {m : Machine T} {r : Nat} (h : r < m.size) : m.read? r = m[r] := by
  rw [read?, Array.getElem?_eq_getElem h]
  rfl

theorem read?_push (m : Machine T) (c : Option T) (r : Nat) :
    Machine.read? (m.push c) r = if r = m.size then c else m.read? r := by
  unfold read?
  rw [Array.getElem?_push]
  split
  · rfl
  · rfl

theorem read?_clear (m : Machine T) (r s : Nat) :
    (m.clear r).read? s = if r = s then none else m.read? s := by
  unfold read? clear
  rw [Array.getElem?_setIfInBounds]
  split
  · split
    · rfl
    · rfl
  · rfl

theorem size_clear (m : Machine T) (r : Nat) : (m.clear r).size = m.size :=
  Array.size_setIfInBounds

theorem step_equal [Chunk T E] [DecidableEq T] (m : Machine T) (r s : Nat) :
    (m.step (.equal r s : Instruction T E)).1 = m := by
  simp only [step]
  split
  · rfl
  · rfl

end Machine

namespace Shared

open LawfulStored

variable {T E U : Type} [Chunk T E] [Stored T U]
  {m m' : Shared U} {v w : View} {c d : T} {chunks : Machine T}

/-! ## Views -/

/-- The view looks at the units of a chunk. -/
def Shows (m : Shared U) (v : View) (c : T) : Prop :=
  ∃ items before after, m.store[v.slot]? = some items ∧
    items.toList = before ++ ((Stored.units c).toList ++ after) ∧
    before.length = v.start ∧ v.start + Chunk.width c = v.stop

/-- A view shows the same as long as the array in its slot stays as it is. -/
theorem Shows.frame (h : m.Shows v c) (hslot : m'.store[v.slot]? = m.store[v.slot]?) :
    m'.Shows v c := by
  unfold Shows
  rw [hslot]
  exact h

theorem Shows.slot_lt (h : m.Shows v c) : v.slot < m.store.size := by
  obtain ⟨items, before, after, hslot, -⟩ := h
  exact (Array.getElem?_eq_some_iff.1 hslot).1

theorem Shows.isEmpty_iff (h : m.Shows v c) : v.isEmpty = true ↔ Chunk.width c = 0 := by
  obtain ⟨-, -, -, -, -, -, hstop⟩ := h
  unfold View.isEmpty
  rw [beq_iff_eq]
  omega

section

variable [LawfulStored T E U]

theorem length_units (c : T) : (Stored.units c).toList.length = Chunk.width c := by
  rw [Segment.length_toList, size_units]

theorem Shows.window_ends (h : m.Shows v c) :
    (m.window v).start = v.start ∧ (m.window v).stop = v.stop := by
  obtain ⟨items, before, after, hslot, hitems, hstart, hstop⟩ := h
  have hsize := congrArg List.length hitems
  rw [Array.length_toList, List.length_append, List.length_append, length_units] at hsize
  unfold window
  rw [hslot]
  simp only [Window.drop, Window.take, Window.ofArray, Option.getD_some]
  omega

theorem Shows.toList_window (h : m.Shows v c) :
    (m.window v).toList = (Stored.units c).toList := by
  obtain ⟨items, before, after, hslot, hitems, hstart, hstop⟩ := h
  have hlength : (before ++ (Stored.units c).toList).length = v.stop := by
    rw [List.length_append, length_units]
    omega
  unfold window
  rw [hslot, Option.getD_some, Window.toList_drop, Window.toList_take, Window.toList_ofArray,
    hitems, ← List.append_assoc, List.take_left' hlength, List.drop_left' hstart]

theorem Shows.chunk_eq (h : m.Shows v c) : m.chunk v = c := by
  have hunits : Segment.ofWindow (m.window v) = Stored.units c := Segment.ext h.toList_window
  unfold chunk
  rw [hunits, ofUnits_units]

theorem map_chunk_eq {view : Option View} {chunk : Option T} (h : Option.Rel m.Shows view chunk) :
    view.map m.chunk = chunk := by
  cases h with
  | none => rfl
  | some hshows => exact congrArg some hshows.chunk_eq

theorem shows_allocate {items : Array U} (h : items.toList = (Stored.units c).toList) :
    (m.allocate items).1.Shows (m.allocate items).2 c := by
  refine ⟨items, [], [], ?_, ?_, rfl, ?_⟩
  · exact (Array.getElem?_push).trans (if_pos rfl)
  · rw [List.append_nil, List.nil_append, h]
  · have hsize := congrArg List.length h
    rw [Array.length_toList, length_units] at hsize
    exact (Nat.zero_add _).trans hsize.symm

/-- The part of a view that starts at an offset shows the elements that follow the offset. -/
theorem Shows.part [LawfulChunk T E] (h : m.Shows v c) {first : Nat} {before after : List E}
    (hsplit : Chunk.SplitsAt c first before (Chunk.toList d ++ after)) :
    m.Shows (v.part first (first + Chunk.width d)) d := by
  obtain ⟨items, front, behind, hslot, hitems, hstart, hstop⟩ := h
  obtain ⟨hlist, hfirst⟩ := hsplit
  have hc : c = Chunk.append (Chunk.ofList before) (Chunk.append d (Chunk.ofList after)) := by
    apply Chunk.ext_toList
    simp only [LawfulChunk.toList_append, LawfulChunk.toList_ofList, hlist]
  have hunits : (Stored.units c).toList = (Stored.units (Chunk.ofList before : T)).toList
      ++ ((Stored.units d).toList ++ (Stored.units (Chunk.ofList after : T)).toList) := by
    rw [hc, units_append, units_append, Segment.toList_append, Segment.toList_append]
  refine ⟨items, front ++ (Stored.units (Chunk.ofList before : T)).toList,
    (Stored.units (Chunk.ofList after : T)).toList ++ behind, hslot, ?_, ?_, ?_⟩
  · rw [hitems, hunits]
    simp only [List.append_assoc]
  · rw [List.length_append, length_units, hstart]
    exact congrArg _ hfirst
  · exact Nat.add_assoc _ _ _

/-! ## Appending -/

/-- Writing behind a view shows both chunks, whatever was there before. -/
theorem Shows.extend (hv : m.Shows v c) (hw : m.Shows w d) :
    (m.extend v w).1.Shows (m.extend v w).2 (Chunk.append c d) := by
  have hwindow := hw.toList_window
  obtain ⟨hwstart, hwstop⟩ := hv.window_ends
  have hlt := hv.slot_lt
  obtain ⟨items, before, after, hslot, hitems, hstart, hstop⟩ := hv
  have hkept : items.toList.take v.stop = before ++ (Stored.units c).toList := by
    rw [hitems, ← List.append_assoc]
    refine List.take_left' ?_
    rw [List.length_append, length_units]
    omega
  have hstorage : (m.window v).storage = items := by
    unfold window
    rw [hslot]
    rfl
  have hgrown : ((m.window v).grow (m.window w)).storage.toList
      = before ++ ((Stored.units (Chunk.append c d)).toList ++ []) := by
    rw [Window.toList_storage_grow, hstorage, hwstop, hkept, hwindow, units_append,
      Segment.toList_append, List.append_nil, List.append_assoc]
  refine ⟨_, before, [], ?_, hgrown, hstart.trans hwstart.symm, ?_⟩
  · exact Array.getElem?_setIfInBounds.trans ((if_pos rfl).trans (if_pos hlt))
  · have hsize := congrArg List.length hgrown
    rw [Array.length_toList, List.length_append, List.append_nil, length_units] at hsize
    exact (congrArg (· + _) (hwstart.trans hstart.symm)).trans hsize.symm

end

/-! ## Mirroring -/

/-- Every register shows the chunk in the same register of a machine of values. -/
def Mirrors (m : Shared U) (chunks : Machine T) : Prop :=
  m.registers.size = chunks.size ∧ ∀ r, Option.Rel m.Shows (m.registers.read? r) (chunks.read? r)

/-- The registers of the two machines mirror each other, and their answers are the same. -/
def Tracks (shared : Shared U × Answer T E) (values : Machine T × Answer T E) : Prop :=
  shared.1.Mirrors values.1 ∧ shared.2 = values.2

theorem slot_ne_of_isUnseen {slot r : Nat} (h : m.isUnseen slot = true)
    (hread : m.registers.read? r = some v) : v.slot ≠ slot := by
  obtain ⟨hr, hview⟩ := Array.getElem?_eq_some_iff.1 (Option.join_eq_some_iff.1 hread)
  have hall := Array.all_eq_true.1 h r hr
  rw [hview] at hall
  exact bne_iff_ne.1 hall

theorem mirrors_empty : (empty : Shared U).Mirrors (#[] : Machine T) :=
  ⟨rfl, fun _ => .none⟩

namespace Mirrors

theorem read (h : m.Mirrors chunks) (r : Nat) :
    (m.registers.read? r = none ∧ chunks.read? r = none) ∨
      ∃ v c, m.registers.read? r = some v ∧ chunks.read? r = some c ∧ m.Shows v c := by
  have hrel := h.2 r
  generalize hview : m.registers.read? r = view at hrel
  generalize hchunk : chunks.read? r = chunk at hrel
  cases hrel with
  | none => exact .inl ⟨rfl, rfl⟩
  | some hshows => exact .inr ⟨_, _, rfl, rfl, hshows⟩

theorem clear (h : m.Mirrors chunks) (r : Nat) : (m.clear r).Mirrors (chunks.clear r) := by
  obtain ⟨hsize, hrel⟩ := h
  refine ⟨?_, fun s => ?_⟩
  · rw [Machine.size_clear]
    exact (Machine.size_clear _ _).trans hsize
  · have hs := hrel s
    unfold Shared.clear
    rw [Machine.read?_clear, Machine.read?_clear]
    split
    · exact .none
    · exact hs

/-- Arrays that no register looks into may change. -/
theorem of_frame (h : m.Mirrors chunks) (hregisters : m'.registers = m.registers)
    (hframe : ∀ r u, m.registers.read? r = some u → u.slot < m.store.size →
      m'.store[u.slot]? = m.store[u.slot]?) : m'.Mirrors chunks := by
  refine ⟨hregisters ▸ h.1, fun r => ?_⟩
  rw [hregisters]
  rcases h.read r with ⟨hview, hchunk⟩ | ⟨u, e, hview, hchunk, hshows⟩
  · rw [hview, hchunk]
    exact .none
  · rw [hview, hchunk]
    exact .some (hshows.frame (hframe r u hview hshows.slot_lt))

theorem allocate (h : m.Mirrors chunks) (items : Array U) :
    (m.allocate items).1.Mirrors chunks := by
  refine h.of_frame rfl fun r u _ hlt => ?_
  exact Array.getElem?_push.trans (if_neg (Nat.ne_of_lt hlt))

theorem extend (h : m.Mirrors chunks) (hunseen : m.isUnseen v.slot = true) :
    (m.extend v w).1.Mirrors chunks := by
  refine h.of_frame rfl fun r u hread _ => ?_
  exact Array.getElem?_setIfInBounds.trans (if_neg (slot_ne_of_isUnseen hunseen hread).symm)

section

variable [LawfulStored T E U]

theorem chunks_eq (h : m.Mirrors chunks) : m.chunks = chunks := by
  obtain ⟨hsize, hrel⟩ := h
  refine Array.ext (Array.size_map.trans hsize) fun r hr hr' => ?_
  have hshows := hrel r
  rw [Machine.read?_of_lt (by rwa [hsize]), Machine.read?_of_lt hr'] at hshows
  rw [← map_chunk_eq hshows]
  exact Array.getElem_map ..

theorem put {p : Shared U × View} (h : p.1.Mirrors chunks) (hv : p.1.Shows p.2 c) :
    Tracks (E := E) (put p) (chunks.store c) := by
  obtain ⟨hsize, hrel⟩ := h
  refine ⟨⟨?_, fun r => ?_⟩, ?_⟩
  · simp only [Shared.put, Machine.store, Array.size_push, hsize]
  · have hr := hrel r
    simp only [Shared.put, Machine.store, Machine.read?_push, hsize]
    split
    · exact .some hv
    · exact hr
  · simp only [Shared.put, Machine.store, hsize, hv.chunk_eq]

theorem append [LawfulChunk T E] (h : m.Mirrors chunks) (hv : m.Shows v c) (hw : m.Shows w d) :
    (m.append v w).1.Mirrors chunks ∧
      (m.append v w).1.Shows (m.append v w).2 (Chunk.append c d) := by
  unfold Shared.append
  split
  · next hempty =>
    rw [Chunk.append_of_isEmpty c (Chunk.isEmpty_of_width (hw.isEmpty_iff.1 hempty))]
    exact ⟨h, hv⟩
  · split
    · next hempty =>
      rw [Chunk.append_of_isEmpty_left (Chunk.isEmpty_of_width (hv.isEmpty_iff.1 hempty)) d]
      exact ⟨h, hw⟩
    · split
      · next hunseen => exact ⟨h.extend hunseen, hv.extend hw⟩
      · refine ⟨h.allocate _, shows_allocate ?_⟩
        rw [Array.toList_append, Window.toList_toArray, Window.toList_toArray, hv.toList_window,
          hw.toList_window, units_append, Segment.toList_append]

theorem derive [LawfulChunk T E] (h : m.Mirrors chunks) (r : Nat) {op : T → Except Fault T}
    {first : T → T → Nat}
    (hpart : ∀ c d, op c = .ok d →
      ∃ before after, Chunk.SplitsAt c (first c d) before (Chunk.toList d ++ after)) :
    Tracks (E := E) (m.derive r op first) (chunks.derive r op) := by
  unfold Shared.derive Machine.derive
  rcases h.read r with ⟨hview, hchunk⟩ | ⟨v, c, hview, hchunk, hshows⟩
  · rw [hview, hchunk]
    exact ⟨h, rfl⟩
  · simp only [hview, hchunk, hshows.chunk_eq]
    cases hop : op c with
    | error fault => exact ⟨h, rfl⟩
    | ok d =>
      obtain ⟨before, after, hsplit⟩ := hpart c d hop
      exact Mirrors.put h (hshows.part hsplit)

end

end Mirrors

/-! ## Steps and runs -/

section

variable [LawfulChunk T E] [StrictChunk T E] [LawfulStored T E U] [DecidableEq T]

theorem step_tracks (h : m.Mirrors chunks) (i : Instruction T E) :
    Tracks (m.step i) (chunks.step i) := by
  have hchunks := h.chunks_eq
  cases i with
  | store c => exact Mirrors.put (h.allocate _) (shows_allocate rfl)
  | clone r =>
    refine h.derive r ?_
    rintro c d ⟨⟩
    exact ⟨[], [], by rw [List.append_nil]; rfl, Chunk.widthOf_nil⟩
  | forget r => exact ⟨h.clear r, rfl⟩
  | tail r =>
    refine h.derive r fun c d hd => ?_
    obtain ⟨before, hsplit⟩ := Chunk.splits_of_tail hd
    exact ⟨before, [], by rwa [List.append_nil]⟩
  | drop r offset =>
    refine h.derive r fun c d hd => ?_
    obtain ⟨before, hsplit⟩ := StrictChunk.splits_of_drop hd
    exact ⟨before, [], by rwa [List.append_nil]⟩
  | substring r offset n =>
    refine h.derive r fun c d hd => ?_
    obtain ⟨before, after, hsplit, -⟩ := StrictChunk.splits_of_substring hd
    exact ⟨before, after, hsplit⟩
  | append r s =>
    simp only [step, Machine.step]
    rcases h.read r with ⟨hview, hchunk⟩ | ⟨v, c, hview, hchunk, hshows⟩
    · rw [hview, hchunk]
      exact ⟨h, rfl⟩
    · have hclear := h.clear r
      rcases hclear.read s with ⟨hview', hchunk'⟩ | ⟨w, d, hview', hchunk', hshows'⟩
      · have hother : (m.registers.clear r).read? s = none := hview'
        rw [hview, hchunk, hother, hchunk']
        exact ⟨h, rfl⟩
      · have hother : (m.registers.clear r).read? s = some w := hview'
        rw [hview, hchunk, hother, hchunk']
        obtain ⟨hmirrors, hboth⟩ := hclear.append (hshows.frame rfl) hshows'
        exact hmirrors.put hboth
  | appendCopy r s =>
    simp only [step, Machine.step, Machine.derive]
    rcases h.read r with ⟨hview, hchunk⟩ | ⟨v, c, hview, hchunk, hshows⟩
    · rw [hview, hchunk]
      cases chunks.read? s with
      | none => exact ⟨h, rfl⟩
      | some d => exact ⟨h, rfl⟩
    · rcases h.read s with ⟨hview', hchunk'⟩ | ⟨w, d, hview', hchunk', hshows'⟩
      · rw [hview, hview', hchunk']
        exact ⟨h, rfl⟩
      · rw [hview, hview', hchunk, hchunk']
        obtain ⟨hmirrors, hboth⟩ := h.append hshows hshows'
        exact hmirrors.put hboth
  | equal r s =>
    refine ⟨?_, ?_⟩
    · rw [Machine.step_equal]
      exact h
    · exact congrArg (fun read : Machine T => (read.step (.equal r s)).2) hchunks
  | isEmpty r | length r | width r | head r | lengthAtLeast r offset n | literal r | display r
    | toChar e | all =>
    exact ⟨h, congrArg (fun read : Machine T => (read.step _).2) hchunks⟩

theorem run_tracks (h : m.Mirrors chunks) (program : List (Instruction T E)) :
    (m.run program).1.Mirrors (chunks.run program).1 ∧
      (m.run program).2 = (chunks.run program).2 := by
  induction program generalizing m chunks with
  | nil => exact ⟨h, rfl⟩
  | cons i program ih =>
    obtain ⟨hmirrors, hanswer⟩ := step_tracks h i
    obtain ⟨hlast, hanswers⟩ := ih hmirrors
    refine ⟨hlast, ?_⟩
    simp only [run, Machine.run, hanswer, hanswers]

end

/-! ## Faults -/

theorem derive_of_fault {r : Nat} {op : T → Except Fault T} {first : T → T → Nat} {fault : Fault}
    (h : (m.derive r op first).2 = (.fault fault : Answer T E)) :
    (m.derive r op first : Shared U × Answer T E).1 = m := by
  unfold derive at h ⊢
  split at h
  · split at h
    · cases h
    · rfl
  · rfl

theorem step_of_fault [DecidableEq T] {i : Instruction T E} {fault : Fault}
    (h : (m.step i).2 = .fault fault) : (m.step i).1 = m := by
  cases i with
  | store c => cases h
  | forget r => cases h
  | clone r | tail r | drop r offset | substring r offset n => exact derive_of_fault h
  | append r s | appendCopy r s =>
    simp only [step] at h ⊢
    split at h
    · cases h
    · rfl
  | _ => rfl

end Shared

end Piecemeal

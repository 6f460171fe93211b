import Mathlib.Data.List.Forall2
import Piecemeal.Proofs.Chunk.Sharing

/-!
# Chunks refine plain sequences

`Sequence.step` carries out the instructions of the register machine on lists of elements: nothing
is shared, nothing is cut but lists, and an instruction whose precondition fails is *refused* and
changes nothing. Offsets are measured in bytes, of which an element takes as many as a function `w`
says.

`chunks_refine_sequences`: chunks of bytes and chunks of text, in shared storage, hold what the
lists hold after every program, and every instruction is answered as for lists. In particular it is
a fault exactly where the lists refuse.
-/

namespace Piecemeal

inductive Reply (E : Type) where
  /-- A sequence was stored in a register. -/
  | stored (r : Nat) (es : List E)
  | truth (value : Bool)
  | count (value : Nat)
  | element (value : E)
  | registers (rows : List (Option (List E)))
  /-- The precondition of the instruction does not hold. -/
  | refused
  | nothing
  | emptyRegister
  deriving DecidableEq

namespace Sequence

variable {T E : Type} (w : E → Nat)

def width : List E → Nat
  | [] => 0
  | e :: es => w e + width es

/-- The elements that follow an offset, if the offset is between two elements or at either end. -/
def behind? : List E → Nat → Option (List E)
  | es, 0 => some es
  | [], _ + 1 => none
  | e :: es, offset + 1 =>
    if w e ≤ offset + 1 then behind? es (offset + 1 - w e) else none

/-- The `n` elements that follow an offset, if there are as many. -/
def slice? (es : List E) (offset n : Nat) : Option (List E) :=
  match behind? w es offset with
  | some rest => if n ≤ rest.length then some (rest.take n) else none
  | none => none

def store (m : Machine (List E)) (es : List E) : Machine (List E) × Option (Reply E) :=
  (m.push (some es), some (.stored m.size es))

def ask (m : Machine (List E)) (r : Nat) (reply : List E → Option (Reply E)) :
    Machine (List E) × Option (Reply E) :=
  (m, match m.read? r with
    | some es => reply es
    | none => some .emptyRegister)

def derive (m : Machine (List E)) (r : Nat) (op : List E → Option (List E)) :
    Machine (List E) × Option (Reply E) :=
  match m.read? r with
  | some es =>
    match op es with
    | some fs => store m fs
    | none => (m, some .refused)
  | none => (m, some .emptyRegister)

/-- Carries out one instruction. Sequences have no literals and no rendering, and they do not say
whether elements follow an offset that is not between two elements. -/
def step [Chunk T E] [DecidableEq E] (m : Machine (List E)) :
    Instruction T E → Machine (List E) × Option (Reply E)
  | .store chunk => store m (Chunk.toList chunk)
  | .clone r => derive m r some
  | .forget r => (m.clear r, some .nothing)
  | .isEmpty r => ask m r fun es => some (.truth es.isEmpty)
  | .length r => ask m r fun es => some (.count es.length)
  | .width r => ask m r fun es => some (.count (width w es))
  | .head r => ask m r fun es => some (es.head?.elim .refused .element)
  | .tail r => derive m r List.tail?
  | .drop r offset => derive m r fun es => behind? w es offset
  | .substring r offset n => derive m r fun es => slice? w es offset n
  | .lengthAtLeast r offset n => ask m r fun es =>
    (behind? w es offset).map fun rest => .truth (n ≤ rest.length)
  | .append r s =>
    match m.read? r, (m.clear r).read? s with
    | some es, some fs => store (m.clear r) (es ++ fs)
    | _, _ => (m, some .emptyRegister)
  | .appendCopy r s =>
    match m.read? r, m.read? s with
    | some es, some fs => store m (es ++ fs)
    | _, _ => (m, some .emptyRegister)
  | .equal r s =>
    match m.read? r, m.read? s with
    | some es, some fs => (m, some (.truth (es = fs)))
    | _, _ => (m, some .emptyRegister)
  | .literal _ => (m, none)
  | .display _ => (m, none)
  | .toChar _ => (m, none)
  | .all => (m, some (.registers m.toList))

def run [Chunk T E] [DecidableEq E] (m : Machine (List E)) :
    List (Instruction T E) → Machine (List E) × List (Option (Reply E))
  | [] => (m, [])
  | i :: rest =>
    let (m, first) := step w m i
    let (m, later) := run m rest
    (m, first :: later)

/-- No sequence in a register is wider than can be stored. -/
def Narrow (m : Machine (List E)) : Prop :=
  ∀ row ∈ m.toList, width w (row.getD []) < Size.storable

/-- Whenever an instruction is carried out, no sequence is wider than can be stored. -/
def Storable [Chunk T E] [DecidableEq E] (m : Machine (List E)) : List (Instruction T E) → Prop
  | [] => True
  | i :: rest => Narrow w m ∧ Storable (step w m i).1 rest

instance (m : Machine (List E)) : Decidable (Narrow w m) :=
  inferInstanceAs (Decidable (∀ row ∈ m.toList, _))

instance [Chunk T E] [DecidableEq E] (m : Machine (List E)) :
    (program : List (Instruction T E)) → Decidable (Storable w m program)
  | [] => inferInstanceAs (Decidable True)
  | i :: rest =>
    have : Decidable (Storable w (step w m i).1 rest) := instDecidableStorable (step w m i).1 rest
    inferInstanceAs (Decidable (_ ∧ _))

/-! ## Offsets into sequences -/

theorem width_cons (e : E) (es : List E) : width w (e :: es) = w e + width w es := rfl

variable {w}

theorem behind?_eq_some_iff (hw : ∀ e, 0 < w e) {es rest : List E} {offset : Nat} :
    behind? w es offset = some rest ↔ ∃ before, es = before ++ rest ∧ width w before = offset := by
  fun_induction behind? w es offset with
  | case1 es =>
    constructor
    · rintro ⟨⟩
      exact ⟨[], rfl, rfl⟩
    · rintro ⟨before, rfl, hwidth⟩
      cases before with
      | nil => rfl
      | cons e before =>
        have := hw e
        rw [width_cons] at hwidth
        omega
  | case2 offset =>
    constructor
    · rintro ⟨⟩
    · rintro ⟨before, hnil, hwidth⟩
      rw [(List.append_eq_nil_iff.1 hnil.symm).1] at hwidth
      cases hwidth
  | case3 e es offset hle ih =>
    rw [ih]
    clear ih
    constructor
    · rintro ⟨before, rfl, hwidth⟩
      refine ⟨e :: before, rfl, ?_⟩
      rw [width_cons]
      omega
    · rintro ⟨before, hes, hwidth⟩
      cases before with
      | nil => cases hwidth
      | cons e' before =>
        obtain ⟨rfl, rfl⟩ := List.cons.inj hes
        rw [width_cons] at hwidth
        exact ⟨before, rfl, by omega⟩
  | case4 e es offset hlt =>
    constructor
    · rintro ⟨⟩
    · rintro ⟨before, hes, hwidth⟩
      cases before with
      | nil => cases hwidth
      | cons e' before =>
        obtain ⟨rfl, rfl⟩ := List.cons.inj hes
        rw [width_cons] at hwidth
        omega

/-- Sequences are cut where it is possible, and only there: `fits es offset n` says that at least
`n` elements follow the offset. -/
def CutsWhere (w : E → Nat) (fits : List E → Nat → Nat → Prop) : Prop :=
  ∀ es offset n, ((behind? w es offset).isSome = true ↔ fits es offset 0) ∧
    ((slice? w es offset n).isSome = true ↔ fits es offset n)

theorem cutsWhere_between (hw : ∀ e, 0 < w e) :
    CutsWhere w fun es offset n =>
      ∃ before after, es = before ++ after ∧ width w before = offset ∧ n ≤ after.length := by
  have hbehind : ∀ es offset n, (∃ rest, behind? w es offset = some rest ∧ n ≤ rest.length) ↔
      ∃ before after, es = before ++ after ∧ width w before = offset ∧ n ≤ after.length := by
    intro es offset n
    constructor
    · rintro ⟨rest, hrest, hn⟩
      obtain ⟨before, hes, hwidth⟩ := (behind?_eq_some_iff hw).1 hrest
      exact ⟨before, rest, hes, hwidth, hn⟩
    · rintro ⟨before, after, hes, hwidth, hn⟩
      exact ⟨after, (behind?_eq_some_iff hw).2 ⟨before, hes, hwidth⟩, hn⟩
  intro es offset n
  refine ⟨Iff.trans ?_ (hbehind es offset 0), Iff.trans ?_ (hbehind es offset n)⟩
  · cases behind? w es offset <;> simp
  · unfold slice?
    cases behind? w es offset <;> simp

theorem behind?_one (es : List E) (offset : Nat) :
    behind? (fun _ => 1) es offset
      = if offset ≤ es.length then some (es.drop offset) else none := by
  induction es generalizing offset with
  | nil =>
    cases offset with
    | zero => rfl
    | succ offset => rfl
  | cons e es ih =>
    cases offset with
    | zero => rfl
    | succ offset =>
      rw [behind?, if_pos (Nat.le_add_left 1 offset), Nat.add_sub_cancel, ih]
      simp only [List.length_cons, Nat.add_le_add_iff_right, List.drop_succ_cons]

theorem slice?_one (es : List E) (offset n : Nat) :
    slice? (fun _ => 1) es offset n
      = if offset + n ≤ es.length then some ((es.drop offset).take n) else none := by
  unfold slice?
  rw [behind?_one]
  by_cases hoffset : offset ≤ es.length
  · simp only [if_pos hoffset, List.length_drop]
    congr 1
    simp only [eq_iff_iff]
    omega
  · rw [if_neg hoffset, if_neg (by omega)]

theorem cutsWhere_one :
    CutsWhere (fun _ : E => 1) fun es offset n => offset + n ≤ es.length := by
  intro es offset n
  rw [behind?_one, slice?_one]
  constructor
  · split <;> simp_all
  · split <;> simp_all

end Sequence

/-! ## Chunks as sequences -/

namespace Answer

variable {T E : Type} [Chunk T E]

/-- The answer, told of sequences. A text is no sequence; faults are all alike. -/
def reply? : Answer T E → Option (Reply E)
  | .stored r chunk => some (.stored r (Chunk.toList chunk))
  | .truth value => some (.truth value)
  | .count value => some (.count value)
  | .element value => some (.element value)
  | .text _ => none
  | .registers chunks => some (.registers (chunks.map fun chunk => chunk.map Chunk.toList))
  | .fault _ => some .refused
  | .nothing => some .nothing
  | .emptyRegister => some .emptyRegister

/-- The answer is what is said of sequences, if anything is. -/
def Meets (answer : Answer T E) (said : Option (Reply E)) : Prop :=
  ∀ reply, said = some reply → answer.reply? = some reply

theorem meets_of_eq {answer : Answer T E} {said : Option (Reply E)} (h : answer.reply? = said) :
    answer.Meets said := fun _ hsaid => h.trans hsaid

theorem Meets.fault_iff {answer : Answer T E} {reply : Reply E} (h : answer.Meets (some reply)) :
    (∃ fault, answer = .fault fault) ↔ reply = .refused := by
  have hreply := h reply rfl
  constructor
  · rintro ⟨fault, rfl⟩
    exact (Option.some.inj hreply).symm
  · rintro rfl
    cases answer with
    | fault fault => exact ⟨fault, rfl⟩
    | _ => cases hreply

end Answer

namespace Machine

variable {T E : Type} [Chunk T E] {m : Machine T} {r : Nat}

def contents (m : Machine T) : Machine (List E) := m.map fun chunk => chunk.map Chunk.toList

theorem read?_contents (m : Machine T) (r : Nat) :
    m.contents.read? r = (m.read? r).map Chunk.toList := by
  unfold contents read?
  rw [Array.getElem?_map]
  cases m[r]? with
  | none => rfl
  | some chunk => rfl

theorem contents_clear (m : Machine T) (r : Nat) : (m.clear r).contents = m.contents.clear r :=
  Array.map_setIfInBounds

theorem contents_push (m : Machine T) (c : T) :
    contents (m.push (some c)) = m.contents.push (some (Chunk.toList c)) :=
  Array.map_push

theorem size_contents (m : Machine T) : m.contents.size = m.size := Array.size_map

/-- A machine of chunks and one of sequences hold the same after an instruction, and the chunks
answer what is said of the sequences. -/
def Refines (values : Machine T × Answer T E)
    (sequences : Machine (List E) × Option (Reply E)) : Prop :=
  values.1.contents = sequences.1 ∧ values.2.Meets sequences.2

theorem refines_store (m : Machine T) (c : T) :
    Refines (m.store c : Machine T × Answer T E) (Sequence.store m.contents (Chunk.toList c)) := by
  refine ⟨contents_push m c, Answer.meets_of_eq ?_⟩
  unfold Sequence.store
  rw [size_contents]
  rfl

theorem refines_ask {answer : T → Answer T E} {reply : List E → Option (Reply E)}
    (h : ∀ c, m.read? r = some c → (answer c).Meets (reply (Chunk.toList c))) :
    Refines (m.ask r answer) (Sequence.ask m.contents r reply) := by
  unfold ask Sequence.ask
  rw [read?_contents]
  refine ⟨rfl, ?_⟩
  cases hread : m.read? r with
  | none => exact Answer.meets_of_eq rfl
  | some c => exact h c hread

theorem refines_derive {op : T → Except Fault T} {plain : List E → Option (List E)}
    (h : ∀ c, m.read? r = some c → (op c).toOption.map Chunk.toList = plain (Chunk.toList c)) :
    Refines (m.derive r op : Machine T × Answer T E) (Sequence.derive m.contents r plain) := by
  unfold derive Sequence.derive
  rw [read?_contents]
  cases hread : m.read? r with
  | none => exact ⟨rfl, Answer.meets_of_eq rfl⟩
  | some c =>
    simp only [Option.map_some, ← h c hread]
    cases op c with
    | error fault => exact ⟨rfl, Answer.meets_of_eq rfl⟩
    | ok d => exact refines_store m d

end Machine

/-! ## Operations on chunks -/

namespace Chunk

variable {T E : Type} [Chunk T E] [LawfulChunk T E] {w : E → Nat}

theorem isEmpty_eq (c : T) : isEmpty c = (toList c).isEmpty := by
  rw [Bool.eq_iff_iff, LawfulChunk.isEmpty_iff, List.isEmpty_iff]

/-- Each element takes as many bytes as `w` says. -/
def Measures (T : Type) {E : Type} [Chunk T E] (w : E → Nat) : Prop :=
  ∀ e : E, widthOf T [e] = w e

theorem Measures.width_eq (hw : Measures T w) (es : List E) :
    Sequence.width w es = widthOf T es := by
  induction es with
  | nil => exact widthOf_nil.symm
  | cons e es ih =>
    rw [Sequence.width_cons, ih, ← hw e, ← widthOf_append, List.singleton_append]

theorem Measures.behind?_iff (hw : Measures T w) {c : T} {offset : Nat} {after : List E} :
    Sequence.behind? w (toList c) offset = some after ↔
      ∃ before, SplitsAt c offset before after := by
  have hpos : ∀ e, 0 < w e := fun e => hw e ▸ widthOf_singleton_pos e
  rw [Sequence.behind?_eq_some_iff hpos]
  simp only [SplitsAt, hw.width_eq]

section

variable [StrictChunk T E]

theorem toOption_head (c : T) : (head c).toOption = (toList c).head? := by
  cases hlist : toList c with
  | nil =>
    obtain ⟨fault, hfault⟩ := StrictChunk.head_of_nil hlist
    rw [hfault]
    rfl
  | cons e es =>
    rw [LawfulChunk.head_of_cons hlist]
    rfl

theorem toOption_tail (c : T) : (tail c).toOption.map toList = (toList c).tail? := by
  cases hlist : toList c with
  | nil =>
    obtain ⟨fault, hfault⟩ := StrictChunk.tail_of_nil hlist
    rw [hfault]
    rfl
  | cons e es =>
    rw [StrictChunk.tail_of_cons hlist]
    exact congrArg some (LawfulChunk.toList_ofList es)

theorem toOption_drop (hw : Measures T w) (c : T) (offset : Nat) :
    (drop c offset).toOption.map toList = Sequence.behind? w (toList c) offset := by
  cases hdrop : drop c offset with
  | ok d => exact (hw.behind?_iff.2 (StrictChunk.splits_of_drop hdrop)).symm
  | error fault =>
    cases hbehind : Sequence.behind? w (toList c) offset with
    | none => rfl
    | some after =>
      obtain ⟨before, hsplit⟩ := hw.behind?_iff.1 hbehind
      rw [LawfulChunk.drop_eq hsplit] at hdrop
      cases hdrop

theorem toOption_substring (hw : Measures T w) {c : T} (hc : width c < Size.max) (offset n : Nat) :
    (substring c offset n).toOption.map toList = Sequence.slice? w (toList c) offset n := by
  unfold Sequence.slice?
  cases hsub : substring c offset n with
  | ok d =>
    obtain ⟨before, after, hsplit, hlength⟩ := StrictChunk.splits_of_substring hsub
    have hle : n ≤ (toList d ++ after).length := by
      rw [List.length_append]
      omega
    simp only [hw.behind?_iff.2 ⟨before, hsplit⟩, if_pos hle, List.take_left' hlength]
    rfl
  | error fault =>
    cases hbehind : Sequence.behind? w (toList c) offset with
    | none => rfl
    | some rest =>
      obtain ⟨before, hsplit⟩ := hw.behind?_iff.1 hbehind
      have hfew : ¬ n ≤ rest.length := by
        intro hle
        rw [LawfulChunk.substring_eq hsplit hc hle] at hsub
        cases hsub
      exact (if_neg hfew).symm

end

end Chunk

/-! ## Steps and runs -/

namespace Machine

variable {T E : Type} [Chunk T E] [LawfulChunk T E] {w : E → Nat} {m : Machine T}

theorem width_lt_of_narrow (hw : Chunk.Measures T w) (h : Sequence.Narrow w m.contents) {r : Nat}
    {c : T} (hread : m.read? r = some c) : Chunk.width c < Size.max := by
  have hentry : m[r]? = some (some c) := Option.join_eq_some_iff.1 hread
  have hrow : some (Chunk.toList c) ∈ m.contents.toList := by
    rw [Array.mem_toList_iff]
    exact Array.mem_map.2 ⟨some c, Array.mem_of_getElem? hentry, rfl⟩
  have hlt : Sequence.width w (Chunk.toList c) < Size.storable := h _ hrow
  rw [hw.width_eq, Chunk.widthOf_toList] at hlt
  exact Nat.lt_trans hlt Size.storable_lt_max

variable [StrictChunk T E] [DecidableEq T] [DecidableEq E]

theorem step_refines (hw : Chunk.Measures T w) (h : Sequence.Narrow w m.contents)
    (i : Instruction T E) : Refines (m.step i) (Sequence.step w m.contents i) := by
  cases i with
  | store c => exact refines_store m c
  | clone r => exact refines_derive fun c _ => rfl
  | forget r => exact ⟨contents_clear m r, Answer.meets_of_eq rfl⟩
  | isEmpty r =>
    refine refines_ask fun c _ => Answer.meets_of_eq ?_
    rw [Chunk.isEmpty_eq]
    rfl
  | length r =>
    refine refines_ask fun c _ => Answer.meets_of_eq ?_
    rw [StrictChunk.length_eq]
    rfl
  | width r =>
    refine refines_ask fun c _ => Answer.meets_of_eq ?_
    rw [hw.width_eq, Chunk.widthOf_toList]
    rfl
  | head r =>
    refine refines_ask fun c _ => Answer.meets_of_eq ?_
    rw [← Chunk.toOption_head]
    cases Chunk.head c with
    | error fault => rfl
    | ok e => rfl
  | tail r => exact refines_derive fun c _ => Chunk.toOption_tail c
  | drop r offset => exact refines_derive fun c _ => Chunk.toOption_drop hw c offset
  | substring r offset n =>
    exact refines_derive fun c hread =>
      Chunk.toOption_substring hw (width_lt_of_narrow hw h hread) offset n
  | lengthAtLeast r offset n =>
    refine refines_ask fun c hread reply hsaid => ?_
    obtain ⟨rest, hbehind, rfl⟩ := Option.map_eq_some_iff.1 hsaid
    obtain ⟨before, hsplit⟩ := hw.behind?_iff.1 hbehind
    rw [LawfulChunk.lengthAtLeast_eq hsplit (width_lt_of_narrow hw h hread)]
    rfl
  | append r s =>
    simp only [step, Sequence.step, ← contents_clear, read?_contents]
    cases m.read? r with
    | none => exact ⟨rfl, Answer.meets_of_eq rfl⟩
    | some c =>
      cases (m.clear r).read? s with
      | none => exact ⟨rfl, Answer.meets_of_eq rfl⟩
      | some d =>
        simp only [Option.map_some, ← LawfulChunk.toList_append]
        exact refines_store (m.clear r) (Chunk.append c d)
  | appendCopy r s =>
    simp only [step, Sequence.step, derive, read?_contents]
    cases m.read? r with
    | none =>
      cases m.read? s with
      | none => exact ⟨rfl, Answer.meets_of_eq rfl⟩
      | some d => exact ⟨rfl, Answer.meets_of_eq rfl⟩
    | some c =>
      cases m.read? s with
      | none => exact ⟨rfl, Answer.meets_of_eq rfl⟩
      | some d =>
        simp only [Option.map_some, ← LawfulChunk.toList_append]
        exact refines_store m (Chunk.append c d)
  | equal r s =>
    simp only [step, Sequence.step, ask, read?_contents]
    cases m.read? r with
    | none =>
      cases m.read? s with
      | none => exact ⟨rfl, Answer.meets_of_eq rfl⟩
      | some d => exact ⟨rfl, Answer.meets_of_eq rfl⟩
    | some c =>
      cases m.read? s with
      | none => exact ⟨rfl, Answer.meets_of_eq rfl⟩
      | some d =>
        have hsame : decide (c = d) = decide (Chunk.toList c = Chunk.toList d) :=
          decide_eq_decide.2 ⟨congrArg _, Chunk.ext_toList⟩
        exact ⟨rfl, Answer.meets_of_eq (congrArg (fun same => some (Reply.truth same)) hsame)⟩
  | literal r | display r | toChar e =>
    refine ⟨rfl, ?_⟩
    rintro reply ⟨⟩
  | all =>
    refine ⟨rfl, Answer.meets_of_eq ?_⟩
    simp only [Sequence.step, contents, Array.toList_map]
    rfl

/-- Chunks hold and answer what sequences do, all through a program. -/
theorem run_refines (hw : Chunk.Measures T w) {program : List (Instruction T E)}
    (h : Sequence.Storable w m.contents program) :
    (m.run program).1.contents = (Sequence.run w m.contents program).1 ∧
      List.Forall₂ Answer.Meets (m.run program).2 (Sequence.run w m.contents program).2 := by
  induction program generalizing m with
  | nil => exact ⟨rfl, .nil⟩
  | cons i program ih =>
    obtain ⟨hnarrow, hlater⟩ := h
    obtain ⟨hcontents, hmeets⟩ := step_refines hw hnarrow i
    rw [← hcontents] at hlater
    obtain ⟨hlast, hanswers⟩ := ih hlater
    simp only [run, Sequence.run, ← hcontents]
    exact ⟨hlast, .cons hmeets hanswers⟩

end Machine

theorem Bytes.measures : Chunk.Measures Bytes fun _ => 1 := fun x => Bytes.widthOf_eq [x]

theorem Text.measures : Chunk.Measures Text Char.utf8Size := fun c => by
  rw [Text.widthOf_eq, Cell.layout_cons, Cell.layout_nil, List.append_nil, Cell.length_spell]

/-- Chunks in shared storage are plain sequences, as far as a program can tell. -/
structure RefinesSequences {T E U : Type} [Chunk T E] [Stored T U] [DecidableEq T] [DecidableEq E]
    (w : E → Nat) (program : List (Instruction T E)) : Prop where
  /-- Where the chunks are stored does not show. -/
  values : (Shared.empty.run program).1.chunks = (Machine.run #[] program).1 ∧
    (Shared.empty.run program).2 = (Machine.run #[] program).2
  /-- In the end the registers hold the same elements. -/
  registers : Machine.contents ((Shared.empty.run program).1.chunks : Machine T)
    = (Sequence.run w #[] program).1
  /-- Every instruction is answered as for sequences. -/
  answers : List.Forall₂ Answer.Meets (Shared.empty.run program).2 (Sequence.run w #[] program).2
  /-- An instruction is a fault exactly if sequences refuse it. -/
  faults : ∀ (k : Nat) (answer : Answer T E) (reply : Reply E),
    (Shared.empty.run program).2[k]? = some answer →
    (Sequence.run w #[] program).2[k]? = some (some reply) →
      ((∃ fault, answer = .fault fault) ↔ reply = .refused)
  /-- An instruction that is a fault changes nothing. -/
  unchanged : ∀ (i : Instruction T E) (fault : Fault),
    ((Shared.empty.run program).1.step i).2 = .fault fault →
      ((Shared.empty.run program).1.step i).1 = (Shared.empty.run program).1

section

variable {T E U : Type} [Chunk T E] [LawfulChunk T E] [StrictChunk T E] [Stored T U]
  [LawfulStored T E U] [DecidableEq T] [DecidableEq E] {w : E → Nat}

theorem refinesSequences (hw : Chunk.Measures T w) {program : List (Instruction T E)}
    (h : Sequence.Storable w #[] program) : RefinesSequences w program := by
  obtain ⟨hmirrors, hanswers⟩ := Shared.run_tracks Shared.mirrors_empty program
  have hempty : Machine.contents (#[] : Machine T) = #[] := Array.map_empty
  rw [← hempty] at h
  obtain ⟨hcontents, hmeets⟩ := Machine.run_refines hw h
  rw [hempty] at hcontents hmeets
  refine ⟨⟨hmirrors.chunks_eq, hanswers⟩, ?_, ?_, ?_, fun i fault => Shared.step_of_fault⟩
  · rw [hmirrors.chunks_eq]
    exact hcontents
  · rw [hanswers]
    exact hmeets
  · intro k answer reply hanswer hreply
    rw [hanswers] at hanswer
    obtain ⟨hk, rfl⟩ := List.getElem?_eq_some_iff.1 hanswer
    obtain ⟨hk', hreply⟩ := List.getElem?_eq_some_iff.1 hreply
    have hmeet := (List.forall₂_iff_get.1 hmeets).2 k hk hk'
    simp only [List.get_eq_getElem, hreply] at hmeet
    exact hmeet.fault_iff

end

/-- Chunks of bytes are lists of bytes, and chunks of text are lists of characters of which each
takes the bytes that its encoding has. Bytes are cut anywhere up to the end, and text between two
characters. -/
theorem chunks_refine_sequences :
    ((∀ program : List (Instruction Bytes UInt8), Sequence.Storable (fun _ => 1) #[] program →
        RefinesSequences (fun _ => 1) program) ∧
      Sequence.CutsWhere (fun _ : UInt8 => 1) fun bs offset n => offset + n ≤ bs.length) ∧
    (∀ program : List (Instruction Text Char), Sequence.Storable Char.utf8Size #[] program →
      RefinesSequences Char.utf8Size program) ∧
    Sequence.CutsWhere Char.utf8Size fun cs offset n => ∃ before after,
      cs = before ++ after ∧ Sequence.width Char.utf8Size before = offset ∧ n ≤ after.length := by
  refine ⟨⟨?_, Sequence.cutsWhere_one⟩, ?_, Sequence.cutsWhere_between Char.utf8Size_pos⟩
  · intro program h
    exact refinesSequences Bytes.measures h
  · intro program h
    exact refinesSequences Text.measures h

/-- Growing a view over what a wider one left behind it, copying under a clone, and refusals. -/
theorem chunks_refine_sequences_overwriting :
    Machine.contents ((Shared.empty.run ([.store (Segment.ofList [1, 2, 3, 4]), .drop 0 1,
      .substring 1 0 2, .forget 0, .forget 1, .store (Segment.ofList [9]), .append 2 3, .clone 4,
      .appendCopy 4 5, .substring 6 5 2] : List (Instruction Bytes UInt8))).1.chunks
        : Machine Bytes)
      = #[none, none, none, some [9], some [2, 3, 9], some [2, 3, 9], some [2, 3, 9, 2, 3, 9]] ∧
    Machine.contents ((Shared.empty.run ([.store (Text.ofList ['é', 'b']), .drop 0 1, .tail 0,
      .substring 0 0 1, .append 1 2] : List (Instruction Text Char))).1.chunks : Machine Text)
      = #[some ['é', 'b'], none, some ['é'], some ['b', 'é']] := by
  constructor
  · exact (chunks_refine_sequences.1.1 _ (by decide +kernel)).registers.trans (by decide +kernel)
  · exact (chunks_refine_sequences.2.1 _ (by decide +kernel)).registers.trans (by decide +kernel)

end Piecemeal

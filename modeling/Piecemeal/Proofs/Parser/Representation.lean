import Piecemeal.Proofs.Parser.Lockstep

/-!
# Bytes or text

A grammar may be written for chunks of bytes or for chunks of text. On ASCII input it makes no
difference: a byte below 128 and the character with its code are both one byte wide, so the two
runs ask for the same offsets and counts and get corresponding answers, although bytes and texts
compute them in different ways.
-/

namespace Piecemeal

/-- Bytes below 128 and the characters with their codes. -/
def ascii : Pairing Bytes Text where
  elements b c := b.toNat < 128 ∧ c.toNat = b.toNat
  widthOf_eq := by
    rintro b c ⟨hb, hc⟩
    have hsize : c.utf8Size = 1 := by
      rw [Char.utf8Size_eq_one_iff, UInt32.le_iff_toNat_le]
      show c.toNat ≤ 127
      omega
    rw [Bytes.widthOf_eq, Text.widthOf_eq, Cell.layout_cons, List.length_append, Cell.length_spell,
      hsize]
    rfl
  skip := 0

/-! ## Grammars for both kinds -/

namespace Pairing

variable {T T' E E' A A' B B' : Type} [Chunk T E] [Chunk T' E'] {pairing : Pairing T T'}

theorem corresponds_satisfy {predicate : E → Bool} {predicate' : E' → Bool}
    (h : ∀ e e', pairing.elements e e' → predicate e = predicate' e') :
    pairing.Corresponds pairing.elements (.satisfy predicate) (.satisfy predicate') := by
  refine .accept ?_
  intro e e' he
  simp only [h e e' he]

theorem corresponds_both {rel : A → A' → Prop} {rel' : B → B' → Prop} {first : Parser T E A}
    {first' : Parser T' E' A'} {second : Parser T E B} {second' : Parser T' E' B'}
    (hfirst : pairing.Corresponds rel first first')
    (hsecond : pairing.Corresponds rel' second second') :
    pairing.Corresponds (fun x x' => rel x.1 x'.1 ∧ rel' x.2 x'.2) (.both first second)
      (.both first' second') :=
  .andThen hfirst fun _ _ ha => .map (fun _ _ hb => ⟨ha, hb⟩) hsecond

theorem corresponds_many1 {rel : A → A' → Prop} {parser : Parser T E A}
    {parser' : Parser T' E' A'} (h : pairing.Corresponds rel parser parser') :
    pairing.Corresponds (List.Forall₂ rel) (.many1 parser) (.many1 parser') :=
  .andThen h fun _ _ ha => .manyAfter (.cons ha .nil) h

end Pairing

/-- The refusals of an element that is not the one expected read the same. -/
theorem corresponds_element {b : UInt8} {c : Char} (h : ascii.elements b c) :
    ascii.Corresponds ascii.elements (.element b) (.element c) := by
  refine .accept ?_
  rintro found found' ⟨hfound, hfound'⟩
  obtain ⟨hb, hc⟩ := h
  have hchar : ∀ {x : UInt8} {y : Char}, y.toNat = x.toNat →
      Chunk.toChar Bytes x = Chunk.toChar Text y := by
    intro x y hxy
    show Char.ofNat x.toNat = y
    rw [← hxy, Char.ofNat_toNat]
  have hsame : found = b ↔ found' = c := by
    rw [← UInt8.toNat_inj, ← Char.toNat_inj, hc, hfound']
  rw [hchar hc, hchar hfound']
  simp only [hsame]

/-! ## Runs on ASCII input -/

namespace Parser

/-- The same grammar, run over bytes and over text on the same ASCII input with the same ASCII
increments: both runs wait, or both have finished alike, and they have logged the same events. -/
theorem parseWith_alike_on_ascii {A A' : Type} {rel : A → A' → Prop} (parser : Parser Bytes UInt8 A)
    (parser' : Parser Text Char A') (same : ascii.Corresponds rel parser parser')
    (closed : parser.Closed) (closed' : parser'.Closed) (input : Bytes) (input' : Text)
    (hinput : ascii.chunks input input') (more : More) (cs : List Bytes) (cs' : List Text)
    (hcs : List.Forall₂ ascii.chunks cs cs')
    (hwidth : Chunk.width input + Chunk.totalWidth cs < Size.storable) :
    ascii.StandAlike rel ((parser.parseWith input more).feedAll cs).status
        ((parser'.parseWith input' more).feedAll cs').status ∧
      ((parser.parseWith input more).feedAll cs).events =
        ((parser'.parseWith input' more).feedAll cs').events := by
  have hstart : ascii.Parallel (State.start input more) cs (State.start input' more) cs' := by
    refine ⟨.start more (by omega), ?_, rfl, rfl, hcs, hwidth⟩
    exact ⟨[], _, [], _, ⟨rfl, Chunk.widthOf_nil⟩, ⟨rfl, Chunk.widthOf_nil⟩, hinput⟩
  obtain ⟨hstatus, hevents⟩ :=
    (Pairing.finishing_runFrom same closed closed' hstart (.inr fun _ _ _ => .inl rfl)).feedAll hcs
  refine ⟨hstatus, ?_⟩
  rw [show ascii.skip = 0 from rfl, funext Event.shifted_zero, List.map_id'] at hevents
  exact hevents

theorem parseWith_alike_on_ascii_digits :
    ascii.StandAlike (fun x x' => List.Forall₂ ascii.elements x.1 x'.1 ∧ ascii.elements x.2 x'.2)
      (((label "number"
          (both (many1 (satisfy fun b => 48 ≤ b.toNat && b.toNat ≤ 57)) (element 59)) :
          Parser Bytes UInt8 (List UInt8 × UInt8)).parseWith (Segment.ofList [49])
          .incomplete).feedAll [Segment.ofList [50, 59], Segment.ofList []]).status
      (((label "number"
          (both (many1 (satisfy fun c => 48 ≤ c.toNat && c.toNat ≤ 57)) (element ';')) :
          Parser Text Char (List Char × Char)).parseWith (Text.ofList ['1'])
          .incomplete).feedAll [Text.ofList ['2', ';'], Text.ofList []]).status := by
  have hdigit : ascii.Corresponds ascii.elements
      (satisfy fun b => 48 ≤ b.toNat && b.toNat ≤ 57)
      (satisfy fun c => 48 ≤ c.toNat && c.toNat ≤ 57) :=
    Pairing.corresponds_satisfy fun b c h => by rw [h.2]
  have hend : ascii.Corresponds ascii.elements (element 59) (element ';') :=
    corresponds_element ⟨by decide, by decide⟩
  exact (parseWith_alike_on_ascii _ _
    (.label "number" (Pairing.corresponds_both (Pairing.corresponds_many1 hdigit) hend))
    (And.intro ⟨trivial, fun _ => trivial⟩ fun _ => trivial)
    (And.intro ⟨trivial, fun _ => trivial⟩ fun _ => trivial)
    (Segment.ofList [49]) (Text.ofList ['1'])
    (Pairing.chunks_ofList (.cons ⟨by decide, by decide⟩ .nil)) .incomplete
    [Segment.ofList [50, 59], Segment.ofList []] [Text.ofList ['2', ';'], Text.ofList []]
    (.cons
      (Pairing.chunks_ofList (.cons ⟨by decide, by decide⟩ (.cons ⟨by decide, by decide⟩ .nil)))
      (.cons (Pairing.chunks_ofList .nil) .nil)) (by decide)).1

end Parser

end Piecemeal

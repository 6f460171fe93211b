import Piecemeal.Chunk.Basic

/-!
# A register machine for chunks

Chunks are built from each other in registers. An instruction that makes a chunk puts it into a new
register; one that uses a chunk up empties the register it came from. A fault changes no register.
-/

namespace Piecemeal

inductive Instruction (T E : Type) where
  /-- Stores a chunk. -/
  | store (chunk : T)
  /-- Stores the chunk of a register again. -/
  | clone (r : Nat)
  /-- Empties a register. -/
  | forget (r : Nat)
  | isEmpty (r : Nat)
  | length (r : Nat)
  | width (r : Nat)
  | head (r : Nat)
  | tail (r : Nat)
  | drop (r offset : Nat)
  | substring (r offset n : Nat)
  | lengthAtLeast (r offset n : Nat)
  /-- Appends the second chunk to the first and uses up the first. -/
  | append (r s : Nat)
  /-- Appends the second chunk to a clone of the first. -/
  | appendCopy (r s : Nat)
  | equal (r s : Nat)
  | literal (r : Nat)
  | display (r : Nat)
  | toChar (element : E)
  /-- Shows all registers. -/
  | all

inductive Answer (T E : Type) where
  /-- A chunk was stored in a register. -/
  | stored (r : Nat) (chunk : T)
  | truth (value : Bool)
  | count (value : Nat)
  | element (value : E)
  | text (value : String)
  | registers (chunks : List (Option T))
  | fault (fault : Fault)
  /-- There is nothing to tell. -/
  | nothing
  /-- A register that the instruction reads holds no chunk. -/
  | emptyRegister

/-- The registers; an emptied one keeps its number. -/
abbrev Machine (T : Type) : Type := Array (Option T)

namespace Machine

variable {T E : Type}

def read? (m : Machine T) (r : Nat) : Option T := (m[r]?).join

def clear (m : Machine T) (r : Nat) : Machine T := m.setIfInBounds r none

def store (m : Machine T) (chunk : T) : Machine T × Answer T E :=
  (m.push (some chunk), .stored m.size chunk)

def ask (m : Machine T) (r : Nat) (answer : T → Answer T E) : Machine T × Answer T E :=
  (m, match m.read? r with
    | some c => answer c
    | none => .emptyRegister)

/-- Stores what an operation makes of the chunk in a register. -/
def derive (m : Machine T) (r : Nat) (op : T → Except Fault T) : Machine T × Answer T E :=
  match m.read? r with
  | some c =>
    match op c with
    | .ok d => m.store d
    | .error fault => (m, .fault fault)
  | none => (m, .emptyRegister)

def answer {A : Type} (value : A → Answer T E) : Except Fault A → Answer T E
  | .ok a => value a
  | .error fault => .fault fault

def step [Chunk T E] [DecidableEq T] (m : Machine T) :
    Instruction T E → Machine T × Answer T E
  | .store chunk => m.store chunk
  | .clone r => m.derive r .ok
  | .forget r => (m.clear r, .nothing)
  | .isEmpty r => m.ask r fun c => .truth (Chunk.isEmpty c)
  | .length r => m.ask r fun c => .count (Chunk.length c)
  | .width r => m.ask r fun c => .count (Chunk.width c)
  | .head r => m.ask r fun c => answer .element (Chunk.head c)
  | .tail r => m.derive r Chunk.tail
  | .drop r offset => m.derive r fun c => Chunk.drop c offset
  | .substring r offset n => m.derive r fun c => Chunk.substring c offset n
  | .lengthAtLeast r offset n => m.ask r fun c => answer .truth (Chunk.lengthAtLeast c offset n)
  | .append r s =>
    match m.read? r, (m.clear r).read? s with
    | some c, some d => (m.clear r).store (Chunk.append c d)
    | _, _ => (m, .emptyRegister)
  | .appendCopy r s =>
    match m.read? s with
    | some d => m.derive r fun c => .ok (Chunk.append c d)
    | none => (m, .emptyRegister)
  | .equal r s =>
    match m.read? s with
    | some d => m.ask r fun c => .truth (c = d)
    | none => (m, .emptyRegister)
  | .literal r => m.ask r fun c => .text (Chunk.literal c)
  | .display r => m.ask r fun c =>
    match Chunk.display? c with
    | some text => .text text
    | none => .nothing
  | .toChar element => (m, .text (Chunk.toChar T element).toString)
  | .all => (m, .registers m.toList)

/-- Carries out instructions in order, and collects their answers. -/
def run [Chunk T E] [DecidableEq T] (m : Machine T) :
    List (Instruction T E) → Machine T × List (Answer T E)
  | [] => (m, [])
  | i :: rest =>
    let (m, first) := m.step i
    let (m, later) := run m rest
    (m, first :: later)

end Machine

end Piecemeal

import Piecemeal.Chunk.Bytes
import Piecemeal.Chunk.Machine
import Piecemeal.Chunk.Text.Basic

/-!
# Chunks over shared storage

The register machine with its chunks where they are stored. A register holds a *view*: a slot of the
store and a stretch of the array in it. Cloning and cutting make a view of the same slot, so many
registers may look into one array, and an array may hold more than any of them shows.

Appending writes behind a view in its own array if no other register looks into the slot, over
whatever was left there; otherwise it copies both parts into a new slot. `Machine` is the same
machine with the chunks as values.
-/

namespace Piecemeal

/-- A chunk type that is stored as sequences of units, one for each byte. -/
class Stored (T : Type) (U : outParam Type) where
  /-- The units of a chunk. -/
  units : T → Segment U
  /-- The chunk that some units spell. -/
  ofUnits : Segment U → T

instance : Stored Bytes UInt8 := ⟨id, id⟩

instance : Stored Text Cell :=
  ⟨Text.cells, fun cells => .ofList (cells.toList.filterMap Cell.char?)⟩

/-- A stretch of the array in a slot. -/
structure View where
  slot : Nat
  /-- The index of the first unit in view. -/
  start : Nat
  /-- The index after the last unit in view. -/
  stop : Nat
  deriving DecidableEq, Repr

namespace View

def isEmpty (v : View) : Bool := v.start == v.stop

/-- The part of a view between two offsets into it. -/
def part (v : View) (first last : Nat) : View := ⟨v.slot, v.start + first, v.start + last⟩

end View

/-- The store, and the registers that look into it. -/
structure Shared (U : Type) where
  store : Array (Array U)
  registers : Machine View

namespace Shared

variable {T E U : Type}

def empty : Shared U := ⟨#[], #[]⟩

def window (m : Shared U) (v : View) : Window U :=
  ((Window.ofArray ((m.store[v.slot]?).getD #[])).take v.stop).drop v.start

def chunk [Stored T U] (m : Shared U) (v : View) : T :=
  Stored.ofUnits (Segment.ofWindow (m.window v))

/-- The chunks that the registers show. -/
def chunks [Stored T U] (m : Shared U) : Machine T := m.registers.map fun v => v.map m.chunk

def clear (m : Shared U) (r : Nat) : Shared U := { m with registers := m.registers.clear r }

/-- Puts units into a new slot, and views all of them. -/
def allocate (m : Shared U) (items : Array U) : Shared U × View :=
  ({ m with store := m.store.push items }, ⟨m.store.size, 0, items.size⟩)

/-- No register looks into the slot. -/
def isUnseen (m : Shared U) (slot : Nat) : Bool :=
  m.registers.all fun v => v.all fun v => v.slot != slot

/-- Writes what `w` shows behind what `v` shows, in the array that `v` looks into. -/
def extend (m : Shared U) (v w : View) : Shared U × View :=
  let grown := (m.window v).grow (m.window w)
  ({ m with store := m.store.setIfInBounds v.slot grown.storage },
    ⟨v.slot, grown.start, grown.stop⟩)

/-- A view of what `v` shows, then what `w` shows, for a `v` that is in no register. -/
def append (m : Shared U) (v w : View) : Shared U × View :=
  if w.isEmpty then (m, v)
  else if v.isEmpty then (m, w)
  else if m.isUnseen v.slot then m.extend v w
  else m.allocate ((m.window v).toArray ++ (m.window w).toArray)

def put [Stored T U] : Shared U × View → Shared U × Answer T E
  | (m, v) =>
    ({ m with registers := m.registers.push (some v) }, .stored m.registers.size (m.chunk v))

/-- Stores the part of a view that an operation makes of its chunk; the part begins at an offset
that the chunk and what is made of it tell. -/
def derive [Chunk T E] [Stored T U] (m : Shared U) (r : Nat) (op : T → Except Fault T)
    (first : T → T → Nat) : Shared U × Answer T E :=
  match m.registers.read? r with
  | some v =>
    match op (m.chunk v) with
    | .ok d =>
      let offset := first (m.chunk v) d
      put (m, v.part offset (offset + Chunk.width d))
    | .error fault => (m, .fault fault)
  | none => (m, .emptyRegister)

/-- Carries out one instruction. One that makes no chunk moves no units, and is answered from the
chunks that the registers show. -/
def step [Chunk T E] [Stored T U] [DecidableEq T] (m : Shared U) :
    Instruction T E → Shared U × Answer T E
  | .store chunk => put (m.allocate (Stored.units chunk).toList.toArray)
  | .clone r => m.derive r .ok fun _ _ => 0
  | .forget r => (m.clear r, .nothing)
  | .tail r => m.derive r Chunk.tail fun c d => Chunk.width c - Chunk.width d
  | .drop r offset => m.derive r (fun c => Chunk.drop c offset) fun _ _ => offset
  | .substring r offset n => m.derive r (fun c => Chunk.substring c offset n) fun _ _ => offset
  | .append r s =>
    match m.registers.read? r, (m.registers.clear r).read? s with
    | some v, some w => put ((m.clear r).append v w)
    | _, _ => (m, .emptyRegister)
  | .appendCopy r s =>
    match m.registers.read? r, m.registers.read? s with
    | some v, some w => put (m.append v w)
    | _, _ => (m, .emptyRegister)
  | i => (m, (Machine.step m.chunks i).2)

def run [Chunk T E] [Stored T U] [DecidableEq T] (m : Shared U) :
    List (Instruction T E) → Shared U × List (Answer T E)
  | [] => (m, [])
  | i :: rest =>
    let (m, first) := m.step i
    let (m, later) := run m rest
    (m, first :: later)

end Shared

end Piecemeal

/-!
# Whether input may still grow

Every run carries a flag that tells whether further increments may follow what is buffered.
Once the input is complete it stays complete, which is what `combine` says.
-/

namespace Piecemeal

/-- Whether further input may follow what is buffered. -/
inductive More where
  /-- Increments may follow. -/
  | incomplete
  /-- The buffer holds all there will be. -/
  | complete
  deriving DecidableEq, Repr, Inhabited

namespace More

def isComplete : More → Bool
  | complete => true
  | incomplete => false

/-- The flag after two reports: complete as soon as one of them is. -/
def combine : More → More → More
  | complete, _ => complete
  | incomplete, m => m

instance : OrOp More := ⟨combine⟩

def literal : More → String
  | complete => "Complete"
  | incomplete => "Incomplete"

@[simp] theorem isComplete_combine (m n : More) :
    (m.combine n).isComplete = (m.isComplete || n.isComplete) := by
  cases m <;> cases n <;> rfl

theorem combine_assoc (l m n : More) : (l.combine m).combine n = l.combine (m.combine n) := by
  cases l <;> rfl

theorem combine_comm (m n : More) : m.combine n = n.combine m := by
  cases m <;> cases n <;> rfl

end More

end Piecemeal

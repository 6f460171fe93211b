/-!
# Sizes

Offsets and counts are natural numbers no larger than `Size.max`, the largest 64-bit word.
Three rules bring a number that may be too large back into range: `saturate` stops at the
bound, `wrap` starts again at zero, and `fits` refuses.
-/

namespace Piecemeal.Size

/-- The largest offset or count. -/
def max : Nat := Nat.pow 2 64 - 1

/-- The number itself, or the largest size if the number is beyond it. -/
def saturate (n : Nat) : Nat := min n max

/-- The number modulo the count of sizes. -/
def wrap (n : Nat) : Nat := n % (max + 1)

def fits (n : Nat) : Bool := n ≤ max

@[simp] theorem fits_iff (n : Nat) : fits n = true ↔ n ≤ max := by simp [fits]

theorem saturate_le (n : Nat) : saturate n ≤ max := Nat.min_le_right _ _

theorem saturate_of_le {n : Nat} (h : n ≤ max) : saturate n = n := Nat.min_eq_left h

theorem saturate_le_self (n : Nat) : saturate n ≤ n := Nat.min_le_left _ _

/-- The difference of two sizes, wrapping below zero. -/
def wrapSub (m n : Nat) : Nat := wrap (m + (max + 1 - n))

end Piecemeal.Size

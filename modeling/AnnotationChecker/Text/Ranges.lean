/-!
# Sets of characters

A property of the Unicode character database is written as the list of its ranges of code points,
both ends included, in ascending order.
-/

namespace AnnotationChecker.Text

/-- A set of code points as ranges, both ends included. -/
abbrev Ranges := List (Nat × Nat)

/-- Is a character in one of the ranges? -/
def Ranges.has (r : Ranges) (c : Char) : Bool := r.any fun p => p.1 ≤ c.toNat && c.toNat ≤ p.2

theorem Ranges.has_iff {r : Ranges} {c : Char} :
    r.has c = true ↔ ∃ p ∈ r, p.1 ≤ c.toNat ∧ c.toNat ≤ p.2 := by
  simp [Ranges.has]

end AnnotationChecker.Text

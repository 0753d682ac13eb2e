/-!
# `Text.Ranges` — sets of code points

A property of characters is given as a list of closed intervals of code points.

## Contents
- `Ranges` and membership (`Ranges.contains`).
-/

namespace Bindery
namespace Text

/-- A set of code points, as closed intervals in increasing order. -/
abbrev Ranges := List (Nat × Nat)

/-- Whether code point `n` lies in one of the intervals. -/
def Ranges.contains (ranges : Ranges) (n : Nat) : Bool :=
  ranges.any fun range => range.1 ≤ n && n ≤ range.2

theorem Ranges.contains_iff {ranges : Ranges} {n : Nat} :
    ranges.contains n = true ↔ ∃ range ∈ ranges, range.1 ≤ n ∧ n ≤ range.2 := by
  simp [contains]

end Text
end Bindery

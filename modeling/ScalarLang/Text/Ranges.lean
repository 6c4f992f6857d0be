/-!
# Ranges of code points

A character class that follows no simple rule is a table of inclusive ranges of code points in
ascending order. Membership reads the table from the left and stops at the first range that
starts beyond the character.
-/

namespace ScalarLang.Text

/-- Whether `n` lies in one of the ranges of an ascending table of inclusive ranges. -/
def inRanges (n : Nat) : List (Nat × Nat) → Bool
  | [] => false
  | (first, last) :: rest => decide (first ≤ n) && (decide (n ≤ last) || inRanges n rest)

end ScalarLang.Text

/-! # Sets of code points

A set of code points is a list of closed ranges in increasing order, which is searched up to the
first range above the code point.
-/

namespace MonkeySyntax.Text

def inRanges (n : Nat) : List (Nat × Nat) → Bool
  | [] => false
  | (low, high) :: ranges => low ≤ n && (n ≤ high || inRanges n ranges)

end MonkeySyntax.Text

/-! # Sets of code points as runs

A set of code points is written as the increasing list of its boundaries: members start at the
first, stop before the second, start again at the third, and so on.
-/

namespace Bookkeeping.Text

/-- Whether `n` lies in the set with the given boundaries: an odd number of them are at most `n`. -/
def inRuns (n : Nat) : List Nat → Bool
  | [] => false
  | b :: rest => if n < b then false else !inRuns n rest

end Bookkeeping.Text

/-! # Sets of characters as sorted ranges

A class of characters fixed by a standard is a list of ranges of code points, in increasing order
and pairwise apart.  Membership walks the list and stops at the first range that lies beyond the
character, so the common characters, which stand at the front, are found at once.
-/

namespace PlZero.Text

/-- Inclusive ranges of code points, in increasing order. -/
abbrev Ranges := List (Nat × Nat)

/-- Whether code point `n` lies in one of the ranges. -/
def Ranges.covers : Ranges → Nat → Bool
  | [], _ => false
  | (lo, hi) :: rest, n => if n < lo then false else n ≤ hi || Ranges.covers rest n

end PlZero.Text

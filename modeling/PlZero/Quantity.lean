/-! # Quantities

A quantity stands where an integer is asked for.  It is a number, or a blank: a limit that is given
without a value is blank, and so is an integer that is cut down to such a limit.  A blank can be
written, but no number is more or less than it.
-/

namespace PlZero

/-- What stands where an integer is asked for. -/
inductive Quantity
  | number (n : Int)
  | blank
deriving DecidableEq, Repr, Inhabited

namespace Quantity

/-- How a quantity is written: a number in decimal, a blank as brackets around nothing. -/
def text : Quantity → String
  | .number n => toString n
  | .blank => "[]"

/-- Whether `n` is at most the quantity, unless that is blank. -/
def allows? : Quantity → Int → Option Bool
  | .number m, n => some (n ≤ m)
  | .blank, _ => none

/-- Only a blank leaves a comparison open. -/
theorem allows?_eq_none_iff {q : Quantity} {n : Int} : q.allows? n = none ↔ q = .blank := by
  cases q <;> simp [allows?]

end Quantity

end PlZero

import PlZero.Quantity

/-! # Limits

What a program may ask of its reader: how great its integers may be, and how deep it may nest.
-/

namespace PlZero

/-- The limits of a parse. -/
structure Limits where
  /-- The greatest integer that is taken without complaint; by default, of 64 bits with a sign. -/
  maxInteger : Quantity := .number 9223372036854775807
  /-- How deep blocks, statements and parentheses may nest, all counted together. -/
  maxNesting : Int := 100
deriving DecidableEq, Repr, Inhabited

end PlZero

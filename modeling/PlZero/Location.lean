/-! # Places in a source text

A `Position` is a point of a text, counted in characters; it moves on character by character.  A
`Location` is what tokens, trees and diagnostics carry: the file, where the thing starts, and, as
far as known, its offset and where it ends.  Tokens may come from elsewhere, so a location makes no
promise about its numbers.
-/

namespace PlZero

/-- A point of a text: line and column from one, offset from zero. -/
structure Position where
  line : Nat
  column : Nat
  offset : Nat
deriving DecidableEq, Repr, Inhabited

namespace Position

/-- The first point of a text. -/
def start : Position := ⟨1, 1, 0⟩

/-- The point after one more character; only a line feed starts a new line. -/
def after (p : Position) (c : Char) : Position :=
  if c = '\n' then ⟨p.line + 1, 1, p.offset + 1⟩ else ⟨p.line, p.column + 1, p.offset + 1⟩

/-- The point after a piece of text. -/
def advance (p : Position) (cs : List Char) : Position := cs.foldl after p

end Position

/-- A place in a named file. -/
structure Location where
  file : String
  line : Int
  column : Int
  offset : Option Int := none
  endLine : Option Int := none
  endColumn : Option Int := none
deriving DecidableEq, Repr, Inhabited

namespace Location

/-- The stretch of `file` from one point to another. -/
def span (file : String) (first past : Position) : Location where
  file := file
  line := first.line
  column := first.column
  offset := some first.offset
  endLine := some past.line
  endColumn := some past.column

/-- A location as messages show it: file, line and column. -/
def text (l : Location) : String :=
  l.file ++ ":" ++ toString l.line ++ ":" ++ toString l.column

end Location

end PlZero

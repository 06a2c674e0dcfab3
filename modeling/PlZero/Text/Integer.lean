import PlZero.Text.Numeral
import PlZero.Text.Quoted

/-! # Integers as text

`readInteger?` accepts what people write for an integer in base ten: blanks around it, a sign, and
digits of any script, two of which may be divided by one underscore.  Nothing else is a number.
`Unreadable` is the complaint about a text that is none.  `readChunks` reads a long text piece by
piece, and `stripZeros` shortens one without changing what it denotes.
-/

namespace PlZero.Text

/-- A text that should have been an integer. -/
structure Unreadable where
  text : String
deriving DecidableEq, Repr

/-- The complaint shows the text in quotes, cut to two hundred characters. -/
def Unreadable.message (u : Unreadable) : String :=
  "invalid literal for int() with base 10: " ++ String.ofList ((quote u.text).toList.take 200)

/-- One character of a number in ASCII: digits of other scripts become ASCII digits and blanks of
other scripts become spaces.  Any other character beyond ASCII has no place in a number. -/
def asciiNumeral? (c : Char) : Option Char :=
  if c.toNat < 127 then some c
  else if wideBlanks.contains c.toNat then some ' '
  else (digitValue? c).map fun d => Char.ofNat ('0'.toNat + d)

/-- The blanks that may stand around a number. -/
def isNumberBlank (c : Char) : Bool :=
  c = ' ' || ('\t' ≤ c && c ≤ '\r')

/-- `cs` without the blanks at either end. -/
def trimBlanks (cs : List Char) : List Char :=
  ((cs.dropWhile isNumberBlank).reverse.dropWhile isNumberBlank).reverse

/-- The value of an ASCII digit. -/
def asciiDigitValue (c : Char) : Nat := c.toNat - '0'.toNat

/-- Reads the digits after the first one into `acc`; an underscore has to be followed by a digit. -/
def readDigits? (acc : Nat) : List Char → Option Nat
  | [] => some acc
  | '_' :: c :: cs =>
    if c.isDigit then readDigits? (10 * acc + asciiDigitValue c) cs else none
  | c :: cs =>
    if c.isDigit then readDigits? (10 * acc + asciiDigitValue c) cs else none

/-- Reads a number without sign, which starts with a digit. -/
def readNatural? : List Char → Option Nat
  | [] => none
  | c :: cs => if c.isDigit then readDigits? (asciiDigitValue c) cs else none

/-- Reads a number with an optional sign. -/
def readSigned? : List Char → Option Int
  | '+' :: cs => (readNatural? cs).map Int.ofNat
  | '-' :: cs => (readNatural? cs).map fun n => -Int.ofNat n
  | cs => (readNatural? cs).map Int.ofNat

/-- The integer that a text denotes, if it denotes one. -/
def readInteger? (cs : List Char) : Option Int :=
  (cs.mapM asciiNumeral?).bind fun ascii => readSigned? (trimBlanks ascii)

/-- The integer that a text denotes, or the complaint that it denotes none. -/
def readInteger (s : String) : Except Unreadable Int :=
  match readInteger? s.toList with
  | some n => .ok n
  | none => .error ⟨s⟩

/-- The number of characters that are read in one piece. -/
def chunkLength : Nat := 1000

/-- Reads `cs` in pieces of `chunkLength` characters, each of them an integer, and puts the pieces
together as digits of one number; `count` bounds the number of pieces. -/
def readPieces (acc : Int) (cs : List Char) : Nat → Except Unreadable Int
  | 0 => .ok acc
  | count + 1 =>
    match cs with
    | [] => .ok acc
    | c :: rest => do
      let piece := (c :: rest).take chunkLength
      let n ← readInteger (String.ofList piece)
      readPieces (acc * 10 ^ piece.length + n) ((c :: rest).drop chunkLength) count

/-- Reads a text of any length piece by piece; the empty text is zero. -/
def readChunks (s : String) : Except Unreadable Int :=
  readPieces 0 s.toList s.toList.length

/-- A text of digits without its leading zeros; nothing is left as a single zero. -/
def stripZeros (s : String) : String :=
  match s.toList.dropWhile (· = '0') with
  | [] => "0"
  | cs => String.ofList cs

end PlZero.Text

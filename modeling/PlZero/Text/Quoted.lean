import PlZero.Text.Printable

/-! # Quoted text

A piece of source text is shown in a message between quotes, on one line, with every character that
is not printable spelled out.  The quotes are single unless the text holds a single quote and no
double one; the enclosing quote and the backslash are preceded by a backslash; tab, line feed and
carriage return have their short forms; every other unprintable character is written by its code
point in the shortest of the forms `\xhh`, `\uhhhh` and `\Uhhhhhhhh`.
-/

namespace PlZero.Text

/-- The lower-case hexadecimal digits of `n`, filled up with zeros to `width`. -/
def hex (width n : Nat) : List Char :=
  let ds := Nat.toDigits 16 n
  List.replicate (width - ds.length) '0' ++ ds

/-- The escape that names an unprintable character by its code point. -/
def codePointEscape (n : Nat) : List Char :=
  if n < 0x100 then '\\' :: 'x' :: hex 2 n
  else if n < 0x10000 then '\\' :: 'u' :: hex 4 n
  else '\\' :: 'U' :: hex 8 n

/-- The spelling of one character inside the given enclosing quote. -/
def escape (enclosing c : Char) : List Char :=
  if c = enclosing || c = '\\' then ['\\', c]
  else if c = '\n' then ['\\', 'n']
  else if c = '\r' then ['\\', 'r']
  else if c = '\t' then ['\\', 't']
  else if isPrintable c then [c]
  else codePointEscape c.toNat

/-- The quote that encloses a text: double only if that saves escaping. -/
def enclosing (cs : List Char) : Char :=
  if cs.contains '\x27' && !cs.contains '\x22' then '\x22' else '\x27'

/-- A text between quotes, on one line and printable. -/
def quote (s : String) : String :=
  let q := enclosing s.toList
  String.ofList (q :: s.toList.flatMap (escape q) ++ [q])

end PlZero.Text

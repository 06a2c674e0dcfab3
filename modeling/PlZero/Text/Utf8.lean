/-! # Strict UTF-8

Bytes are read as UTF-8 without mercy: overlong forms, surrogates and code points beyond U+10FFFF
are refused at the byte that makes them so.  The refusal tells which bytes are at fault: the longest
beginning of a sequence that was right so far.
-/

namespace PlZero.Text.Utf8

/-- What is wrong with a sequence of bytes. -/
inductive Fault
  /-- No character starts with this byte. -/
  | start
  /-- A byte does not continue the character begun. -/
  | continuation
  /-- The bytes end inside a character. -/
  | truncated
deriving DecidableEq, Repr

/-- The words for a fault. -/
def Fault.text : Fault → String
  | .start => "invalid start byte"
  | .continuation => "invalid continuation byte"
  | .truncated => "unexpected end of data"

/-- Bytes that are no UTF-8: the fault, the position of the first byte at fault, that byte, and the
number of bytes at fault. -/
structure Invalid where
  fault : Fault
  position : Nat
  byte : UInt8
  count : Nat
deriving DecidableEq, Repr

/-- A byte in hexadecimal digits. -/
def byteDigits (b : UInt8) : String :=
  let ds := Nat.toDigits 16 b.toNat
  String.ofList (List.replicate (2 - ds.length) '0' ++ ds)

/-- The complaint about invalid bytes. -/
def Invalid.message (i : Invalid) : String :=
  "'utf-8' codec can't decode " ++
  (if i.count ≤ 1 then "byte 0x" ++ byteDigits i.byte ++ " in position " ++ toString i.position
    else "bytes in position " ++ toString i.position ++ "-" ++
      toString (i.position + i.count - 1)) ++
  ": " ++ i.fault.text

/-- What the first byte of a character tells: the first bits of the code point, the number of bytes
that follow, and the range of the first of these. -/
structure Lead where
  bits : Nat
  following : Nat
  low : Nat := 0x80
  high : Nat := 0xBF

/-- Reads the first byte of a character. -/
def lead? (b : UInt8) : Option Lead :=
  let n := b.toNat
  if n < 0x80 then some { bits := n, following := 0 }
  else if n < 0xC2 then none
  else if n < 0xE0 then some { bits := n - 0xC0, following := 1 }
  else if n = 0xE0 then some { bits := 0, following := 2, low := 0xA0 }
  else if n = 0xED then some { bits := 0xD, following := 2, high := 0x9F }
  else if n < 0xF0 then some { bits := n - 0xE0, following := 2 }
  else if n = 0xF0 then some { bits := 0, following := 3, low := 0x90 }
  else if n < 0xF4 then some { bits := n - 0xF0, following := 3 }
  else if n = 0xF4 then some { bits := 4, following := 3, high := 0x8F }
  else none

/-- Reads the bytes that continue a character of which `taken` bytes have been read.  Gives the code
point and the bytes behind it, or the fault and the number of bytes that were right. -/
def follow (low high bits taken : Nat) :
    Nat → List UInt8 → Except (Fault × Nat) (Nat × List UInt8)
  | 0, bs => .ok (bits, bs)
  | _ + 1, [] => .error (.truncated, taken)
  | more + 1, b :: bs =>
    if low ≤ b.toNat && b.toNat ≤ high then
      follow 0x80 0xBF (64 * bits + (b.toNat - 0x80)) (taken + 1) more bs
    else
      .error (.continuation, taken)

/-- Reads at most `bound` characters, the first of which stands at byte `position`. -/
def decodeFrom (position : Nat) : Nat → List UInt8 → Except Invalid (List Char)
  | 0, _ => .ok []
  | _ + 1, [] => .ok []
  | bound + 1, b :: bs =>
    match lead? b with
    | none => .error ⟨.start, position, b, 1⟩
    | some l =>
      match follow l.low l.high l.bits 1 l.following bs with
      | .error (fault, count) => .error ⟨fault, position, b, count⟩
      | .ok (n, rest) => do
        let cs ← decodeFrom (position + 1 + l.following) bound rest
        return Char.ofNat n :: cs

/-- The characters that bytes stand for. -/
def decode (bs : List UInt8) : Except Invalid (List Char) := decodeFrom 0 bs.length bs

end PlZero.Text.Utf8

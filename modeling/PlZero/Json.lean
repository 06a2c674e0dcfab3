/-! # Records

Plain data as it is exchanged with other programs: nothing, integers, text, lists and objects whose
members keep their order.  `Json.text` lays a value out over several lines in ASCII.
-/

namespace PlZero

/-- Plain data. -/
inductive Json
  | null
  | int (value : Int)
  | str (value : String)
  | arr (items : List Json)
  | obj (members : List (String × Json))
deriving Inhabited

namespace Json

/-! ## Equality -/

mutual

/-- Whether two values are the same. -/
def same : Json → Json → Bool
  | .null, .null => true
  | .int a, .int b => a = b
  | .str a, .str b => a = b
  | .arr xs, .arr ys => sameItems xs ys
  | .obj xs, .obj ys => sameMembers xs ys
  | _, _ => false

/-- Whether two lists of values are the same. -/
def sameItems : List Json → List Json → Bool
  | [], [] => true
  | x :: xs, y :: ys => same x y && sameItems xs ys
  | _, _ => false

/-- Whether two lists of members are the same. -/
def sameMembers : List (String × Json) → List (String × Json) → Bool
  | [], [] => true
  | (k, x) :: xs, (l, y) :: ys => k = l && same x y && sameMembers xs ys
  | _, _ => false

end

mutual

theorem same_iff : ∀ a b : Json, same a b = true ↔ a = b
  | .null, b => by cases b <;> simp [same]
  | .int _, b => by cases b <;> simp [same]
  | .str _, b => by cases b <;> simp [same]
  | .arr xs, b => by cases b <;> simp [same, sameItems_iff xs]
  | .obj xs, b => by cases b <;> simp [same, sameMembers_iff xs]

theorem sameItems_iff : ∀ a b : List Json, sameItems a b = true ↔ a = b
  | [], b => by cases b <;> simp [sameItems]
  | x :: xs, b => by cases b <;> simp [sameItems, same_iff x, sameItems_iff xs]

theorem sameMembers_iff : ∀ a b : List (String × Json), sameMembers a b = true ↔ a = b
  | [], b => by cases b <;> simp [sameMembers]
  | (k, x) :: xs, b => by
    cases b with
    | nil => simp [sameMembers]
    | cons y ys => simp [sameMembers, same_iff x, sameMembers_iff xs, Prod.ext_iff]

end

instance : DecidableEq Json := fun a b => decidable_of_iff _ (same_iff a b)

/-! ## Text -/

/-- The four hexadecimal digits of a sixteen-bit unit. -/
def unitDigits (n : Nat) : List Char :=
  let ds := Nat.toDigits 16 n
  List.replicate (4 - ds.length) '0' ++ ds

/-- A sixteen-bit unit as an escape. -/
def unitEscape (n : Nat) : List Char := '\\' :: 'u' :: unitDigits n

/-- One character of a string.  Characters outside printable ASCII are written by their UTF-16
units, of which those beyond the basic plane have two. -/
def escape (c : Char) : List Char :=
  if c = '\x22' then ['\\', c]
  else if c = '\\' then ['\\', c]
  else if c = '\n' then ['\\', 'n']
  else if c = '\r' then ['\\', 'r']
  else if c = '\t' then ['\\', 't']
  else if c = '\x0c' then ['\\', 'f']
  else if c = '\x08' then ['\\', 'b']
  else if ' ' ≤ c && c ≤ '~' then [c]
  else if c.toNat < 0x10000 then unitEscape c.toNat
  else
    let n := c.toNat - 0x10000
    unitEscape (0xD800 + n / 0x400) ++ unitEscape (0xDC00 + n % 0x400)

/-- A string between double quotes. -/
def quoted (s : String) : String :=
  String.ofList ('\x22' :: s.toList.flatMap escape ++ ['\x22'])

/-- Lays out the parts of a list or an object one below the other, two columns further in. -/
def layOut (margin first last : String) (parts : List String) : String :=
  if parts.isEmpty then first ++ last
  else
    let inner := "\n" ++ margin ++ "  "
    first ++ inner ++ ("," ++ inner).intercalate parts ++ "\n" ++ margin ++ last

mutual

/-- The text of a value whose first line starts at `margin`. -/
def textAt (margin : String) : Json → String
  | .null => "null"
  | .int v => toString v
  | .str s => quoted s
  | .arr xs => layOut margin "[" "]" (itemsAt (margin ++ "  ") xs)
  | .obj ms => layOut margin "\x7b" "\x7d" (membersAt (margin ++ "  ") ms)

/-- The texts of the items of a list. -/
def itemsAt (margin : String) : List Json → List String
  | [] => []
  | x :: xs => textAt margin x :: itemsAt margin xs

/-- The texts of the members of an object. -/
def membersAt (margin : String) : List (String × Json) → List String
  | [] => []
  | (k, x) :: ms => (quoted k ++ ": " ++ textAt margin x) :: membersAt margin ms

end

/-- The text of a value. -/
def text (v : Json) : String := v.textAt ""

end Json

end PlZero

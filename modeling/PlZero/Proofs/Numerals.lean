import Mathlib.Data.List.Induction
import PlZero.Parser.Expression
import PlZero.Text.Letter

/-! # Numerals

The digits of an integer token and the number they denote.  A numeral is a row of ASCII digits
without a superfluous zero in front; it is the decimal text of exactly one natural number, and
`Text.readInteger` finds that number.  So the value of a readable token is determined by the lexeme
without its leading zeros, which is what `integerValue_of_repr` says of the parser: it compares
lengths first, and that shortcut never changes the answer.
-/

namespace PlZero

namespace Text

/-- Whether a text is made of ASCII digits only. -/
def IsDigits (s : String) : Prop := ∀ c ∈ s.toList, isDigit c = true

theorem isDigit_eq (c : Char) : isDigit c = c.isDigit := rfl

/-- A row of digits that does not start with a zero, unless it is just that. -/
structure Numeral (cs : List Char) : Prop where
  digits : ∀ c ∈ cs, isDigit c = true
  nonempty : cs ≠ []
  lean : cs.head? = some '0' → cs = ['0']

/-! ## Numerals and natural numbers -/

theorem toNat_of_isDigit {c : Char} (digit : isDigit c = true) : 48 ≤ c.toNat ∧ c.toNat ≤ 57 :=
  Char.isDigit_iff_toNat.mp (isDigit_eq c ▸ digit)

theorem digitChar_of_isDigit {c : Char} (digit : isDigit c = true) :
    Nat.digitChar (c.toNat - 48) = c := by
  obtain ⟨low, high⟩ := toNat_of_isDigit digit
  apply Char.toNat_inj.mp
  rw [Nat.toNat_digitChar_of_lt_ten (by omega)]
  omega

/-- The decimal digits of the number that a numeral denotes are the numeral again. -/
theorem toDigits_ofDigitChars : ∀ (cs : List Char), Numeral cs →
    Nat.toDigits 10 (Nat.ofDigitChars 10 cs 0) = cs := by
  intro cs
  -- from the right, because a number grows by its last digit
  induction cs using List.reverseRecOn with
  | nil => intro numeral; exact absurd rfl numeral.nonempty
  | append_singleton ds d ih =>
    intro numeral
    have digit : isDigit d = true := numeral.digits d (by simp)
    obtain ⟨low, high⟩ := toNat_of_isDigit digit
    have last : Nat.toDigits 10 (d.toNat - 48) = [d] := by
      rw [Nat.toDigits_of_lt_base (by omega), digitChar_of_isDigit digit]
    rw [Nat.ofDigitChars_append, Nat.ofDigitChars_cons, Nat.ofDigitChars_nil]
    cases ds with
    | nil => simpa using last
    | cons e es =>
      have front : Numeral (e :: es) := by
        refine ⟨fun c member => numeral.digits c (List.mem_append_left _ member), by simp, fun zero => ?_⟩
        have whole := numeral.lean (by simpa using zero)
        simp at whole
      have positive : 0 < Nat.ofDigitChars 10 (e :: es) 0 := by
        apply Nat.pos_of_ne_zero
        intro zero
        have same := ih front
        rw [zero, Nat.toDigits_zero] at same
        have whole := numeral.lean (by simp [← (List.cons.inj same).1])
        simp at whole
      have grown := Nat.toDigits_append_toDigits (b := 10) (by decide) positive
        (show d.toNat - 48 < 10 by omega)
      rw [ih front, last] at grown
      exact grown.symm

/-- The decimal text of a natural number is a numeral. -/
theorem numeral_toDigits (n : Nat) : Numeral (Nat.toDigits 10 n) := by
  refine ⟨fun c member => ?_, Nat.toDigits_ne_nil, ?_⟩
  · exact isDigit_eq c ▸ Nat.isDigit_of_mem_toDigits (by decide) (by decide) member
  · induction n using Nat.strongRecOn with
    | ind n ih =>
      by_cases small : n < 10
      · rw [Nat.toDigits_of_lt_base small]
        simp
      · rw [Nat.toDigits_of_base_le (by decide) (by omega)]
        intro zero
        have zero : (Nat.toDigits 10 (n / 10)).head? = some '0' := by
          rw [List.head?_append] at zero
          cases digits : Nat.toDigits 10 (n / 10) with
          | nil => exact absurd digits Nat.toDigits_ne_nil
          | cons c cs => simpa [digits] using zero
        have tenth := congrArg (Nat.ofDigitChars 10 · 0) (ih (n / 10) (by omega) zero)
        simp only [Nat.ofDigitChars_ten_toDigits, Nat.ofDigitChars_cons, Nat.ofDigitChars_nil] at tenth
        exact absurd tenth (by simp; omega)

/-! ## Reading numerals -/

theorem asciiNumeral?_of_isDigit {c : Char} (digit : isDigit c = true) :
    asciiNumeral? c = some c := by
  obtain ⟨low, high⟩ := toNat_of_isDigit digit
  rw [asciiNumeral?, if_pos (by omega)]

theorem mapM_asciiNumeral? {cs : List Char} (digits : ∀ c ∈ cs, isDigit c = true) :
    cs.mapM asciiNumeral? = some cs := by
  induction cs with
  | nil => rfl
  | cons c cs ih =>
    rw [List.mapM_cons, asciiNumeral?_of_isDigit (digits c (by simp)),
      ih fun d member => digits d (by simp [member])]
    rfl

theorem isNumberBlank_of_isDigit {c : Char} (digit : isDigit c = true) :
    isNumberBlank c = false := by
  obtain ⟨low, high⟩ := toNat_of_isDigit digit
  have notSpace : c ≠ ' ' := by
    rintro rfl
    exact absurd low (by decide)
  have above : ¬ c ≤ '\r' := by
    intro below
    have bound : c.toNat ≤ 13 := below
    omega
  simp [isNumberBlank, notSpace, above]

theorem trimBlanks_of_isDigit {cs : List Char} (digits : ∀ c ∈ cs, isDigit c = true) :
    trimBlanks cs = cs := by
  have kept : ∀ ds : List Char, (∀ c ∈ ds, isDigit c = true) → ds.dropWhile isNumberBlank = ds := by
    intro ds digits
    cases ds with
    | nil => rfl
    | cons d ds => simp [isNumberBlank_of_isDigit (digits d (by simp))]
  rw [trimBlanks, kept cs digits, kept cs.reverse fun c member => digits c (by simpa using member),
    List.reverse_reverse]

theorem readDigits?_of_isDigit {cs : List Char} (digits : ∀ c ∈ cs, isDigit c = true) (acc : Nat) :
    readDigits? acc cs = some (Nat.ofDigitChars 10 cs acc) := by
  induction cs generalizing acc with
  | nil => rfl
  | cons c cs ih =>
    have digit : c.isDigit = true := digits c (by simp)
    have plain : c ≠ '_' := by
      rintro rfl
      exact absurd digit (by decide)
    rw [readDigits?, if_pos digit, ih fun d member => digits d (by simp [member]),
      Nat.ofDigitChars_cons]
    · rfl
    · intro d ds underscore
      exact absurd underscore plain

theorem readInteger_of_isDigit {c : Char} {cs : List Char}
    (digits : ∀ d ∈ c :: cs, isDigit d = true) :
    readInteger (String.ofList (c :: cs)) = .ok (Nat.ofDigitChars 10 (c :: cs) 0) := by
  have digit : c.isDigit = true := digits c (by simp)
  have signed : readSigned? (c :: cs) = (readNatural? (c :: cs)).map Int.ofNat := by
    rw [readSigned?]
    · intro ds plus
      obtain ⟨rfl, _⟩ := List.cons.inj plus
      exact absurd digit (by decide)
    · intro ds minus
      obtain ⟨rfl, _⟩ := List.cons.inj minus
      exact absurd digit (by decide)
  have natural : readNatural? (c :: cs) = some (Nat.ofDigitChars 10 (c :: cs) 0) := by
    rw [readNatural?, if_pos digit, readDigits?_of_isDigit fun d member => digits d (by simp [member]),
      Nat.ofDigitChars_cons, Nat.mul_zero, Nat.zero_add]
    rfl
  simp only [readInteger, readInteger?, String.toList_ofList, mapM_asciiNumeral? digits,
    Option.bind_some, trimBlanks_of_isDigit digits, signed, natural, Option.map_some]
  rfl

/-! ## Long texts -/

/-- What the pieces of a row of digits come to is what the row comes to. -/
theorem readPieces_of_isDigit {cs : List Char} (digits : ∀ c ∈ cs, isDigit c = true) (acc : Nat)
    {count : Nat} (enough : cs.length ≤ count) :
    readPieces acc cs count = .ok ((Nat.ofDigitChars 10 cs acc : Nat) : Int) := by
  induction count generalizing cs acc with
  | zero =>
    obtain rfl := List.length_eq_zero_iff.mp (Nat.le_zero.mp enough)
    rfl
  | succ count ih =>
    cases cs with
    | nil => rfl
    | cons c cs =>
      -- the first piece is at least one character long, so fewer pieces are left than before
      have front : (c :: cs).take chunkLength = c :: cs.take 999 := rfl
      have whole : Nat.ofDigitChars 10 (c :: cs) acc =
          Nat.ofDigitChars 10 (cs.drop 999) (Nat.ofDigitChars 10 (c :: cs.take 999) acc) := by
        rw [← Nat.ofDigitChars_append, List.cons_append, List.take_append_drop]
      have piece : readInteger (String.ofList (c :: cs.take 999)) = _ :=
        readInteger_of_isDigit fun d member => digits d (List.mem_of_mem_take (front ▸ member))
      have value : (acc : Int) * 10 ^ (c :: cs.take 999).length +
          (Nat.ofDigitChars 10 (c :: cs.take 999) 0 : Nat) =
          (Nat.ofDigitChars 10 (c :: cs.take 999) acc : Nat) := by
        rw [@Nat.ofDigitChars_eq_ofDigitChars_zero _ acc]
        push_cast
        rw [Int.mul_comm]
      change (readInteger (String.ofList (c :: cs.take 999)) >>= fun n =>
        readPieces (acc * 10 ^ (c :: cs.take 999).length + n) (cs.drop 999) count) = _
      rw [piece]
      show readPieces _ _ count = _
      rw [value, whole]
      apply ih
      · intro d member
        exact digits d (List.mem_cons_of_mem _ (List.mem_of_mem_drop member))
      · simp only [List.length_cons, List.length_drop] at enough ⊢
        omega

theorem readChunks_of_isDigits {s : String} (digits : IsDigits s) :
    readChunks s = .ok ((Nat.ofDigitChars 10 s.toList 0 : Nat) : Int) :=
  readPieces_of_isDigit digits 0 (Nat.le_refl _)

/-! ## Leading zeros -/

/-- What is left of a row of digits without its leading zeros is a numeral. -/
theorem numeral_stripZeros {s : String} (digits : IsDigits s) : Numeral (stripZeros s).toList := by
  unfold stripZeros
  split
  · exact ⟨by simp [isDigit], by simp, by simp⟩
  · rename_i stripped
    rw [String.toList_ofList]
    refine ⟨fun c member => ?_, stripped, fun zero => ?_⟩
    · exact digits c ((List.dropWhile_suffix _).subset member)
    · have first := List.head?_dropWhile_not (fun c : Char => decide (c = '0')) s.toList
      rw [zero] at first
      simp at first

/-- Leading zeros are digits too. -/
theorem isDigits_of_stripZeros {s : String} (digits : IsDigits (stripZeros s)) : IsDigits s := by
  intro c member
  rw [← List.takeWhile_append_dropWhile (p := fun c : Char => decide (c = '0')) (l := s.toList)] at member
  rcases List.mem_append.mp member with leading | behind
  · have zero := List.all_eq_true.mp List.all_takeWhile c leading
    rw [of_decide_eq_true zero]
    rfl
  · unfold stripZeros at digits
    split at digits
    · rename_i stripped
      rw [stripped] at behind
      cases behind
    · exact digits c (by simpa using behind)

/-- A numeral has no leading zero to be taken away. -/
theorem stripZeros_ofList {cs : List Char} (numeral : Numeral cs) :
    stripZeros (String.ofList cs) = String.ofList cs := by
  cases cs with
  | nil => exact absurd rfl numeral.nonempty
  | cons c cs =>
    by_cases zero : c = '0'
    · have whole := numeral.lean (by simp [zero])
      rw [whole]
      rfl
    · simp [stripZeros, zero]

/-- The digits of a text denote a natural number, whose decimal text they are but for leading
zeros. -/
theorem readInteger_stripZeros {s : String} (digits : IsDigits s) :
    ∃ n : Nat, readInteger (stripZeros s) = .ok (n : Int) ∧ n.repr = stripZeros s := by
  have numeral := numeral_stripZeros digits
  have same : stripZeros s = String.ofList (stripZeros s).toList := by simp
  cases stripped : (stripZeros s).toList with
  | nil => exact absurd stripped numeral.nonempty
  | cons c cs =>
    rw [stripped] at numeral same
    refine ⟨Nat.ofDigitChars 10 (c :: cs) 0, ?_, ?_⟩
    · rw [same]
      exact readInteger_of_isDigit numeral.digits
    · rw [Nat.repr_eq_ofList_toDigits, toDigits_ofDigitChars _ numeral, same]

theorem ofDigitChars_dropWhile (cs : List Char) :
    Nat.ofDigitChars 10 (cs.dropWhile (· = '0')) 0 = Nat.ofDigitChars 10 cs 0 := by
  induction cs with
  | nil => rfl
  | cons c cs ih =>
    by_cases zero : c = '0'
    · rw [List.dropWhile_cons_of_pos (by simpa using zero), ih, Nat.ofDigitChars_cons, zero]
      rfl
    · rw [List.dropWhile_cons_of_neg (by simpa using zero)]

theorem ofDigitChars_stripZeros (s : String) :
    Nat.ofDigitChars 10 (stripZeros s).toList 0 = Nat.ofDigitChars 10 s.toList 0 := by
  rw [← ofDigitChars_dropWhile s.toList, stripZeros]
  cases s.toList.dropWhile (· = '0') with
  | nil => rfl
  | cons c cs => simp

/-- The decimal text of the number that digits denote has the same digits, but for leading zeros. -/
theorem repr_ofDigitChars {s : String} (digits : IsDigits s) :
    (Nat.ofDigitChars 10 s.toList 0).repr = stripZeros s := by
  rw [← ofDigitChars_stripZeros, Nat.repr_eq_ofList_toDigits,
    toDigits_ofDigitChars _ (numeral_stripZeros digits), String.ofList_toList]

/-- The decimal text of a natural number has no leading zeros. -/
theorem stripZeros_repr (n : Nat) : stripZeros n.repr = n.repr := by
  rw [Nat.repr_eq_ofList_toDigits]
  exact stripZeros_ofList (numeral_toDigits n)

theorem stripZeros_stripZeros {s : String} (digits : IsDigits s) :
    stripZeros (stripZeros s) = stripZeros s := by
  obtain ⟨n, _, text⟩ := readInteger_stripZeros digits
  rw [← text, stripZeros_repr]

theorem isDigits_repr (n : Nat) : IsDigits n.repr := by
  intro c member
  rw [Nat.toList_repr] at member
  exact (numeral_toDigits n).digits c member

theorem toList_repr_ne_nil (n : Nat) : n.repr.toList ≠ [] := by
  rw [Nat.toList_repr]
  exact (numeral_toDigits n).nonempty

theorem repr_injective {m n : Nat} (same : m.repr = n.repr) : m = n := by
  have digits := congrArg (fun s => Nat.ofDigitChars 10 s.toList 0) same
  simpa using digits

theorem readInteger_repr (n : Nat) : readInteger n.repr = .ok (n : Int) := by
  obtain ⟨m, read, text⟩ := readInteger_stripZeros (isDigits_repr n)
  rw [stripZeros_repr] at read text
  rw [read, repr_injective text]

end Text

/-! ## Numbers as quantities -/

namespace Quantity

theorem text_natCast (n : Nat) : (number n).text = n.repr := rfl

/-- A number that is not negative has no more digits than a greater one. -/
theorem length_text_le {n : Nat} {limit : Int} (le : (n : Int) ≤ limit) :
    n.repr.length ≤ (number limit).text.length := by
  obtain ⟨m, rfl⟩ := Int.eq_ofNat_of_zero_le (show 0 ≤ limit by omega)
  rw [text_natCast, Nat.length_repr_le_iff Nat.length_repr_pos]
  have bound : m < 10 ^ m.repr.length := (Nat.length_repr_le_iff Nat.length_repr_pos).mp (Nat.le_refl _)
  omega

end Quantity

/-! ## Integer tokens -/

/-- Whether the lexeme of a token can be read, if it has to be: that of an integer is made of
digits. -/
def Token.Readable (t : Token) : Prop := t.kind = .integer → Text.IsDigits t.lexeme

/-- The payload of a readable integer is the number that the parser compares with its limit. -/
theorem Token.Readable.value_eq {t : Token} (readable : t.Readable) (integer : t.kind = .integer) :
    ∃ n : Nat, t.value = .ok (.number n) ∧ Text.stripZeros t.lexeme = n.repr := by
  refine ⟨Nat.ofDigitChars 10 t.lexeme.toList 0, ?_, (Text.repr_ofDigitChars (readable integer)).symm⟩
  rw [Token.value, integer]
  simp only [Text.readChunks_of_isDigits (readable integer)]
  rfl

namespace Parser

/-- The value of an integer token whose lexeme is the decimal text of a natural number, but for
leading zeros: it is that number, or the limit if the number is greater. -/
theorem integerValue_of_repr {cx : Context} {limit : Int}
    (limited : cx.limits.maxInteger = .number limit) {t : Token} {n : Nat}
    (text : Text.stripZeros t.lexeme = n.repr) :
    integerValue cx t = if (n : Int) ≤ limit then pure (.number n) else saturate cx t := by
  simp only [integerValue, limited, text, Text.readInteger_repr, Quantity.allows?]
  by_cases le : (n : Int) ≤ limit
  · have short := Quantity.length_text_le le
    simp only [if_pos le, decide_eq_true le, if_neg (Nat.not_lt.mpr short)]
  · simp only [if_neg le, decide_eq_false le]
    split
    · rfl
    · rfl

/-- The complaint about the integer token `t`, whose number is `n`, if that is beyond the limit. -/
def excess (limit : Int) (t : Token) (n : Nat) : List Diagnostic :=
  if (n : Int) ≤ limit then [] else [Complaint.tooLarge (.number limit) t]

/-- An integer token stands for the lesser of its number and the limit. -/
theorem integerValue_apply {cx : Context} {limit : Int}
    (limited : cx.limits.maxInteger = .number limit) {t : Token} {n : Nat}
    (text : Text.stripZeros t.lexeme = n.repr) (r : List Token) (depth : Nat) (log : Log) :
    integerValue cx t ⟨r, depth, log⟩ =
      .ok (.number (min n limit)) ⟨r, depth, ⟨log.entries ++ excess limit t n⟩⟩ := by
  rw [integerValue_of_repr limited text, excess]
  by_cases le : (n : Int) ≤ limit
  · rw [if_pos le, if_pos le, Int.min_eq_left le, List.append_nil]
    rfl
  · rw [if_neg le, if_neg le, Int.min_eq_right (by omega), saturate, limited]
    rfl

end Parser

end PlZero

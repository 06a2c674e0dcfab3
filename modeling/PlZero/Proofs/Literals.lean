import Mathlib.Data.Nat.Digits.Defs
import PlZero.Proofs.Grammar
import PlZero.Proofs.Numerals

/-! # The readings of an integer literal

An integer token is read in three ways.  Its payload is put together from pieces of the lexeme, a listing
shows the lexeme without leading zeros, and the parser looks at the number of digits before it looks at
the number.  None of the three adds up digits by their positions, which is what a decimal numeral means
(`Text.decimal`); the readings agree because they all come to that number.
-/

namespace PlZero

namespace Text

/-- The number that digits denote: the last of them counts ones, the one before it tens, and so on.
No digits denote zero. -/
def decimal (s : String) : Nat := Nat.ofDigits 10 (s.toList.reverse.map asciiDigitValue)

/-- Reading digits from the left comes to the number that they denote by position. -/
theorem decimal_eq_ofDigitChars (s : String) : decimal s = Nat.ofDigitChars 10 s.toList 0 := by
  rw [decimal]
  -- from the right, where both sides gain a digit for the ones and all others move up
  induction s.toList using List.reverseRecOn with
  | nil => rfl
  | append_singleton cs c ih =>
    rw [Nat.ofDigitChars_append, Nat.ofDigitChars_cons, Nat.ofDigitChars_nil, ← ih,
      List.reverse_append, List.reverse_singleton, List.singleton_append, List.map_cons,
      Nat.ofDigits_cons, Nat.add_comm]
    rfl

theorem readChunks_eq_decimal {s : String} (digits : IsDigits s) : readChunks s = .ok (decimal s : Int) := by
  rw [readChunks_of_isDigits digits, decimal_eq_ofDigitChars]

/-- Without its leading zeros, a row of digits is the decimal text of the number that it denotes. -/
theorem stripZeros_eq_repr_decimal {s : String} (digits : IsDigits s) : stripZeros s = (decimal s).repr := by
  rw [decimal_eq_ofDigitChars, repr_ofDigitChars digits]

/-- A one with zeros in front of it and behind it. -/
def powerOfTen (m n : Nat) : String := String.ofList (List.replicate m '0' ++ '1' :: List.replicate n '0')

theorem isDigits_powerOfTen (m n : Nat) : IsDigits (powerOfTen m n) := by
  intro c member
  rw [powerOfTen, String.toList_ofList, List.mem_append, List.mem_cons, List.mem_replicate,
    List.mem_replicate] at member
  rcases member with ⟨-, rfl⟩ | rfl | ⟨-, rfl⟩
  · rfl
  · rfl
  · rfl

theorem decimal_powerOfTen (m n : Nat) : decimal (powerOfTen m n) = 10 ^ n := by
  have zero : asciiDigitValue '0' = 0 := rfl
  have one : asciiDigitValue '1' = 1 := rfl
  rw [decimal, powerOfTen, String.toList_ofList]
  simp only [List.reverse_append, List.reverse_cons, List.reverse_replicate, List.map_append,
    List.map_replicate, List.map_cons, List.map_nil, zero, one]
  rw [Nat.ofDigits_append_replicate_zero, Nat.ofDigits_append, Nat.ofDigits_replicate_zero,
    List.length_replicate, Nat.ofDigits_singleton, Nat.zero_add, Nat.mul_one]

end Text

open PlZero.Parser in
/-- The three readings of an integer token.  The payload is the number that the digits denote, the listing
shows the decimal text of that number, and the parser takes the lesser of the number and its limit, with one
error if the number is greater and none otherwise. -/
theorem Token.readings_agree (d : String) (digits : Text.IsDigits d) (loc endLoc : Location)
    (limit nesting : Int) (rest : List Token) (depth : Nat) (log : Log) :
    let t : Token := ⟨.integer, d, loc⟩
    let n := Text.decimal d
    t.value = .ok (.number n) ∧
    t.listing = "IntegerLiteral: " ++ toString n ∧
    ∃ report, integerValue ⟨⟨.number limit, nesting⟩, endLoc⟩ t ⟨rest, depth, log⟩ =
        .ok (.number (min n limit)) ⟨rest, depth, ⟨log.entries ++ report⟩⟩ ∧
      ((n : Int) ≤ limit → report = []) ∧
      (limit < n → ∃ e, report = [e] ∧ e.isError = true ∧ e.recovery = some .saturated ∧
        e.loc = some loc) := by
  intro t n
  have text : Text.stripZeros t.lexeme = n.repr := Text.stripZeros_eq_repr_decimal digits
  refine ⟨?_, ?_, excess limit t n, integerValue_apply rfl text rest depth log, ?_, ?_⟩
  · show Payload.number <$> Text.readChunks d = _
    rw [Text.readChunks_eq_decimal digits]
    rfl
  · show "IntegerLiteral" ++ ": " ++ Text.stripZeros t.lexeme = _
    rw [text]
    rfl
  · intro within
    exact if_pos within
  · intro beyond
    have reported : excess limit t n = [Complaint.tooLarge (.number limit) t] := if_neg (by omega)
    exact ⟨_, reported, rfl, rfl, rfl⟩

/-- A zero, a one and a thousand zeros, which are read in two pieces, under a limit below zero. -/
theorem Token.readings_agree_across_pieces :
    let d := Text.powerOfTen 1 1000
    let t : Token := ⟨.integer, d, .nowhere⟩
    Text.IsDigits d ∧
    t.value = .ok (.number (10 ^ 1000 : Nat)) ∧
    t.listing = "IntegerLiteral: " ++ toString (10 ^ 1000 : Nat) ∧
    ∃ e, e.recovery = some .saturated ∧
      Parser.integerValue ⟨⟨.number (-5), 0⟩, .nowhere⟩ t ⟨[t], 0, {}⟩ =
        .ok (.number (-5)) ⟨[t], 0, ⟨[e]⟩⟩ := by
  intro d t
  have digits : Text.IsDigits d := Text.isDigits_powerOfTen 1 1000
  obtain ⟨value, listing, report, run, -, beyond⟩ :=
    Token.readings_agree d digits .nowhere .nowhere (-5) 0 [t] 0 {}
  rw [Text.decimal_powerOfTen] at value listing run beyond
  obtain ⟨e, rfl, -, saturated, -⟩ := beyond (by omega)
  refine ⟨digits, value, listing, e, saturated, ?_⟩
  rw [run, Int.min_eq_right (by omega)]
  rfl

end PlZero

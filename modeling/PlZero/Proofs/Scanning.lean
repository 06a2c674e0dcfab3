import PlZero.Proofs.Lexing.Vocabulary
import PlZero.Proofs.Numerals

/-! # Tokens that come from a text

Two facts about the tokens of a text that tokens made by hand need not have: the lexeme of an integer
is made of digits, and no two tokens stand at the same place.  Both follow by `Scanner.scan`, the
induction that goes with reading a text token by token.
-/

namespace PlZero

/-! ## Positions -/

theorem Position.offset_advance (p : Position) (cs : List Char) :
    (p.advance cs).offset = p.offset + cs.length := by
  induction cs generalizing p with
  | nil => rfl
  | cons c cs ih =>
    have next : (p.after c).offset = p.offset + 1 := by
      unfold Position.after
      split <;> rfl
    show ((p.after c).advance cs).offset = _
    rw [ih, next, List.length_cons]
    omega

/-! ## Reading token by token -/

namespace Scanner

/-- What holds at the end of a text, and before a token if it holds behind it, holds everywhere. -/
theorem scan {P : Scanner → Prop} (done : ∀ s, s.next? = none → P s)
    (token : ∀ s t s', s.next? = some (t, s') → P s' → P s) (s : Scanner) : P s := by
  -- on what is left of the text, because every token takes a character of it
  induction left : s.rest.length using Nat.strongRecOn generalizing s with
  | ind n ih =>
    subst left
    cases reading : s.next? with
    | none => exact done s reading
    | some p => exact token s p.1 p.2 reading (ih _ (length_rest_of_next? reading) p.2 rfl)

theorem tokens_of_none {s : Scanner} (ended : s.next? = none) : s.tokens = [] := by
  rw [tokens_eq, ended]

theorem tokens_of_some {s s' : Scanner} {t : Token} (reading : s.next? = some (t, s')) :
    s.tokens = t :: s'.tokens := by
  rw [tokens_eq, reading]

/-- A token is the first word behind the blanks. -/
theorem next?_eq_some {s s' : Scanner} {t : Token} (reading : s.next? = some (t, s')) :
    ∃ c cs, s.skipBlanks.rest = c :: cs ∧ s.skipBlanks.word c cs = (t, s') := by
  unfold next? at reading
  simp only at reading
  split at reading
  · cases reading
  · exact ⟨_, _, ‹_›, Option.some.inj reading⟩

/-! ## Integers -/

theorem isDigits_first {c : Char} {cs : List Char} (integer : (Lexeme.first c cs).kind = .integer) :
    Text.IsDigits (String.ofList (Lexeme.first c cs).chars) := by
  have first := Lexeme.firstWord_first c cs
  rw [integer] at first
  cases first with
  | known word _ =>
    cases word with
    | integer _ digits =>
      intro d member
      rw [String.toList_ofList] at member
      exact digits d member

theorem readable_of_mem_tokens (s : Scanner) : ∀ t ∈ s.tokens, t.Readable := by
  induction s using scan with
  | done s ended => simp [tokens_of_none ended]
  | token s t s' reading ih =>
    obtain ⟨c, cs, _, word⟩ := next?_eq_some reading
    obtain ⟨rfl, _⟩ := Prod.mk.inj word
    rw [tokens_of_some reading]
    intro t' member
    rcases List.mem_cons.mp member with rfl | behind
    · exact fun integer => isDigits_first integer
    · exact ih t' behind

/-! ## Places -/

/-- A token starts at or behind the place where it was looked for, and reading goes on behind it. -/
theorem offset_of_next? {s s' : Scanner} {t : Token} (reading : s.next? = some (t, s')) :
    ∃ n : Nat, t.loc.offset = some (n : Int) ∧ s.pos.offset ≤ n ∧ n < s'.pos.offset := by
  obtain ⟨c, cs, _, word⟩ := next?_eq_some reading
  obtain ⟨rfl, rfl⟩ := Prod.mk.inj word
  refine ⟨s.skipBlanks.pos.offset, rfl, ?_, ?_⟩
  · rw [skipBlanks, Position.offset_advance]
    omega
  · have some_char := List.length_pos_iff.mpr (Lexeme.first_chars_ne_nil c cs)
    show _ < (s.skipBlanks.pos.advance _).offset
    rw [Position.offset_advance]
    omega

theorem le_offset_of_mem_tokens (s : Scanner) :
    ∀ t ∈ s.tokens, ∃ n : Nat, t.loc.offset = some (n : Int) ∧ s.pos.offset ≤ n := by
  induction s using scan with
  | done s ended => simp [tokens_of_none ended]
  | token s t s' reading ih =>
    obtain ⟨n, offset, low, high⟩ := offset_of_next? reading
    rw [tokens_of_some reading]
    intro t' member
    rcases List.mem_cons.mp member with rfl | behind
    · exact ⟨n, offset, low⟩
    · obtain ⟨m, offset', low'⟩ := ih t' behind
      exact ⟨m, offset', by omega⟩

/-- No two tokens stand at the same place. -/
theorem nodup_loc_tokens (s : Scanner) : (s.tokens.map Token.loc).Nodup := by
  induction s using scan with
  | done s ended => simp [tokens_of_none ended]
  | token s t s' reading ih =>
    obtain ⟨n, offset, _, high⟩ := offset_of_next? reading
    rw [tokens_of_some reading, List.map_cons, List.nodup_cons]
    refine ⟨fun member => ?_, ih⟩
    obtain ⟨t', behind, same⟩ := List.mem_map.mp member
    obtain ⟨m, offset', low⟩ := le_offset_of_mem_tokens s' t' behind
    rw [same, offset, Option.some.injEq] at offset'
    omega

end Scanner

end PlZero

import PlZero.Token.Scanner

/-! # The vocabulary, and the first word of a text

What the words of the language are, said without a scanner: runs of digits, names, and the operators
and delimiters that are listed.  `FirstWord` is the rule by which a text is divided, the longest word
first.  It leaves no choice (`FirstWord.unique`), and it is what `Lexeme.first` does
(`Lexeme.firstWord_first`).

The scanner knows symbols by tables of its own, one entry per character.  `symbolKind_eq` and
`isPair_iff` say that these agree with the lists.  Of letters only one fact is needed: blanks, digits
and symbols are none of them.
-/

namespace PlZero

/-- `Vocabulary kind w`: the characters `w` are a word of that kind. -/
inductive Vocabulary : Token.Kind → List Char → Prop
  | integer {w : List Char} : w ≠ [] → (∀ c ∈ w, Text.isDigit c = true) → Vocabulary .integer w
  | keyword {c : Char} {cs : List Char} : Text.isLetter c = true →
      (∀ d ∈ cs, Text.isLetter d = true ∨ Text.isDigit d = true) →
      String.ofList (c :: cs) ∈ keywords → Vocabulary .keyword (c :: cs)
  | identifier {c : Char} {cs : List Char} : Text.isLetter c = true →
      (∀ d ∈ cs, Text.isLetter d = true ∨ Text.isDigit d = true) →
      String.ofList (c :: cs) ∉ keywords → Vocabulary .identifier (c :: cs)
  | operator {w : List Char} : String.ofList w ∈ operators → Vocabulary .operator w
  | delimiter {w : List Char} : String.ofList w ∈ delimiters → Vocabulary .delimiter w

/-- `FirstWord kind w rest`: the text `w ++ rest` has `w` as its first word, of the given kind.  It is
the longest word at the front, or a character that starts no word. -/
inductive FirstWord : Token.Kind → List Char → List Char → Prop
  | known {kind : Token.Kind} {w rest : List Char} : Vocabulary kind w →
      (∀ kind' w', Vocabulary kind' w' → w' <+: w ++ rest → w'.length ≤ w.length) →
      FirstWord kind w rest
  | stranger {c : Char} {rest : List Char} :
      (∀ kind w, Vocabulary kind w → ¬ w <+: c :: rest) → FirstWord .unknown [c] rest

/-! ## Classes of characters -/

theorem Text.Ranges.covers_of_lt {lo hi n : Nat} {ranges : Text.Ranges} (below : n < lo) :
    Text.Ranges.covers ((lo, hi) :: ranges) n = false := by
  simp [Text.Ranges.covers, below]

/-- The letters start with `A`. -/
theorem Text.isLetter_eq_false_of_lt {c : Char} (below : c.toNat < 0x41) : Text.isLetter c = false :=
  Text.Ranges.covers_of_lt below

theorem Text.isLetter_eq_false_of_isDigit {c : Char} (digit : Text.isDigit c = true) :
    Text.isLetter c = false := by
  simp only [Text.isDigit, Bool.and_eq_true, decide_eq_true_eq] at digit
  have high : c.toNat ≤ '9'.toNat := digit.2
  apply Text.isLetter_eq_false_of_lt
  have nine : '9'.toNat = 0x39 := rfl
  omega

/-- The characters that operators and delimiters are made of. -/
def specials : List Char := [':', '<', '>', '+', '-', '*', '/', '=', ',', '.', ';', '(', ')']

theorem not_isLetter_of_mem_specials {c : Char} (special : c ∈ specials) : Text.isLetter c = false := by
  have low : specials.all (fun c => c.toNat < 0x41) = true := by decide
  apply Text.isLetter_eq_false_of_lt
  exact of_decide_eq_true (List.all_eq_true.mp low c special)

theorem not_isDigit_of_mem_specials {c : Char} (special : c ∈ specials) : Text.isDigit c = false := by
  have others : specials.all (fun c => Text.isDigit c = false) = true := by decide
  exact of_decide_eq_true (List.all_eq_true.mp others c special)

theorem isNameChar_iff {c : Char} :
    isNameChar c = true ↔ Text.isLetter c = true ∨ Text.isDigit c = true := by
  simp [isNameChar]

/-! ## Operators and delimiters -/

theorem ofList_mem_operators_iff {w : List Char} : String.ofList w ∈ operators ↔
    w ∈ [['+'], ['-'], ['*'], ['/'], ['='], ['<'], ['>'], ['<', '='], ['>', '='], ['<', '>'],
      [':', '=']] := by
  simp [operators, ← String.toList_inj]

theorem ofList_mem_delimiters_iff {w : List Char} : String.ofList w ∈ delimiters ↔
    w ∈ [[','], ['.'], [';'], ['('], [')']] := by
  simp [delimiters, ← String.toList_inj]

namespace Lexeme

theorem lookup_eq_none_of_not_mem {α : Type} {c : Char} {table : List (Char × α)}
    (absent : c ∉ table.map Prod.fst) : table.lookup c = none := by
  rw [List.lookup_eq_none_iff]
  intro entry member
  simp only [bne_iff_ne, ne_eq]
  intro same
  subst same
  exact absent (List.mem_map_of_mem member)

/-- A symbol alone is of the kind whose list it is on. -/
theorem symbolKind_eq (c : Char) : symbolKind c =
    if String.ofList [c] ∈ operators then .operator
    else if String.ofList [c] ∈ delimiters then .delimiter
    else .unknown := by
  simp only [ofList_mem_operators_iff, ofList_mem_delimiters_iff]
  by_cases special : c ∈ specials
  · simp only [specials, List.mem_cons, List.not_mem_nil, or_false] at special
    rcases special with
      rfl | rfl | rfl | rfl | rfl | rfl | rfl | rfl | rfl | rfl | rfl | rfl | rfl <;> rfl
  · simp only [specials, List.mem_cons, List.not_mem_nil, or_false, not_or] at special
    have noOpener : openers.lookup c = none := lookup_eq_none_of_not_mem (by simp [openers, special])
    have noSymbol : symbols.lookup c = none := lookup_eq_none_of_not_mem (by simp [symbols, special])
    simp [symbolKind, noOpener, noSymbol, special]

/-- Two characters are taken together if they are listed as an operator. -/
theorem isPair_iff {c d : Char} : isPair c d = true ↔ String.ofList [c, d] ∈ operators := by
  rw [ofList_mem_operators_iff]
  by_cases opener : c ∈ [':', '<', '>']
  · simp only [List.mem_cons, List.not_mem_nil, or_false] at opener
    rcases opener with rfl | rfl | rfl
    · simp [isPair, show openers.lookup ':' = some ['='] from rfl]
    · simp [isPair, show openers.lookup '<' = some ['=', '>'] from rfl]
    · simp [isPair, show openers.lookup '>' = some ['='] from rfl]
  · have noOpener : openers.lookup c = none := lookup_eq_none_of_not_mem opener
    simp only [List.mem_cons, List.not_mem_nil, or_false, not_or] at opener
    simp [isPair, noOpener, opener]

end Lexeme

/-! ## What a word starts with -/

namespace Vocabulary

variable {kind kind' : Token.Kind} {c : Char} {cs w : List Char}

/-- An operator or a delimiter has one or two characters, all of them special. -/
theorem specials_of_listed (listed : String.ofList w ∈ operators ∨ String.ofList w ∈ delimiters) :
    w ≠ [] ∧ w.length ≤ 2 ∧ w ⊆ specials := by
  rw [ofList_mem_operators_iff, ofList_mem_delimiters_iff, ← List.mem_append] at listed
  revert w
  decide

theorem ne_nil (word : Vocabulary kind w) : w ≠ [] := by
  cases word with
  | integer nonempty _ => exact nonempty
  | keyword | identifier => exact List.cons_ne_nil _ _
  | operator listed => exact (specials_of_listed (.inl listed)).1
  | delimiter listed => exact (specials_of_listed (.inr listed)).1

/-- The first character of a word tells which sort of word it is. -/
theorem head (word : Vocabulary kind (c :: cs)) :
    (Text.isDigit c = true ∧ kind = .integer ∧ ∀ d ∈ cs, Text.isDigit d = true) ∨
    (Text.isLetter c = true ∧ kind = Lexeme.wordKind (c :: cs) ∧ ∀ d ∈ cs, isNameChar d = true) ∨
    (c ∈ specials ∧ (kind = .operator ∧ String.ofList (c :: cs) ∈ operators ∨
      kind = .delimiter ∧ String.ofList (c :: cs) ∈ delimiters)) := by
  cases word with
  | integer _ digits =>
    have inside : ∀ d ∈ cs, Text.isDigit d = true := fun d member =>
      digits d (List.mem_cons_of_mem c member)
    exact .inl ⟨digits c List.mem_cons_self, rfl, inside⟩
  | keyword letter inside listed =>
    have isKeyword : Lexeme.wordKind (c :: cs) = .keyword := by
      simp only [Lexeme.wordKind, List.contains_iff_mem, if_pos listed]
    exact .inr (.inl ⟨letter, isKeyword.symm, fun d member => isNameChar_iff.mpr (inside d member)⟩)
  | identifier letter inside unlisted =>
    have isIdentifier : Lexeme.wordKind (c :: cs) = .identifier := by
      simp only [Lexeme.wordKind, List.contains_iff_mem, if_neg unlisted]
    exact .inr (.inl ⟨letter, isIdentifier.symm, fun d member => isNameChar_iff.mpr (inside d member)⟩)
  | operator listed =>
    have special := (specials_of_listed (.inl listed)).2.2 List.mem_cons_self
    exact .inr (.inr ⟨special, .inl ⟨rfl, listed⟩⟩)
  | delimiter listed =>
    have special := (specials_of_listed (.inr listed)).2.2 List.mem_cons_self
    exact .inr (.inr ⟨special, .inr ⟨rfl, listed⟩⟩)

theorem of_isDigit (word : Vocabulary kind (c :: cs)) (digit : Text.isDigit c = true) :
    kind = .integer ∧ ∀ d ∈ cs, Text.isDigit d = true := by
  rcases word.head with ⟨_, known⟩ | ⟨letter, _⟩ | ⟨special, _⟩
  · exact known
  · rw [Text.isLetter_eq_false_of_isDigit digit] at letter
    cases letter
  · rw [not_isDigit_of_mem_specials special] at digit
    cases digit

theorem of_isLetter (word : Vocabulary kind (c :: cs)) (letter : Text.isLetter c = true) :
    kind = Lexeme.wordKind (c :: cs) ∧ ∀ d ∈ cs, isNameChar d = true := by
  rcases word.head with ⟨digit, _⟩ | ⟨_, known⟩ | ⟨special, _⟩
  · rw [Text.isLetter_eq_false_of_isDigit digit] at letter
    cases letter
  · exact known
  · rw [not_isLetter_of_mem_specials special] at letter
    cases letter

theorem of_symbol (word : Vocabulary kind (c :: cs)) (noDigit : ¬ Text.isDigit c = true)
    (noLetter : ¬ Text.isLetter c = true) :
    kind = .operator ∧ String.ofList (c :: cs) ∈ operators ∨
      kind = .delimiter ∧ String.ofList (c :: cs) ∈ delimiters := by
  rcases word.head with ⟨digit, _⟩ | ⟨letter, _⟩ | ⟨_, known⟩
  · exact absurd digit noDigit
  · exact absurd letter noLetter
  · exact known

/-- No word is of two kinds. -/
theorem kind_unique (word : Vocabulary kind w) (word' : Vocabulary kind' w) : kind = kind' := by
  obtain ⟨c, cs, rfl⟩ := List.exists_cons_of_ne_nil word.ne_nil
  by_cases digit : Text.isDigit c = true
  · rw [(word.of_isDigit digit).1, (word'.of_isDigit digit).1]
  by_cases letter : Text.isLetter c = true
  · rw [(word.of_isLetter letter).1, (word'.of_isLetter letter).1]
  have apart : ∀ w, String.ofList w ∈ operators → String.ofList w ∈ delimiters → False := by
    intro w operator delimiter
    rw [ofList_mem_operators_iff] at operator
    rw [ofList_mem_delimiters_iff] at delimiter
    revert w
    decide
  rcases word.of_symbol digit letter with ⟨rfl, listed⟩ | ⟨rfl, listed⟩
  · rcases word'.of_symbol digit letter with ⟨rfl, _⟩ | ⟨_, listed'⟩
    · rfl
    · exact (apart _ listed listed').elim
  · rcases word'.of_symbol digit letter with ⟨_, listed'⟩ | ⟨rfl, _⟩
    · exact (apart _ listed' listed).elim
    · rfl

end Vocabulary

/-! ## The longest word -/

/-- The rule leaves no choice. -/
theorem FirstWord.unique {kind kind' : Token.Kind} {w w' rest rest' : List Char}
    (first : FirstWord kind w rest) (first' : FirstWord kind' w' rest')
    (same : w ++ rest = w' ++ rest') : kind = kind' ∧ w = w' ∧ rest = rest' := by
  cases first with
  | known word longest =>
    cases first' with
    | known word' longest' =>
      have le := longest' kind w word (same ▸ List.prefix_append w rest)
      have ge := longest kind' w' word' (same ▸ List.prefix_append w' rest')
      obtain ⟨rfl, rfl⟩ := List.append_inj same (Nat.le_antisymm le ge)
      exact ⟨word.kind_unique word', rfl, rfl⟩
    | @stranger c _ noWord => exact absurd ⟨rest, same⟩ (noWord kind w word)
  | @stranger c _ noWord =>
    cases first' with
    | known word' _ => exact absurd ⟨rest', same.symm⟩ (noWord kind' w' word')
    | stranger =>
      simp only [List.singleton_append, List.cons.injEq] at same
      exact ⟨rfl, by rw [same.1], same.2⟩

/-- A run of characters of one class is no longer than the longest such run. -/
theorem length_le_length_takeWhile {p : Char → Bool} {w cs : List Char} (isPrefix : w <+: cs)
    (inside : ∀ c ∈ w, p c = true) : w.length ≤ (cs.takeWhile p).length := by
  obtain ⟨rest, rfl⟩ := isPrefix
  rw [List.takeWhile_append_of_pos inside, List.length_append]
  omega

namespace Lexeme

variable {c d : Char} {cs : List Char}

/-- A word at the front of a text starts as the text does. -/
theorem exists_tail_of_prefix {kind : Token.Kind} {w : List Char} (word : Vocabulary kind w)
    (isPrefix : w <+: c :: cs) : ∃ tail, w = c :: tail ∧ tail <+: cs := by
  obtain ⟨d, tail, rfl⟩ := List.exists_cons_of_ne_nil word.ne_nil
  obtain ⟨rfl, behind⟩ := List.cons_prefix_cons.mp isPrefix
  exact ⟨tail, rfl, behind⟩

theorem firstWord_number (digit : Text.isDigit c = true) :
    FirstWord .integer (c :: cs.takeWhile Text.isDigit) (cs.dropWhile Text.isDigit) := by
  apply FirstWord.known
  · apply Vocabulary.integer (List.cons_ne_nil _ _)
    intro d member
    rcases List.mem_cons.mp member with rfl | behind
    · exact digit
    · exact List.all_eq_true.mp List.all_takeWhile d behind
  · intro kind w word isPrefix
    rw [List.cons_append, List.takeWhile_append_dropWhile] at isPrefix
    obtain ⟨tail, rfl, behind⟩ := exists_tail_of_prefix word isPrefix
    have le := length_le_length_takeWhile behind (word.of_isDigit digit).2
    simpa using le

theorem firstWord_name (letter : Text.isLetter c = true) :
    FirstWord (wordKind (c :: cs.takeWhile isNameChar)) (c :: cs.takeWhile isNameChar)
      (cs.dropWhile isNameChar) := by
  have inside : ∀ d ∈ cs.takeWhile isNameChar, Text.isLetter d = true ∨ Text.isDigit d = true := by
    intro d member
    exact isNameChar_iff.mp (List.all_eq_true.mp List.all_takeWhile d member)
  apply FirstWord.known
  · by_cases listed : String.ofList (c :: cs.takeWhile isNameChar) ∈ keywords
    · simp only [wordKind, List.contains_iff_mem, if_pos listed]
      exact .keyword letter inside listed
    · simp only [wordKind, List.contains_iff_mem, if_neg listed]
      exact .identifier letter inside listed
  · intro kind w word isPrefix
    rw [List.cons_append, List.takeWhile_append_dropWhile] at isPrefix
    obtain ⟨tail, rfl, behind⟩ := exists_tail_of_prefix word isPrefix
    have le := length_le_length_takeWhile behind (word.of_isLetter letter).2
    simpa using le

theorem firstWord_pair (noDigit : ¬ Text.isDigit c = true) (noLetter : ¬ Text.isLetter c = true)
    (pair : isPair c d = true) : FirstWord .operator [c, d] cs := by
  apply FirstWord.known
  · exact .operator (isPair_iff.mp pair)
  · intro kind w word isPrefix
    obtain ⟨tail, rfl, _⟩ := exists_tail_of_prefix word isPrefix
    rcases word.of_symbol noDigit noLetter with ⟨_, listed⟩ | ⟨_, listed⟩
    · exact (Vocabulary.specials_of_listed (.inl listed)).2.1
    · exact (Vocabulary.specials_of_listed (.inr listed)).2.1

/-- A symbol that makes no operator with the character behind it is all that can be read. -/
theorem eq_singleton_of_alone (noDigit : ¬ Text.isDigit c = true) (noLetter : ¬ Text.isLetter c = true)
    (alone : ∀ d ∈ cs.head?, ¬ isPair c d = true) {kind : Token.Kind} {w : List Char}
    (word : Vocabulary kind w) (isPrefix : w <+: c :: cs) : w = [c] := by
  obtain ⟨tail, rfl, behind⟩ := exists_tail_of_prefix word isPrefix
  cases tail with
  | nil => rfl
  | cons d ds =>
    obtain ⟨rest, rfl⟩ := behind
    rcases word.of_symbol noDigit noLetter with ⟨_, listed⟩ | ⟨_, listed⟩
    · -- an operator of more than one character has exactly two
      have short := (Vocabulary.specials_of_listed (.inl listed)).2.1
      simp only [List.length_cons] at short
      obtain rfl : ds = [] := List.length_eq_zero_iff.mp (by omega)
      exact absurd (isPair_iff.mpr listed) (alone d (by simp))
    · rw [ofList_mem_delimiters_iff] at listed
      simp at listed

theorem firstWord_alone (noDigit : ¬ Text.isDigit c = true) (noLetter : ¬ Text.isLetter c = true)
    (alone : ∀ d ∈ cs.head?, ¬ isPair c d = true) : FirstWord (symbolKind c) [c] cs := by
  have only : ∀ kind w, Vocabulary kind w → w <+: [c] ++ cs → w.length ≤ [c].length := by
    intro kind w word isPrefix
    exact Nat.le_of_eq (congrArg _ (eq_singleton_of_alone noDigit noLetter alone word isPrefix))
  rw [symbolKind_eq]
  by_cases operator : String.ofList [c] ∈ operators
  · rw [if_pos operator]
    exact .known (.operator operator) only
  by_cases delimiter : String.ofList [c] ∈ delimiters
  · rw [if_neg operator, if_pos delimiter]
    exact .known (.delimiter delimiter) only
  · rw [if_neg operator, if_neg delimiter]
    apply FirstWord.stranger
    intro kind w word isPrefix
    obtain rfl := eq_singleton_of_alone noDigit noLetter alone word isPrefix
    rcases word.of_symbol noDigit noLetter with ⟨_, listed⟩ | ⟨_, listed⟩
    · exact operator listed
    · exact delimiter listed

/-- The scanner splits off the first word by the rule. -/
theorem firstWord_first (c : Char) (cs : List Char) :
    FirstWord (first c cs).kind (first c cs).chars (first c cs).rest := by
  by_cases digit : Text.isDigit c = true
  · rw [first.eq_def, if_pos digit]
    exact firstWord_number digit
  by_cases letter : Text.isLetter c = true
  · rw [first.eq_def, if_neg digit, if_pos letter]
    exact firstWord_name letter
  rw [first.eq_def, if_neg digit, if_neg letter]
  cases cs with
  | nil => exact firstWord_alone digit letter (by simp)
  | cons d ds =>
    by_cases pair : isPair c d = true
    · simp only [if_pos pair]
      exact firstWord_pair digit letter pair
    · simp only [if_neg pair]
      exact firstWord_alone digit letter (by simpa using pair)

end Lexeme

end PlZero

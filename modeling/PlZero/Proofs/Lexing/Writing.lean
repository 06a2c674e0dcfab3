import PlZero.Proofs.Grammar
import PlZero.Proofs.Lexing.Reading

/-! # Words that are written out are read again

A word of the vocabulary is taken as it stands from any text, unless the character behind it is one that
the word would go on with (`Vocabulary.firstWord`).  So pieces of text can be put together: `Lexes s ws`
says that the text `s` is read as the words `ws` in every place where nothing behind it goes on with its
last word, and it is kept when pieces are put side by side with a blank between them, or when a symbol
that never goes on is put in front.
-/

namespace PlZero

/-! ## Where a word ends -/

/-- Whether a word would go on with the character behind it. -/
def goesOn : List Char → Char → Bool
  | [], _ => false
  | c :: cs, d =>
    if Text.isDigit c then Text.isDigit d
    else if Text.isLetter c then isNameChar d
    else cs.isEmpty && Lexeme.isPair c d

/-- Whether a word ends before the text `rest`. -/
def Ends (w rest : List Char) : Prop := ∀ d ∈ rest.head?, goesOn w d = false

/-- No word goes on with a character that is not part of names and completes no operator. -/
theorem goesOn_eq_false {d : Char} (noName : isNameChar d = false)
    (noSecond : ∀ c, Lexeme.isPair c d = false) (w : List Char) : goesOn w d = false := by
  have noDigit : Text.isDigit d = false := (Bool.or_eq_false_iff.mp noName).2
  cases w with
  | nil => rfl
  | cons c cs => simp [goesOn, noName, noDigit, noSecond]

theorem isPair_eq_false {c d : Char} (noSecond : d ∉ ['=', '>']) : Lexeme.isPair c d = false := by
  rw [Bool.eq_false_iff, ne_eq, Lexeme.isPair_iff, ofList_mem_operators_iff]
  simp only [List.mem_cons, List.not_mem_nil, or_false, not_or] at noSecond
  simp [noSecond]

theorem ends_blank {d : Char} (blank : d ∈ [' ', '\t', '\n', '\r']) (w rest : List Char) :
    Ends w (d :: rest) := by
  have noName : [' ', '\t', '\n', '\r'].all (fun d => isNameChar d = false) = true := by decide
  have noSecond : [' ', '\t', '\n', '\r'].all (fun d => d ∉ ['=', '>']) = true := by decide
  rintro _ ⟨⟩
  exact goesOn_eq_false (of_decide_eq_true (List.all_eq_true.mp noName d blank))
    (fun _ => isPair_eq_false (of_decide_eq_true (List.all_eq_true.mp noSecond d blank))) w

theorem ends_parenthesis (w rest : List Char) : Ends w (')' :: rest) := by
  rintro d ⟨⟩
  exact goesOn_eq_false (by decide) (fun _ => isPair_eq_false (by decide)) w

theorem span_append {p : Char → Bool} {cs rest : List Char} (inside : ∀ c ∈ cs, p c = true)
    (stops : ∀ d ∈ rest.head?, p d = false) :
    (cs ++ rest).takeWhile p = cs ∧ (cs ++ rest).dropWhile p = rest := by
  rw [List.takeWhile_append_of_pos inside, List.dropWhile_append_of_pos inside]
  cases rest with
  | nil => simp
  | cons d ds => simp [stops d rfl]

namespace Vocabulary

variable {kind : Token.Kind} {w rest : List Char}

/-- A word of the vocabulary is the first word of a text before which it ends. -/
theorem firstWord (word : Vocabulary kind w) (ends : Ends w rest) : FirstWord kind w rest := by
  obtain ⟨c, cs, rfl⟩ := List.exists_cons_of_ne_nil word.ne_nil
  -- the first character tells how the scanner goes on
  by_cases digit : Text.isDigit c = true
  · obtain ⟨rfl, inside⟩ := word.of_isDigit digit
    have stops : ∀ d ∈ rest.head?, Text.isDigit d = false := by
      simpa only [Ends, goesOn, if_pos digit] using ends
    obtain ⟨taken, left⟩ := span_append inside stops
    have first : FirstWord .integer (c :: (cs ++ rest).takeWhile Text.isDigit)
        ((cs ++ rest).dropWhile Text.isDigit) := Lexeme.firstWord_number digit
    rwa [taken, left] at first
  by_cases letter : Text.isLetter c = true
  · obtain ⟨rfl, inside⟩ := word.of_isLetter letter
    have stops : ∀ d ∈ rest.head?, isNameChar d = false := by
      simpa only [Ends, goesOn, if_neg digit, if_pos letter] using ends
    obtain ⟨taken, left⟩ := span_append inside stops
    have first : FirstWord (Lexeme.wordKind (c :: (cs ++ rest).takeWhile isNameChar))
        (c :: (cs ++ rest).takeWhile isNameChar) ((cs ++ rest).dropWhile isNameChar) :=
      Lexeme.firstWord_name letter
    rwa [taken, left] at first
  refine .known word fun kind' w' word' isPrefix => ?_
  cases cs with
  | nil =>
    have alone : ∀ d ∈ rest.head?, ¬ Lexeme.isPair c d = true := by
      simpa [Ends, goesOn, digit, letter] using ends
    obtain rfl := Lexeme.eq_singleton_of_alone digit letter alone word' isPrefix
    exact Nat.le_refl _
  | cons d ds =>
    -- the other word starts as this one does, so it is a symbol too, and none has three characters
    obtain ⟨tail, rfl, _⟩ := Lexeme.exists_tail_of_prefix word' isPrefix
    have short : (c :: tail).length ≤ 2 := by
      rcases word'.of_symbol digit letter with ⟨_, listed⟩ | ⟨_, listed⟩
      · exact (specials_of_listed (.inl listed)).2.1
      · exact (specials_of_listed (.inr listed)).2.1
    simp only [List.length_cons] at short ⊢
    omega

/-- No word starts with a blank. -/
theorem not_blank {c : Char} {cs : List Char} (word : Vocabulary kind (c :: cs)) :
    c ∉ [' ', '\t', '\n', '\r'] := by
  intro blank
  have others : [' ', '\t', '\n', '\r'].all
      (fun c => Text.isDigit c = false ∧ c.toNat < 0x41 ∧ c ∉ specials) = true := by decide
  obtain ⟨noDigit, low, noSpecial⟩ := of_decide_eq_true (List.all_eq_true.mp others c blank)
  rcases word.head with ⟨digit, _⟩ | ⟨letter, _⟩ | ⟨special, _⟩
  · simp [noDigit] at digit
  · simp [Text.isLetter_eq_false_of_lt low] at letter
  · exact noSpecial special

end Vocabulary

theorem Reading.prepend {file : String} {before w rest : List Char} {kind : Token.Kind} {ts : List Token}
    (word : Vocabulary kind w) (ends : Ends w rest) (behind : Reading file (before ++ w) rest ts) :
    Reading file before (w ++ rest) (.standing file before kind w :: ts) := by
  obtain ⟨c, cs, rfl⟩ := List.exists_cons_of_ne_nil word.ne_nil
  exact .word word.not_blank rfl (word.firstWord ends) behind

/-! ## Pieces of text -/

/-- `Lexes s ws`: wherever the text `s` stands, it is read as the words `ws`, provided that no word goes on
with what is behind it. -/
def Lexes (s : String) (ws : List Word) : Prop :=
  ∀ ⦃file : String⦄ ⦃before rest : List Char⦄ ⦃ts : List Token⦄, (∀ w, Ends w rest) →
    Reading file (before ++ s.toList) rest ts →
    ∃ own, Reading file before (s.toList ++ rest) (own ++ ts) ∧
      own.map (fun t => (t.kind, t.lexeme)) = ws

namespace Lexes

variable {s s' w : String} {ws ws' : List Word} {kind : Token.Kind}

theorem word (word : Vocabulary kind w.toList) : Lexes w [(kind, w)] := by
  intro file before rest ts closed behind
  exact ⟨[_], .prepend word (closed _) behind, by simp [Token.standing]⟩

/-- A word that goes on with nothing needs no blank behind it. -/
theorem cons (word : Vocabulary kind w.toList) (alone : ∀ d, goesOn w.toList d = false)
    (lexes : Lexes s ws) : Lexes (w ++ s) ((kind, w) :: ws) := by
  intro file before rest ts closed behind
  rw [String.toList_append, ← List.append_assoc] at behind
  obtain ⟨own, reading, spelled⟩ := lexes closed behind
  refine ⟨.standing file before kind w.toList :: own, ?_, ?_⟩
  · rw [String.toList_append, List.append_assoc]
    exact .prepend word (fun d _ => alone d) reading
  · simp [Token.standing, spelled]

/-- Every word ends before a closing parenthesis. -/
theorem close (lexes : Lexes s ws) : Lexes (s ++ ")") (ws ++ [.delimiter ")"]) := by
  intro file before rest ts closed behind
  have word : Vocabulary .delimiter [')'] := .delimiter (by decide)
  rw [String.toList_append, ← List.append_assoc] at behind
  obtain ⟨own, reading, spelled⟩ := lexes (fun w => ends_parenthesis w rest)
    (.prepend word (closed _) behind)
  refine ⟨own ++ [.standing file (before ++ s.toList) .delimiter [')']], ?_, ?_⟩
  · simpa using reading
  · simp [Token.standing, spelled, Word.delimiter]

/-- Every word ends before a blank. -/
theorem space (first : Lexes s ws) (second : Lexes s' ws') : Lexes (s ++ " " ++ s') (ws ++ ws') := by
  intro file before rest ts closed behind
  -- from the right: the second piece, the blank, and then the first piece, which ends before it
  rw [String.toList_append, String.toList_append, ← List.append_assoc, ← List.append_assoc] at behind
  obtain ⟨own', reading', spelled'⟩ := second closed behind
  obtain ⟨own, reading, spelled⟩ := first (fun w => ends_blank List.mem_cons_self w (s'.toList ++ rest))
    (.blank List.mem_cons_self reading')
  refine ⟨own ++ own', ?_, ?_⟩
  · simpa using reading
  · rw [List.map_append, spelled, spelled']

theorem map_tokenize (lexes : Lexes s ws) (file : String) :
    (tokenize s file).map (fun t => (t.kind, t.lexeme)) = ws := by
  obtain ⟨own, reading, spelled⟩ := @lexes file [] [] [] (by simp [Ends]) .done
  rw [List.append_nil, List.append_nil] at reading
  rw [(tokenize_reading s file).unique reading, spelled]

end Lexes

end PlZero

import PlZero.Text.Letter
import PlZero.Token

/-! # Reading tokens from text

A `Scanner` is a text that has been read up to some point.  `next?` skips blanks and takes the
longest word that the vocabulary allows; a character that starts no word is a token of kind
`unknown` by itself, so reading never fails.  `tokens` reads on to the end of the text.

* `Lexeme.first` splits the first word off a text that does not start with a blank;
* `Scanner.next?` adds the location and moves on;
* `Scanner.tokens` is the list of all remaining tokens, and `tokenize` that of a whole text;
* `Scanner.tokens_eq` says that these are the next token and those behind it: the bound on their
  number by which they are defined does not show.
-/

namespace PlZero

/-! ## Words -/

/-- The characters between words. -/
def isBlank (c : Char) : Bool := c = ' ' || c = '\t' || c = '\n' || c = '\r'

/-- The characters of a name after its first letter. -/
def isNameChar (c : Char) : Bool := Text.isLetter c || Text.isDigit c

/-- A word split off a text. -/
structure Lexeme where
  kind : Token.Kind
  chars : List Char
  rest : List Char

namespace Lexeme

/-- A word of letters is a keyword or a name. -/
def wordKind (cs : List Char) : Token.Kind :=
  if keywords.contains (String.ofList cs) then .keyword else .identifier

/-- The symbols that are words by themselves, whatever follows them. -/
def symbols : List (Char × Token.Kind) :=
  [('+', .operator), ('-', .operator), ('*', .operator), ('/', .operator), ('=', .operator),
    (',', .delimiter), ('.', .delimiter), (';', .delimiter), ('(', .delimiter), (')', .delimiter)]

/-- The characters that may start an operator of two, each with those that may complete it. -/
def openers : List (Char × List Char) := [(':', ['=']), ('<', ['=', '>']), ('>', ['='])]

/-- The kind of a symbol that stands alone.  A colon is part of a longer operator only. -/
def symbolKind (c : Char) : Token.Kind :=
  match openers.lookup c with
  | some _ => if c = ':' then .unknown else .operator
  | none => (symbols.lookup c).getD .unknown

/-- Whether two characters make up one operator. -/
def isPair (c d : Char) : Bool :=
  match openers.lookup c with
  | some seconds => seconds.contains d
  | none => false

/-- The first word of `c :: cs`, where `c` is no blank. -/
def first (c : Char) (cs : List Char) : Lexeme :=
  if Text.isDigit c then
    ⟨.integer, c :: cs.takeWhile Text.isDigit, cs.dropWhile Text.isDigit⟩
  else if Text.isLetter c then
    let word := c :: cs.takeWhile isNameChar
    ⟨wordKind word, word, cs.dropWhile isNameChar⟩
  else
    match cs with
    | [] => ⟨symbolKind c, [c], []⟩
    | d :: ds => if isPair c d then ⟨.operator, [c, d], ds⟩ else ⟨symbolKind c, [c], d :: ds⟩

/-- A word and what is behind it make up the text. -/
theorem first_append (c : Char) (cs : List Char) :
    (first c cs).chars ++ (first c cs).rest = c :: cs := by
  unfold first
  split
  · simp
  · split
    · simp
    · split
      · rfl
      · split <;> rfl

/-- A word has at least one character. -/
theorem first_chars_ne_nil (c : Char) (cs : List Char) : (first c cs).chars ≠ [] := by
  unfold first
  split
  · simp
  · split
    · simp
    · split
      · simp
      · split <;> simp

/-- Behind a word less is left than before it. -/
theorem length_first_rest (c : Char) (cs : List Char) :
    (first c cs).rest.length < (c :: cs).length := by
  have whole := congrArg List.length (first_append c cs)
  have some_char := List.length_pos_iff.mpr (first_chars_ne_nil c cs)
  simp only [List.length_append] at whole
  omega

end Lexeme

/-! ## Scanners -/

/-- A text that has been read up to `pos`, with what is still to come. -/
structure Scanner where
  file : String
  pos : Position
  rest : List Char
deriving DecidableEq, Repr, Inhabited

namespace Scanner

/-- A text of which nothing has been read. -/
def ofText (file source : String) : Scanner := ⟨file, .start, source.toList⟩

/-- Moves to the next character that is no blank. -/
def skipBlanks (s : Scanner) : Scanner :=
  { s with
    pos := s.pos.advance (s.rest.takeWhile isBlank)
    rest := s.rest.dropWhile isBlank }

/-- Takes the word that starts here. -/
def word (s : Scanner) (c : Char) (cs : List Char) : Token × Scanner :=
  let w := Lexeme.first c cs
  let past := s.pos.advance w.chars
  (⟨w.kind, String.ofList w.chars, .span s.file s.pos past⟩, { s with pos := past, rest := w.rest })

/-- The next token and the scanner behind it, or nothing if only blanks are left. -/
def next? (s : Scanner) : Option (Token × Scanner) :=
  let s := s.skipBlanks
  match s.rest with
  | [] => none
  | c :: cs => some (s.word c cs)

/-- At most `bound` further tokens. -/
def take : Nat → Scanner → List Token
  | 0, _ => []
  | bound + 1, s =>
    match s.next? with
    | none => []
    | some (t, s) => t :: take bound s

/-- All further tokens.  Each of them takes a character, so there are no more of them than
characters. -/
def tokens (s : Scanner) : List Token := take s.rest.length s

/-- Skipping blanks never adds to what is left. -/
theorem length_skipBlanks_rest (s : Scanner) : s.skipBlanks.rest.length ≤ s.rest.length :=
  (List.dropWhile_suffix isBlank).length_le

/-- Every token shortens what is left. -/
theorem length_rest_of_next? {s s' : Scanner} {t : Token} (h : s.next? = some (t, s')) :
    s'.rest.length < s.rest.length := by
  have skipped := s.length_skipBlanks_rest
  unfold next? at h
  simp only at h
  split at h
  · cases h
  · rename_i c cs rest_eq
    rw [rest_eq] at skipped
    obtain ⟨_, rfl⟩ := Prod.mk.inj (Option.some.inj h)
    have shorter := Lexeme.length_first_rest c cs
    simp only
    omega

/-- A bound that covers what is left does not show. -/
theorem take_of_length_le {s : Scanner} {bound : Nat} (h : s.rest.length ≤ bound) :
    take bound s = s.tokens := by
  unfold tokens
  induction hn : s.rest.length using Nat.strongRecOn generalizing s bound with
  | ind n ih =>
    subst hn
    cases bound with
    | zero =>
      have empty : s.rest.length = 0 := by omega
      rw [empty]
    | succ bound =>
      cases hs : s.next? with
      | none =>
        cases hl : s.rest.length with
        | zero => simp [take, hs]
        | succ n => simp [take, hs]
      | some p =>
        obtain ⟨t, s'⟩ := p
        have shorter := length_rest_of_next? hs
        obtain ⟨n, hn⟩ : ∃ n, s.rest.length = n + 1 := ⟨s.rest.length - 1, by omega⟩
        rw [hn]
        simp only [take, hs]
        have tail : ∀ m, s'.rest.length ≤ m → take m s' = take s'.rest.length s' :=
          fun m hm => ih _ shorter hm rfl
        rw [tail bound (by omega), tail n (by omega)]

/-- The remaining tokens are the next one and those behind it. -/
theorem tokens_eq (s : Scanner) :
    s.tokens = match s.next? with
      | none => []
      | some (t, s') => t :: s'.tokens := by
  rw [← take_of_length_le (Nat.le_succ s.rest.length), take]
  cases hs : s.next? with
  | none => rfl
  | some p =>
    obtain ⟨t, s'⟩ := p
    have shorter := length_rest_of_next? hs
    simp only [take_of_length_le (Nat.le_of_lt shorter)]

end Scanner

/-- The tokens of a text. -/
def tokenize (source : String) (file : String) : List Token := (Scanner.ofText file source).tokens

end PlZero

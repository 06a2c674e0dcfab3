import Mathlib.Data.List.Chain
import PlZero.Proofs.Lexing.Spans
import PlZero.Proofs.Lexing.Writing

/-! # Words and the blanks between them

Words that were read from texts, whichever these were, are written down in a row and read again.  Blanks
may stand anywhere between them, but are needed in few places: where the first word would go on with
what comes next.  `Word.glues` lists these places, and `Word.Lexical.glues_of_goesOn` says that there are
no others.

Behind a word that ends, the scanner starts anew, so the row is read word by word, from the right
(`Reading.spread`).
-/

namespace PlZero

namespace Word

/-- A word that some text has among its tokens. -/
def Lexical (w : Word) : Prop := ∃ source file, ∃ t ∈ tokenize source file, (t.kind, t.lexeme) = w

/-- Whether a blank has to stand between two words. -/
def glues (w w' : Word) : Bool :=
  let next := w'.2.toList.head?
  (w.1 = .keyword || w.1 = .identifier) && next.any (fun c => Text.isLetter c || Text.isDigit c) ||
    w.1 = .integer && w'.1 = .integer ||
    w.2 = ":" && w'.2 = "=" ||
    w.2 = "<" && next.any (fun c => c = '=' || c = '>') ||
    w.2 = ">" && w'.2 = "="

/-- Words written down in a row, each with a gap behind it. -/
def spread : List (Word × String) → String
  | [] => ""
  | (w, gap) :: pieces => w.2 ++ gap ++ spread pieces

end Word

/-- A text of nothing but blanks. -/
def IsGap (s : String) : Prop := ∀ c ∈ s.toList, c ∈ [' ', '\t', '\n', '\r']

instance : DecidablePred IsGap := fun s => List.decidableBAll (· ∈ [' ', '\t', '\n', '\r']) s.toList

/-! ## Words in another place -/

namespace Vocabulary

variable {c : Char}

theorem digit (digit : Text.isDigit c = true) : Vocabulary .integer [c] :=
  .integer (List.cons_ne_nil _ _) (by simpa using digit)

theorem letter (letter : Text.isLetter c = true) : ∃ kind, Vocabulary kind [c] := by
  by_cases listed : String.ofList [c] ∈ keywords
  · exact ⟨.keyword, .keyword letter (by simp) listed⟩
  · exact ⟨.identifier, .identifier letter (by simp) listed⟩

end Vocabulary

namespace FirstWord

variable {kind : Token.Kind} {c : Char} {cs w rest rest' : List Char}

/-- A first word is the first word of every text before which it ends. -/
theorem elsewhere (first : FirstWord kind w rest) (ends : Ends w rest') : FirstWord kind w rest' := by
  cases first with
  | known word _ => exact word.firstWord ends
  | @stranger c _ noWord =>
    -- the character alone is no word of any kind
    have alone : ∀ kind, ¬ Vocabulary kind [c] := fun kind word => noWord kind [c] word ⟨rest, rfl⟩
    have noDigit : ¬ Text.isDigit c = true := fun digit => alone _ (.digit digit)
    have noLetter : ¬ Text.isLetter c = true := fun letter =>
      (Vocabulary.letter letter).elim fun kind word => alone kind word
    have single : ∀ d ∈ rest'.head?, ¬ Lexeme.isPair c d = true := by
      simpa [Ends, goesOn, noDigit, noLetter] using ends
    have first := Lexeme.firstWord_alone noDigit noLetter single
    have unlisted : Lexeme.symbolKind c = .unknown := by
      rw [Lexeme.symbolKind_eq, if_neg fun listed => alone .operator (.operator listed),
        if_neg fun listed => alone .delimiter (.delimiter listed)]
    rwa [unlisted] at first

/-- If a word of the vocabulary starts with the first character of a text, so does the first word. -/
theorem vocabulary (first : FirstWord kind (c :: cs) rest) {kind' : Token.Kind}
    (single : Vocabulary kind' [c]) : Vocabulary kind (c :: cs) := by
  cases first with
  | known word _ => exact word
  | stranger noWord => exact absurd ⟨rest, rfl⟩ (noWord kind' [c] single)

end FirstWord

namespace Reading

variable {file : String} {before cs rest : List Char} {ts : List Token}

theorem firstWord (reading : Reading file before cs ts) :
    ∀ t ∈ ts, ∃ c cs rest, t.lexeme.toList = c :: cs ∧ c ∉ [' ', '\t', '\n', '\r'] ∧
      FirstWord t.kind (c :: cs) rest := by
  induction reading with
  | done => simp
  | blank _ _ ih => exact ih
  | @word before cs w rest c kind ts noBlank divided first _ ih =>
    intro t member
    cases member with
    | tail _ behind => exact ih t behind
    | head =>
      obtain ⟨d, ds, rfl⟩ := List.exists_cons_of_ne_nil first.ne_nil
      obtain ⟨rfl, _⟩ := List.cons.inj divided
      exact ⟨c, ds, rest, by simp [Token.standing], noBlank, first⟩

theorem gap {s : List Char} (blanks : ∀ c ∈ s, c ∈ [' ', '\t', '\n', '\r'])
    (behind : Reading file (before ++ s) rest ts) : Reading file before (s ++ rest) ts := by
  induction s generalizing before with
  | nil => simpa using behind
  | cons c s ih =>
    apply Reading.blank (blanks c List.mem_cons_self)
    apply ih fun d member => blanks d (List.mem_cons_of_mem c member)
    rwa [List.append_assoc]

end Reading

namespace Word

/-! ## Which words need a blank -/

section Lexical

variable {w w' : Word}

theorem Lexical.firstWord (lexical : w.Lexical) :
    ∃ c cs rest, w.2.toList = c :: cs ∧ c ∉ [' ', '\t', '\n', '\r'] ∧ FirstWord w.1 (c :: cs) rest := by
  obtain ⟨source, file, t, member, rfl⟩ := lexical
  exact (tokenize_reading source file).firstWord t member

/-- A word that starts with a digit is a number. -/
theorem Lexical.integer (lexical : w.Lexical) {d : Char} (head : d ∈ w.2.toList.head?)
    (digit : Text.isDigit d = true) : w.1 = .integer := by
  obtain ⟨c, cs, rest, spelled, _, first⟩ := lexical.firstWord
  obtain rfl : c = d := by simpa [spelled] using head
  exact ((first.vocabulary (.digit digit)).of_isDigit digit).1

/-- No other word starts with an equals sign. -/
theorem Lexical.equals (lexical : w.Lexical) (head : '=' ∈ w.2.toList.head?) : w.2 = "=" := by
  obtain ⟨c, cs, rest, spelled, _, first⟩ := lexical.firstWord
  obtain rfl : c = '=' := by simpa [spelled] using head
  have word := first.vocabulary (.operator (by decide))
  rw [← String.toList_inj, spelled]
  rcases word.of_symbol (by decide) (by decide) with ⟨_, listed⟩ | ⟨_, listed⟩
  · rw [ofList_mem_operators_iff] at listed
    simpa using listed
  · rw [ofList_mem_delimiters_iff] at listed
    simp at listed

/-- A word goes on with the start of another only if the two are said to glue. -/
theorem Lexical.glues_of_goesOn (lexical : w.Lexical) (lexical' : w'.Lexical) {d : Char}
    (head : d ∈ w'.2.toList.head?) (onward : goesOn w.2.toList d = true) : glues w w' = true := by
  obtain ⟨c, cs, rest, spelled, _, first⟩ := lexical.firstWord
  rw [spelled, goesOn] at onward
  have next : w'.2.toList.head? = some d := head
  by_cases digit : Text.isDigit c = true
  · rw [if_pos digit] at onward
    have number := ((first.vocabulary (.digit digit)).of_isDigit digit).1
    simp [glues, number, lexical'.integer head onward]
  by_cases letter : Text.isLetter c = true
  · rw [if_neg digit, if_pos letter, isNameChar_iff] at onward
    obtain ⟨kind, single⟩ := Vocabulary.letter letter
    have name : w.1 = .keyword ∨ w.1 = .identifier := by
      rw [((first.vocabulary single).of_isLetter letter).1, Lexeme.wordKind]
      split
      · exact .inl rfl
      · exact .inr rfl
    simp [glues, next, name, onward]
  · -- of the symbols only three go on, and each of them is a word of one character
    rw [if_neg digit, if_neg letter, Bool.and_eq_true, List.isEmpty_iff, Lexeme.isPair_iff,
      ofList_mem_operators_iff] at onward
    obtain ⟨rfl, listed⟩ := onward
    have symbol : w.2 = String.ofList [c] := by rw [← spelled, String.ofList_toList]
    simp only [List.mem_cons, List.cons.injEq, List.cons_ne_nil, List.not_mem_nil, and_false, and_true,
      or_false, false_or] at listed
    rcases listed with ⟨rfl, rfl⟩ | ⟨rfl, rfl⟩ | ⟨rfl, rfl⟩ | ⟨rfl, rfl⟩
    · simp [glues, next, symbol]
    · simp [glues, symbol, lexical'.equals head]
    · simp [glues, next, symbol]
    · simp [glues, symbol, lexical'.equals head]

end Lexical

/-! ## Rows of words -/

/-- The character at the front of a row is that of its first word. -/
theorem mem_head?_spread {w : Word} {gap : String} {pieces : List (Word × String)} (lexical : w.Lexical)
    {d : Char} (head : d ∈ (spread ((w, gap) :: pieces)).toList.head?) : d ∈ w.2.toList.head? := by
  obtain ⟨c, cs, _, spelled, _⟩ := lexical.firstWord
  simpa [spread, spelled] using head

theorem ends_spread {w : Word} {gap : String} {pieces : List (Word × String)} (lexical : w.Lexical)
    (blank : IsGap gap) (others : ∀ p ∈ pieces, p.1.Lexical)
    (separated : ∀ p ∈ pieces.head?, glues w p.1 = true → gap ≠ "") :
    Ends w.2.toList (gap.toList ++ (spread pieces).toList) := by
  cases blanks : gap.toList with
  | cons b bs => exact ends_blank (blank b (by simp [blanks])) _ _
  | nil =>
    have empty : gap = "" := String.toList_inj.mp blanks
    intro d head
    cases pieces with
    | nil => cases head
    | cons p pieces =>
      have lexical' := others p List.mem_cons_self
      apply Bool.eq_false_iff.mpr
      intro onward
      exact separated p rfl (lexical.glues_of_goesOn lexical' (mem_head?_spread lexical' head) onward) empty

end Word

/-- A row is read from the right: behind each word and its gap stand words that are read already. -/
theorem Reading.spread (file : String) {pieces : List (Word × String)}
    (lexical : ∀ p ∈ pieces, p.1.Lexical) (blank : ∀ p ∈ pieces, IsGap p.2)
    (separated : pieces.IsChain fun p q => Word.glues p.1 q.1 = true → p.2 ≠ "") (before : List Char) :
    ∃ ts, Reading file before (Word.spread pieces).toList ts ∧
      ts.map (fun t => (t.kind, t.lexeme)) = pieces.map Prod.fst := by
  induction pieces generalizing before with
  | nil => exact ⟨[], .done, rfl⟩
  | cons p pieces ih =>
    obtain ⟨w, gap⟩ := p
    have others : ∀ p ∈ pieces, p.1.Lexical := fun p member => lexical p (List.mem_cons_of_mem _ member)
    have others' : ∀ p ∈ pieces, IsGap p.2 := fun p member => blank p (List.mem_cons_of_mem _ member)
    obtain ⟨first, behind⟩ := List.isChain_cons.mp separated
    obtain ⟨ts, reading, spelled⟩ := ih others others' behind (before ++ w.2.toList ++ gap.toList)
    have word := lexical (w, gap) List.mem_cons_self
    have gapped := blank (w, gap) List.mem_cons_self
    have ends := Word.ends_spread word gapped others first
    obtain ⟨c, cs, _, chars, noBlank, found⟩ := word.firstWord
    refine ⟨.standing file before w.1 w.2.toList :: ts, ?_, by simp [Token.standing, spelled]⟩
    rw [Word.spread, String.toList_append, String.toList_append, List.append_assoc]
    rw [chars] at ends reading ⊢
    exact .word noBlank rfl (found.elsewhere ends) (.gap gapped reading)

/-- Words that were read somewhere, written down with blanks between them wherever two of them would
glue, are read as the same words, and blanks in front, behind and anywhere else make no difference. -/
theorem tokenize_spread (file lead : String) (pieces : List (Word × String)) (leading : IsGap lead)
    (lexical : ∀ p ∈ pieces, p.1.Lexical) (blank : ∀ p ∈ pieces, IsGap p.2)
    (separated : pieces.IsChain fun p q => Word.glues p.1 q.1 = true → p.2 ≠ "") :
    (tokenize (lead ++ Word.spread pieces) file).map (fun t => (t.kind, t.lexeme)) =
      pieces.map Prod.fst := by
  obtain ⟨ts, reading, spelled⟩ := Reading.spread file lexical blank separated lead.toList
  have whole : Reading file [] (lead ++ Word.spread pieces).toList ts := by
    rw [String.toList_append]
    exact .gap leading reading
  rw [(tokenize_reading _ file).unique whole, spelled]

/-- Few of the words need a blank between them: a number ends before a letter, and an operator before one
that it could not be part of. -/
theorem tokenize_spread_dense :
    let pieces : List (Word × String) := [(.keyword "if", " "), (.identifier "x1", ""),
      (.operator "<>", ""), (.number (.number 12), ""), (.identifier "ab", ""), ((.unknown, ":"), ""),
      (.operator ":=", ""), (.operator ">=", ""), (.operator "=", "\r\n"), (.operator "<", " "),
      (.operator ">", "")]
    IsGap "\t" ∧ (∀ p ∈ pieces, p.1.Lexical) ∧ (∀ p ∈ pieces, IsGap p.2) ∧
      (pieces.IsChain fun p q => Word.glues p.1 q.1 = true → p.2 ≠ "") ∧
      Word.spread pieces = "if x1<>12ab::=>==\r\n< >" ∧
      (tokenize ("\t" ++ Word.spread pieces) "").map (fun t => (t.kind, t.lexeme)) =
        pieces.map Prod.fst := by
  intro pieces
  have alone : ∀ p ∈ pieces, p.1 ∈ (tokenize p.1.2 "").map fun t => (t.kind, t.lexeme) := by decide
  have lexical : ∀ p ∈ pieces, p.1.Lexical := fun p member =>
    ⟨p.1.2, "", List.mem_map.mp (alone p member)⟩
  have blank : ∀ p ∈ pieces, IsGap p.2 := by decide
  have separated : pieces.IsChain fun p q => Word.glues p.1 q.1 = true → p.2 ≠ "" := by decide
  exact ⟨by decide, lexical, blank, separated, by decide,
    tokenize_spread "" "\t" pieces (by decide) lexical blank separated⟩

end PlZero

import PlZero.Proofs.Scanning

/-! # Reading a text by the longest word

`Reading` is the reference for the scanner: how a text has to be divided into tokens, given the rule
for the first word and the text that comes before.  Nothing is counted on the way.  The place of a
token is a matter of the text before it, and `Position.behind` says which: as many lines as line
feeds, and a column for each character since the last of them.

A text has one reading (`Reading.unique`), and the scanner finds it (`Scanner.tokens_reading`).
-/

namespace PlZero

/-! ## Positions -/

/-- The point behind a text. -/
def Position.behind (cs : List Char) : Position where
  line := 1 + cs.count '\n'
  column := 1 + (cs.reverse.takeWhile (· ≠ '\n')).length
  offset := cs.length

namespace Position

theorem after_behind (cs : List Char) (c : Char) : (behind cs).after c = behind (cs ++ [c]) := by
  by_cases feed : c = '\n'
  · simp [after, behind, feed]
    omega
  · simp [after, behind, feed]
    omega

/-- Counting on from the point behind one text leads to the point behind both. -/
theorem advance_behind (cs ds : List Char) : (behind cs).advance ds = behind (cs ++ ds) := by
  induction ds generalizing cs with
  | nil => rw [List.append_nil]; rfl
  | cons d ds ih =>
    show ((behind cs).after d).advance ds = _
    rw [after_behind, ih, List.append_assoc]
    rfl

/-- Without a line feed only the column moves. -/
theorem behind_append_of_noFeed {cs w : List Char} (noFeed : '\n' ∉ w) :
    behind (cs ++ w) = ⟨(behind cs).line, (behind cs).column + w.length, cs.length + w.length⟩ := by
  have sameLine : ∀ c ∈ w.reverse, decide (c ≠ '\n') = true := by
    intro c member
    simp only [ne_eq, decide_eq_true_eq]
    intro feed
    exact noFeed (feed ▸ List.mem_reverse.mp member)
  simp only [behind, List.count_append, List.count_eq_zero_of_not_mem noFeed, List.reverse_append,
    List.takeWhile_append_of_pos sameLine, List.length_append, List.length_reverse]
  congr 1
  omega

end Position

/-! ## Readings -/

/-- The word `w` behind the text `before`, as a token. -/
def Token.standing (file : String) (before : List Char) (kind : Token.Kind) (w : List Char) : Token :=
  ⟨kind, String.ofList w, .span file (.behind before) (.behind (before ++ w))⟩

/-- `Reading file before cs ts`: behind the text `before`, the text `cs` has to be read as `ts`. -/
inductive Reading (file : String) : List Char → List Char → List Token → Prop
  | done {before : List Char} : Reading file before [] []
  | blank {before cs : List Char} {c : Char} {ts : List Token} :
      c ∈ [' ', '\t', '\n', '\r'] → Reading file (before ++ [c]) cs ts → Reading file before (c :: cs) ts
  | word {before cs w rest : List Char} {c : Char} {kind : Token.Kind} {ts : List Token} :
      c ∉ [' ', '\t', '\n', '\r'] → c :: cs = w ++ rest → FirstWord kind w rest →
      Reading file (before ++ w) rest ts →
      Reading file before (c :: cs) (.standing file before kind w :: ts)

theorem isBlank_iff {c : Char} : isBlank c = true ↔ c ∈ [' ', '\t', '\n', '\r'] := by
  simp [isBlank, or_assoc]

namespace Reading

variable {file : String} {before cs : List Char} {ts ts' : List Token}

/-- A text can be read in one way only. -/
theorem unique (reading : Reading file before cs ts) (reading' : Reading file before cs ts') :
    ts = ts' := by
  induction reading generalizing ts' with
  | done =>
    cases reading' with
    | done => rfl
  | blank blank _ ih =>
    cases reading' with
    | blank _ onwards => exact ih onwards
    | word noBlank => exact absurd blank noBlank
  | word noBlank divided first _ ih =>
    cases reading' with
    | blank blank => exact absurd blank noBlank
    | word _ divided' first' onwards =>
      obtain ⟨rfl, rfl, rfl⟩ := first.unique first' (divided.symm.trans divided')
      rw [ih onwards]

/-- Every token is a word of its kind, or a character that starts no word. -/
theorem vocabulary (reading : Reading file before cs ts) :
    ∀ t ∈ ts, t.kind = .unknown ∨ Vocabulary t.kind t.lexeme.toList := by
  induction reading with
  | done => simp
  | blank _ _ ih => exact ih
  | @word before cs w rest c kind ts _ _ first _ ih =>
    intro t member
    cases member with
    | tail _ behind => exact ih t behind
    | head =>
      simp only [Token.standing, String.toList_ofList]
      cases first with
      | known word _ => exact .inr word
      | stranger => exact .inl rfl

/-- Blanks are skipped. -/
theorem of_skipped (reading : Reading file (before ++ cs.takeWhile isBlank) (cs.dropWhile isBlank) ts) :
    Reading file before cs ts := by
  induction cs generalizing before with
  | nil => simpa using reading
  | cons c cs ih =>
    by_cases blank : isBlank c = true
    · rw [List.takeWhile_cons_of_pos blank, List.dropWhile_cons_of_pos blank] at reading
      apply Reading.blank (isBlank_iff.mp blank)
      apply ih
      rw [List.append_assoc]
      exact reading
    · rw [List.takeWhile_cons_of_neg blank, List.dropWhile_cons_of_neg blank, List.append_nil] at reading
      exact reading

end Reading

namespace Scanner

/-- The scanner reads by the rule, from any point on. -/
theorem tokens_reading (s : Scanner) {before : List Char} (there : s.pos = .behind before) :
    Reading s.file before s.rest s.tokens := by
  induction s using scan generalizing before with
  | done s ended =>
    have onlyBlanks : s.rest.dropWhile isBlank = [] := by
      unfold next? at ended
      simp only at ended
      split at ended
      · assumption
      · cases ended
    apply Reading.of_skipped
    rw [onlyBlanks, tokens_of_none ended]
    exact .done
  | token s t s' reading ih =>
    obtain ⟨c, cs, left, word⟩ := next?_eq_some reading
    obtain ⟨rfl, rfl⟩ := Prod.mk.inj word
    have start : s.skipBlanks.pos = .behind (before ++ s.rest.takeWhile isBlank) := by
      rw [skipBlanks, there, Position.advance_behind]
    have past : s.skipBlanks.pos.advance (Lexeme.first c cs).chars =
        .behind (before ++ s.rest.takeWhile isBlank ++ (Lexeme.first c cs).chars) := by
      rw [start, Position.advance_behind]
    have onwards := ih past
    rw [past] at onwards
    have front : s.rest.dropWhile isBlank = c :: cs := left
    have noBlank : c ∉ [' ', '\t', '\n', '\r'] := by
      have stopped := List.head?_dropWhile_not isBlank s.rest
      rw [front] at stopped
      intro blank
      rw [← isBlank_iff] at blank
      simp [blank] at stopped
    apply Reading.of_skipped
    rw [front, tokens_of_some reading, past, start]
    exact .word noBlank (Lexeme.first_append c cs).symm (Lexeme.firstWord_first c cs) onwards

end Scanner

theorem tokenize_reading (source file : String) :
    Reading file [] source.toList (tokenize source file) :=
  (Scanner.ofText file source).tokens_reading rfl

/-- The tokens of a text are those of its one reading: blanks are skipped, and everywhere else the
longest word of the vocabulary is taken, or a single character where there is none. -/
theorem tokenize_eq_iff_reading (source file : String) (ts : List Token) :
    tokenize source file = ts ↔ Reading file [] source.toList ts := by
  constructor
  · intro same
    exact same ▸ tokenize_reading source file
  · intro reading
    exact (tokenize_reading source file).unique reading

example : (tokenize "::=<>=9a" "").map (fun t => (t.kind, t.lexeme)) =
    [(.unknown, ":"), (.operator, ":="), (.operator, "<>"), (.operator, "="), (.integer, "9"),
      (.identifier, "a")] := by
  decide

end PlZero

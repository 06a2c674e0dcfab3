import PlZero.Proofs.Lexing.Reading

/-! # Tokens and the text they were read from

Every token of a text knows where it stands: its span cuts its lexeme out of the text, and its line
and column are those of the text before it.  Spans follow each other, and what lies between them is
blank, so the text can be rebuilt from the tokens and the gaps.  All of this is read off `Reading` by
induction.
-/

namespace PlZero

/-! ## Spans -/

namespace Token

/-- The offset at which a token starts. -/
def start (t : Token) : Nat := (t.loc.offset.getD 0).toNat

/-- The offset just behind a token. -/
def stop (t : Token) : Nat := t.start + t.lexeme.length

/-- The token stands in the text where it says it does. -/
structure StandsIn (file : String) (source : List Char) (t : Token) : Prop where
  file : t.loc.file = file
  offset : t.loc.offset = some (t.start : Int)
  nonempty : t.lexeme ≠ ""
  inside : t.stop ≤ source.length
  lexeme : t.lexeme.toList = (source.drop t.start).take t.lexeme.length
  line : t.loc.line = 1 + (source.take t.start).count '\n'
  column : t.loc.column = 1 + ((source.take t.start).reverse.takeWhile (· ≠ '\n')).length
  endLine : t.loc.endLine = some t.loc.line
  endColumn : t.loc.endColumn = some (t.loc.column + t.lexeme.length)

end Token

/-- The text from the offset `past` on, put together from the gaps and the lexemes. -/
def rebuild (source : List Char) (past : Nat) : List Token → List Char
  | [] => source.drop past
  | t :: ts => (source.take t.start).drop past ++ t.lexeme.toList ++ rebuild source t.stop ts

/-! ## Words and lines -/

theorem Vocabulary.noFeed {kind : Token.Kind} {w : List Char} (word : Vocabulary kind w) : '\n' ∉ w := by
  have noLetter : Text.isLetter '\n' = false := Text.isLetter_eq_false_of_lt (by decide)
  have noDigit : Text.isDigit '\n' = false := by decide
  have noSpecial : '\n' ∉ specials := by decide
  have noName : ∀ c cs, Text.isLetter c = true →
      (∀ d ∈ cs, Text.isLetter d = true ∨ Text.isDigit d = true) → '\n' ∉ c :: cs := by
    intro c cs letter inside member
    rcases List.mem_cons.mp member with rfl | behind
    · simp [noLetter] at letter
    · simpa [noLetter, noDigit] using inside _ behind
  intro member
  cases word with
  | integer _ digits => simpa [noDigit] using digits _ member
  | keyword letter inside | identifier letter inside => exact noName _ _ letter inside member
  | operator listed => exact noSpecial ((specials_of_listed (.inl listed)).2.2 member)
  | delimiter listed => exact noSpecial ((specials_of_listed (.inr listed)).2.2 member)

/-- No word goes on beyond its line. -/
theorem FirstWord.noFeed {kind : Token.Kind} {w rest cs : List Char} {c : Char}
    (first : FirstWord kind w rest) (noBlank : c ∉ [' ', '\t', '\n', '\r'])
    (divided : c :: cs = w ++ rest) : '\n' ∉ w := by
  cases first with
  | known word _ => exact word.noFeed
  | stranger =>
    obtain ⟨rfl, _⟩ := List.cons.inj divided
    intro feed
    rw [← List.mem_singleton.mp feed] at noBlank
    exact noBlank (by decide)

theorem FirstWord.ne_nil {kind : Token.Kind} {w rest : List Char} (first : FirstWord kind w rest) :
    w ≠ [] := by
  cases first with
  | known word _ => exact word.ne_nil
  | stranger => exact List.cons_ne_nil _ _

/-! ## One token -/

namespace Token

variable {file : String} {before w : List Char} {kind : Token.Kind}

@[simp] theorem lexeme_standing : (standing file before kind w).lexeme = String.ofList w := rfl

@[simp] theorem loc_standing : (standing file before kind w).loc =
    .span file (.behind before) (.behind (before ++ w)) := rfl

@[simp] theorem start_standing : (standing file before kind w).start = before.length := rfl

@[simp] theorem stop_standing : (standing file before kind w).stop = before.length + w.length := by
  simp [stop]

theorem standsIn_standing (nonempty : w ≠ []) (noFeed : '\n' ∉ w) (rest : List Char) :
    (standing file before kind w).StandsIn file (before ++ (w ++ rest)) where
  file := rfl
  offset := rfl
  nonempty := by
    intro empty
    exact nonempty (by simpa using congrArg String.toList empty)
  inside := by
    simp only [stop_standing, List.length_append]
    omega
  lexeme := by simp
  line := by simp [Location.span, Position.behind]
  column := by simp [Location.span, Position.behind]
  endLine := by simp [Location.span, Position.behind_append_of_noFeed noFeed]
  endColumn := by simp [Location.span, Position.behind_append_of_noFeed noFeed]

end Token

/-! ## All tokens -/

namespace Reading

variable {file : String} {before cs : List Char} {ts : List Token}

/-- Every token is a word behind the part of the text that was read before it. -/
theorem exists_standing (reading : Reading file before cs ts) :
    ∀ t ∈ ts, ∃ seen kind w rest, t = .standing file seen kind w ∧ before ++ cs = seen ++ (w ++ rest) ∧
      before.length ≤ seen.length ∧ w ≠ [] ∧ '\n' ∉ w := by
  induction reading with
  | done => simp
  | @blank before cs c ts _ _ ih =>
    intro t member
    obtain ⟨seen, kind, w, rest, same, divided, late, sound⟩ := ih t member
    rw [List.append_assoc] at divided
    rw [List.length_append] at late
    exact ⟨seen, kind, w, rest, same, divided, by omega, sound⟩
  | @word before cs w rest c kind ts noBlank divided first _ ih =>
    intro t member
    rw [divided]
    cases List.mem_cons.mp member with
    | inl same =>
      exact ⟨before, kind, w, rest, same, rfl, Nat.le_refl _, first.ne_nil, first.noFeed noBlank divided⟩
    | inr behind =>
      obtain ⟨seen, kind', w', rest', same, divided', late, sound⟩ := ih t behind
      rw [List.append_assoc] at divided'
      rw [List.length_append] at late
      exact ⟨seen, kind', w', rest', same, divided', by omega, sound⟩

theorem standsIn (reading : Reading file before cs ts) :
    ∀ t ∈ ts, t.StandsIn file (before ++ cs) ∧ before.length ≤ t.start := by
  intro t member
  obtain ⟨seen, kind, w, rest, rfl, divided, late, nonempty, noFeed⟩ := reading.exists_standing t member
  rw [divided]
  exact ⟨Token.standsIn_standing nonempty noFeed rest, late⟩

theorem pairwise (reading : Reading file before cs ts) :
    ts.Pairwise fun t u => t.stop ≤ u.start := by
  induction reading with
  | done => exact .nil
  | blank _ _ ih => exact ih
  | @word before cs w rest c kind ts _ _ _ onwards ih =>
    apply List.Pairwise.cons _ ih
    intro u member
    have late := (onwards.standsIn u member).2
    rw [List.length_append] at late
    rw [Token.stop_standing]
    exact late

/-- What no token covers is blank. -/
theorem blank_of_uncovered (reading : Reading file before cs ts) {i : Nat} {c : Char}
    (here : cs[i]? = some c)
    (uncovered : ∀ t ∈ ts, ¬ (t.start ≤ before.length + i ∧ before.length + i < t.stop)) :
    c ∈ [' ', '\t', '\n', '\r'] := by
  induction reading generalizing i with
  | done => cases here
  | @blank before cs b ts blank _ ih =>
    cases i with
    | zero =>
      obtain rfl : b = c := by simpa using here
      exact blank
    | succ i =>
      apply ih (i := i) (by simpa using here)
      intro t member covered
      rw [List.length_append, List.length_singleton] at covered
      exact uncovered t member (by omega)
  | @word before cs w rest b kind ts _ divided _ _ ih =>
    have first := uncovered _ List.mem_cons_self
    rw [Token.start_standing, Token.stop_standing] at first
    -- the character lies behind the first word
    obtain ⟨j, rfl⟩ : ∃ j, i = w.length + j := ⟨i - w.length, by omega⟩
    rw [divided, List.getElem?_append_right (Nat.le_add_right _ _), Nat.add_sub_cancel_left] at here
    apply ih here
    intro t member covered
    rw [List.length_append] at covered
    exact uncovered t (List.mem_cons_of_mem _ member) (by omega)

theorem rebuild_eq (reading : Reading file before cs ts) :
    ∀ past ≤ before.length, rebuild (before ++ cs) past ts = (before ++ cs).drop past := by
  induction reading with
  | done =>
    intro past _
    rfl
  | @blank before cs c ts _ _ ih =>
    intro past early
    have onwards := ih past (by rw [List.length_append]; omega)
    rw [List.append_assoc] at onwards
    exact onwards
  | @word before cs w rest c kind ts _ divided _ _ ih =>
    intro past early
    have onwards := ih _ (Nat.le_refl _)
    rw [List.append_assoc, List.length_append] at onwards
    rw [divided, rebuild, Token.stop_standing, onwards]
    simp [List.drop_append_of_le_length early]

end Reading

/-- Nothing is lost in reading a text, and every token knows its place.  The span of a token cuts its
lexeme out of the text, spans follow each other, all characters outside of them are blanks, and the
text is its gaps and lexemes in a row. -/
theorem tokenize_lossless (source file : String) :
    (∀ t ∈ tokenize source file, t.StandsIn file source.toList) ∧
      (tokenize source file).Pairwise (fun t u => t.stop ≤ u.start) ∧
      (∀ (i : Nat) (c : Char), source.toList[i]? = some c →
        (∀ t ∈ tokenize source file, ¬ (t.start ≤ i ∧ i < t.stop)) → c ∈ [' ', '\t', '\n', '\r']) ∧
      rebuild source.toList 0 (tokenize source file) = source.toList := by
  have reading := tokenize_reading source file
  refine ⟨fun t member => (reading.standsIn t member).1, reading.pairwise, ?_, ?_⟩
  · intro i c here uncovered
    exact reading.blank_of_uncovered here (by simpa using uncovered)
  · exact reading.rebuild_eq 0 (Nat.le_refl 0)

end PlZero

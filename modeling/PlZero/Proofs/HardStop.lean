import PlZero.Proofs.Tandem.Productions

/-! # A period is a hard stop

What follows a period has no say in how the tokens before it are read.  It need not even be readable: an
integer behind the period may have any lexeme, for its value is never asked for.  All it can come to is the
warning that there is something behind the program.
-/

namespace PlZero

namespace Parser

/-- The tokens `ts` and the period `d`, once with nothing and once with `rest` behind them. -/
def stopAt (limit nesting : Int) (file : String) (ts : List Token) {d : Token}
    (period : d.isDelimiter "." = true) (rest : List Token) : Tandem where
  cx := .ofTokens ⟨.number limit, nesting⟩ file (ts ++ [d])
  cx' := .ofTokens ⟨.number limit, nesting⟩ file (ts ++ d :: rest)
  tail := [d]
  tail' := d :: rest
  nesting := rfl
  head := rfl
  front := rfl
  stop := by
    intro t first
    obtain rfl := Option.mem_some.mp first
    exact period
  excuse _ := False
  integer {t} readable integer := by
    obtain ⟨n, _, text⟩ := readable.value_eq integer
    exact ⟨_, _, integerValue_apply rfl text, .inr rfl⟩

theorem severity_of_mem_trailing {left : List Token} {w : Diagnostic} (member : w ∈ trailing left) :
    w.severity = .warning := by
  cases left with
  | nil => cases member
  | cons t ts =>
    obtain rfl := List.mem_singleton.mp member
    rfl

theorem length_trailing_le (left : List Token) : (trailing left).length ≤ 1 := by
  cases left with
  | nil => exact Nat.zero_le 1
  | cons t ts => exact Nat.le_refl 1

/-- A warning about what is left is no error. -/
theorem errors_append_trailing (ds : List Diagnostic) (left : List Token) :
    (ds ++ trailing left).filter Diagnostic.isError = ds.filter Diagnostic.isError := by
  have none : (trailing left).filter Diagnostic.isError = [] := by
    rw [List.filter_eq_nil_iff]
    intro w member
    simp [(recovery_of_mem_trailing member).2]
  rw [List.filter_append, none, List.append_nil]

end Parser

open PlZero.Parser in
/-- Tokens up to a period are read as the same tree, locations included, whatever tokens follow the
period.  The errors are the same too, and at most one more complaint is made: a warning that what follows
is ignored. -/
theorem parseTokens_hard_stop (limit nesting : Int) (file : String) (ts : List Token) (d : Token)
    (rest : List Token) (readable : ∀ t ∈ ts, t.Readable) (period : d.isDelimiter "." = true) :
    ∃ p log log' added,
      parseTokens ⟨.number limit, nesting⟩ file (ts ++ [d]) = .ok (p, log) ∧
      parseTokens ⟨.number limit, nesting⟩ file (ts ++ d :: rest) = .ok (p, log') ∧
      log'.errors = log.errors ∧ log'.entries = log.entries ++ added ∧
      added.length ≤ 1 ∧ ∀ w ∈ added, w.severity = .warning ∧ w.recovery = some .ignored := by
  have readable' : ∀ t ∈ ts ++ [d], t.Readable := by
    intro t member
    rcases List.mem_append.mp member with before | last
    · exact readable t before
    · obtain rfl := List.mem_singleton.mp last
      intro integer
      rw [Token.kind_of_isDelimiter period] at integer
      cases integer
  obtain ⟨p, log, parsed⟩ := exists_parseTokens_eq_ok limit nesting file readable'
  have ends := parseTokens_inStep (stopAt limit nesting file ts period rest) rfl rfl readable parsed
  simp only [stopAt, List.tail_cons] at ends
  rcases ends with ⟨_, _, never⟩ | ⟨log', parsed', same | ⟨before, entries, entries'⟩⟩
  · exact never.elim
  · subst same
    refine ⟨p, log', log', [], parsed, parsed', rfl, (List.append_nil _).symm, Nat.zero_le 1, ?_⟩
    intro w member
    cases member
  · have grown : log'.entries = log.entries ++ trailing rest := by
      rw [entries', entries, trailing, List.append_nil]
    refine ⟨p, log, log', trailing rest, parsed, parsed', ?_, grown, length_trailing_le rest, ?_⟩
    · rw [Log.errors, grown, errors_append_trailing, Log.errors]
    · intro w member
      exact ⟨severity_of_mem_trailing member, (recovery_of_mem_trailing member).1⟩

/-- A compound and a parenthesis that are never closed, then a period, and behind it an integer that cannot
be read. -/
theorem parseTokens_hard_stop_unreadable :
    let ts : List Token := [⟨.keyword, "begin", .nowhere⟩, ⟨.identifier, "x", .nowhere⟩,
      ⟨.operator, ":=", .nowhere⟩, ⟨.delimiter, "(", .nowhere⟩, ⟨.integer, "12", .nowhere⟩]
    let d : Token := ⟨.delimiter, ".", .nowhere⟩
    let rest : List Token := [⟨.integer, "x", .nowhere⟩, ⟨.delimiter, ".", .nowhere⟩]
    (∀ t ∈ ts, t.Readable) ∧ d.isDelimiter "." = true ∧ (∃ t ∈ rest, ¬ t.Readable) ∧
    ∃ p log log' added,
      parseTokens ⟨.number 9, 5⟩ "" (ts ++ [d]) = .ok (p, log) ∧
      parseTokens ⟨.number 9, 5⟩ "" (ts ++ d :: rest) = .ok (p, log') ∧
      log'.errors = log.errors ∧ log'.entries = log.entries ++ added ∧
      added.length ≤ 1 ∧ ∀ w ∈ added, w.severity = .warning ∧ w.recovery = some .ignored := by
  intro ts d rest
  have readable : ∀ t ∈ ts, t.Readable := by
    simp [ts, Token.Readable, Text.IsDigits, Text.isDigit]
  have unreadable : ∃ t ∈ rest, ¬ t.Readable := by
    simp [rest, Token.Readable, Text.IsDigits, Text.isDigit]
  exact ⟨readable, rfl, unreadable, parseTokens_hard_stop 9 5 "" ts d rest readable rfl⟩

end PlZero

import PlZero.Proofs.Program

/-! # Silence means that the program is grammatical

A list of tokens that is parsed without an error starts with a grammatical program, which ends with
the first period of the list, and the tree that comes out is that program.  No way to go on after a
problem is silent, so nothing else is accepted by mistake.
-/

namespace PlZero

open PlZero.Parser in
/-- Any tokens whose integers are made of digits are parsed to the end.  If no error is reported,
they are the words of a grammatical program within the limits, up to the first period, and the only
complaint there may be is that something follows. -/
theorem parseTokens_grammatical_of_silent (limit nesting : Int) (file : String) (ts : List Token)
    (readable : ∀ t ∈ ts, t.Readable) :
    ∃ p log, parseTokens ⟨.number limit, nesting⟩ file ts = .ok (p, log) ∧
      (log.errors = [] → ∃ before period after, ts = before ++ period :: after ∧
        period.isDelimiter "." = true ∧ (∀ t ∈ before, t.isDelimiter "." = false) ∧
        (before ++ [period]).map Token.word = p.words ∧ p.Grammatical ∧
        (∀ v ∈ p.literals, v.AtMost limit) ∧ (p.depth : Int) ≤ nesting ∧
        log.entries = trailing after) := by
  rcases parseTokens_accounts limit nesting file readable rfl with
    ⟨b, ds, left, trail, result, spelled⟩ | ⟨ds, left, _, result⟩
  · refine ⟨_, _, result, fun noErrors => ?_⟩
    have silent : ∀ d ∈ ds, d.isError = false := fun d member => by
      simpa using List.filter_eq_nil_iff.mp noErrors d (List.mem_append_left _ member)
    obtain ⟨ws, mended, good⟩ := spelled fun d member =>
      trail.mendable_of_not_isError d member (silent d member)
    obtain rfl := mended.eq_nil_of_not_isError silent
    obtain ⟨taken, rfl, words⟩ := mended.eq_of_nil
    obtain ⟨before, last, rfl, inside, single⟩ := List.map_eq_append_iff.mp words
    obtain ⟨period, rfl, word⟩ := List.map_eq_singleton_iff.mp single
    refine ⟨before, period, left, by simp, Token.word_eq_delimiter_iff.mp word, fun t member => ?_,
      ?_, good.grammatical, good.literals, ?_, rfl⟩
    · -- a block has no period, so this is the first
      have inner := good.grammatical.inner t.word (good.words ▸ inside ▸ List.mem_map_of_mem member)
      by_contra isPeriod
      exact inner.noPeriod (Token.word_eq_delimiter_iff.mpr (by simpa using isPeriod))
    · rw [words, ← good.words]
      rfl
    · have depth : b.depth ≤ nesting.toNat := good.depth
      have positive := b.depth_pos
      show (b.depth : Int) ≤ nesting
      omega
  · refine ⟨_, _, result, fun noErrors => ?_⟩
    have impossible := List.filter_eq_nil_iff.mp noErrors _ (List.mem_append_right _ List.mem_cons_self)
    exact absurd rfl impossible

open PlZero.Parser in
/-- An assignment with superfluous zeros, and something behind the period. -/
theorem parseTokens_grammatical_of_silent_with_rest :
    let ts : List Token := [(.identifier, "x"), (.operator, ":="), (.integer, "007"),
      (.delimiter, "."), (.identifier, "y")].map fun w => ⟨w.1, w.2, .nowhere⟩
    (∀ t ∈ ts, t.Readable) ∧ ∃ p log, parseTokens ⟨.number 9, 5⟩ "" ts = .ok (p, log) ∧
      log.errors = [] ∧ ∃ before period after, ts = before ++ period :: after ∧
        period.isDelimiter "." = true ∧ (∀ t ∈ before, t.isDelimiter "." = false) ∧
        (before ++ [period]).map Token.word = p.words ∧ p.Grammatical ∧
        (∀ v ∈ p.literals, v.AtMost 9) ∧ (p.depth : Int) ≤ 5 ∧ log.entries = trailing after := by
  intro ts
  have readable : ∀ t ∈ ts, t.Readable := by
    simp [ts, Token.Readable, Text.IsDigits, Text.isDigit]
  obtain ⟨p, log, result, silent⟩ := parseTokens_grammatical_of_silent 9 5 "" ts readable
  have noErrors : log.errors = [] := by
    have evaluated : (parseTokens ⟨.number 9, 5⟩ "" ts).toOption.map (fun r => r.2.errors) = some [] := by
      decide
    simpa [result, Except.toOption] using evaluated
  exact ⟨readable, p, log, result, noErrors, silent noErrors⟩

end PlZero

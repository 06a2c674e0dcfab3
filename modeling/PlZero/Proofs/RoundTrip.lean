import PlZero.Proofs.Program

/-! # Programs are read back from their words

A grammatical program that is written out and parsed comes back as it was, but for locations, and
nothing is reported.  The limit on nesting is exact: it is passed if and only if the tree is deeper
than it, and then the reading is given up with that one complaint.
-/

namespace PlZero

namespace Parser

/-- The tokens of a grammatical program can be read. -/
theorem readable_of_words {p : Program} (grammatical : p.Grammatical) {ts : List Token}
    (written : ts.map Token.word = p.words) : ∀ t ∈ ts, t.Readable := by
  intro t member
  have word : t.word ∈ p.words := written ▸ List.mem_map_of_mem member
  rcases List.mem_append.mp word with inside | period
  · exact (Block.Grammatical.inner grammatical t.word inside).readable
  · have delimiter := Token.word_eq_delimiter_iff.mp (List.mem_singleton.mp period)
    intro integer
    simp [Token.isDelimiter, integer] at delimiter

/-- A program that was read in silence nests no deeper than allowed. -/
theorem depth_le_of_silent {limit nesting : Int} {file : String} {ts : List Token} {b : Block}
    {loc : Location} (readable : ∀ t ∈ ts, t.Readable)
    (silent : parseTokens ⟨.number limit, nesting⟩ file ts = .ok (⟨b, loc⟩, ⟨[]⟩)) :
    b.depth ≤ nesting.toNat := by
  rcases parseTokens_accounts limit nesting file readable rfl with
    ⟨b', ds, left, _, result, spelled⟩ | ⟨ds, left, _, result⟩
  · obtain ⟨programs, logs⟩ := Prod.mk.inj (Except.ok.inj (silent.symm.trans result))
    obtain ⟨rfl, _⟩ := Program.mk.inj programs
    obtain ⟨rfl, _⟩ := List.append_eq_nil_iff.mp (Log.mk.inj logs).symm
    obtain ⟨ws, _, good⟩ := spelled (by simp)
    exact good.depth
  · have logs := (Prod.mk.inj (Except.ok.inj (silent.symm.trans result))).2
    simp at logs

end Parser

open PlZero.Parser in
/-- The tokens of a grammatical program, wherever they stand, are parsed as that program without a
word, if it nests no deeper than the limit; and if it nests deeper, as the program without content
and with the complaint about nesting alone. -/
theorem parseTokens_roundTrip (p : Program) (grammatical : p.Grammatical) (limit nesting : Int)
    (within : ∀ v ∈ p.literals, v.AtMost limit) (file : String) (ts : List Token)
    (written : ts.map Token.word = p.words) :
    ((p.depth : Int) ≤ nesting → ∃ q, q.bare = p.bare ∧
      parseTokens ⟨.number limit, nesting⟩ file ts = .ok (q, ⟨[]⟩)) ∧
    (nesting < p.depth → ∃ t ts' loc, ts = t :: ts' ∧
      parseTokens ⟨.number limit, nesting⟩ file ts =
        .ok (abandoned t.loc, ⟨[Complaint.tooDeep nesting loc]⟩)) := by
  have outcome := parseTokens_reads limit nesting file grammatical within written [] rfl
  rw [List.append_nil] at outcome
  constructor
  · intro fits
    rcases outcome with ⟨b, bare, result⟩ | ⟨overflow, _⟩
    · exact ⟨_, by simp [Program.bare, bare], result⟩
    · exact absurd (by omega) overflow
  · intro overflow
    obtain ⟨t, ts', rfl⟩ : ∃ t ts', ts = t :: ts' := by
      cases ts with
      | nil => simp [Program.words] at written
      | cons t ts' => exact ⟨t, ts', rfl⟩
    rcases outcome with ⟨b, bare, silent⟩ | ⟨_, loc, result⟩
    · -- what was read is as deep as the program, and it was allowed to be
      have depth : b.depth = p.depth := by rw [← Block.depth_bare, bare, Block.depth_bare]; rfl
      have allowed := depth_le_of_silent (readable_of_words grammatical written) silent
      have positive := b.depth_pos
      exact absurd allowed (by omega)
    · exact ⟨t, ts', loc, rfl, result⟩

open PlZero.Parser in
/-- A branch of four levels whose first half is a loop around nothing, at the limit and beyond. -/
theorem parseTokens_roundTrip_at_limit :
    let p : Program := ⟨⟨[⟨"n", .number 7, .nowhere⟩], [], [],
      .branch (.odd (.name "n" .nowhere) .nowhere)
        (.loop (.relation .lt (.name "n" .nowhere) (.integer (.number 2) .nowhere) .nowhere)
          (.empty .nowhere) .nowhere)
        (some (.assign "x" (.group (.integer (.number 0) .nowhere) .nowhere) .nowhere)) .nowhere,
      .nowhere⟩, .nowhere⟩
    let ts : List Token := [(.keyword, "const"), (.identifier, "n"), (.operator, "="),
      (.integer, "7"), (.delimiter, ";"), (.keyword, "if"), (.keyword, "odd"), (.identifier, "n"),
      (.keyword, "then"), (.keyword, "while"), (.identifier, "n"), (.operator, "<"),
      (.integer, "2"), (.keyword, "do"), (.identifier, "else"), (.identifier, "x"),
      (.operator, ":="), (.delimiter, "("), (.integer, "0"), (.delimiter, ")"),
      (.delimiter, ".")].map fun w => ⟨w.1, w.2, .nowhere⟩
    p.depth = 4 ∧
    (∃ q, q.bare = p.bare ∧ parseTokens ⟨.number 7, 4⟩ "" ts = .ok (q, ⟨[]⟩)) ∧
    ∃ t ts' loc, ts = t :: ts' ∧
      parseTokens ⟨.number 7, 3⟩ "" ts = .ok (abandoned t.loc, ⟨[Complaint.tooDeep 3 loc]⟩) := by
  intro p ts
  have grammatical : p.Grammatical := by
    refine .mk (by simp [ConstDecl.Grammatical]) (by simp) (.branchElse (.odd (.ofTerm (.ofFactor .name)))
      (.loop (.relation (.ofTerm (.ofFactor .name)) (.ofTerm (.ofFactor (.integer (by decide)))))
        .empty) rfl (.assign (by decide) (.ofTerm (.ofFactor (.group (.ofTerm (.ofFactor
          (.integer (by decide)))))))))
  have within : ∀ v ∈ p.literals, v.AtMost 7 := by
    simp [p, Program.literals, Block.literals, Stmt.literals, Stmt.literalsOption, Condition.literals,
      Expr.literals, Procedure.literalsList, Quantity.AtMost]
  have written : ts.map Token.word = p.words := by decide
  exact ⟨rfl, (parseTokens_roundTrip p grammatical 7 4 within "" ts written).1 (by decide),
    (parseTokens_roundTrip p grammatical 7 3 within "" ts written).2 (by decide)⟩

end PlZero

import PlZero.Node.Written
import PlZero.Proofs.Account.Expression
import PlZero.Proofs.Complete.Expression
import PlZero.Proofs.Lexing.Writing
import PlZero.Proofs.Sessions

/-! # Expressions that are written out are read again

An expression that was read in silence, once written out, is read as the same words and then as the same
expression.  Two things have to be known for it.  The words that are written do not run into each other
(`Expr.Grammatical.lexes`): a blank stands on both sides of an operator between operands, while signs and
parentheses, which have none, go on with nothing.  And no parentheses are missing, because a grammatical
expression is read back from its words (`Parser.expression_reads`).
-/

namespace PlZero

/-! ## From the tree to the words -/

theorem Sign.vocabulary (s : Sign) : Vocabulary .operator s.symbol.toList := by
  cases s <;> exact .operator (by decide)

theorem BinOp.vocabulary (op : BinOp) : Vocabulary .operator op.symbol.toList := by
  cases op <;> exact .operator (by decide)

theorem Sign.goesOn_symbol (s : Sign) (d : Char) : goesOn s.symbol.toList d = false := by
  cases s <;> rfl

/-- A grammatical expression is written as the words that it consists of, if its names are names. -/
theorem Expr.Grammatical.lexes {layer : Expr.Layer} {e : Expr} (grammatical : e.Grammatical layer)
    (names : ∀ w ∈ e.words, w.1 = .identifier → Vocabulary .identifier w.2.toList) :
    Lexes e.written e.words := by
  induction grammatical with
  | integer natural =>
    obtain ⟨n, rfl⟩ := Int.eq_ofNat_of_zero_le natural
    exact .word (.integer (Text.toList_repr_ne_nil n) (Text.isDigits_repr n))
  | name => exact .word (names _ List.mem_cons_self rfl)
  | group _ ih =>
    have inner := ih fun w member => names w (by simp [Expr.words, member])
    have opening : Vocabulary .delimiter "(".toList := .delimiter (by decide)
    exact .close (.cons opening (fun _ => rfl) inner)
  | ofFactor _ ih | ofTerm _ ih => exact ih names
  | @signed s e loc _ ih =>
    have operand := ih fun w member => names w (by simp [Expr.words, member])
    exact .cons s.vocabulary s.goesOn_symbol operand
  | @product op l r loc _ _ _ ihl ihr | @sum op l r loc _ _ _ ihl ihr =>
    have left := ihl fun w member => names w (by simp [Expr.words, member])
    have right := ihr fun w member => names w (by simp [Expr.words, member])
    -- the blanks end the words on both sides, whichever they are
    have whole := (left.space (.word op.vocabulary)).space right
    rwa [List.append_assoc] at whole

/-! ## From the words to the tree -/

theorem map_word_of_spelling {ts : List Token} {ws : List Word}
    (plain : ∀ w ∈ ws, w.1 = .integer → Text.stripZeros w.2 = w.2)
    (spelled : ts.map (fun t => (t.kind, t.lexeme)) = ws) : ts.map Token.word = ws := by
  subst spelled
  apply List.map_congr_left
  intro t member
  have same := plain _ (List.mem_map_of_mem member)
  by_cases integer : t.kind = .integer
  · rw [Token.word, if_pos integer, same integer]
  · rw [Token.word, if_neg integer]

theorem stripZeros_of_mem_words {ts : List Token} (readable : ∀ t ∈ ts, t.Readable) :
    ∀ w ∈ ts.map Token.word, w.1 = .integer → Text.stripZeros w.2 = w.2 := by
  intro w member integer
  obtain ⟨t, inside, rfl⟩ := List.mem_map.mp member
  have kind : t.kind = .integer := integer
  rw [Token.word, if_pos kind]
  exact Text.stripZeros_stripZeros (readable t inside kind)

theorem vocabulary_of_mem_words {ts : List Token}
    (words : ∀ t ∈ ts, t.kind = .unknown ∨ Vocabulary t.kind t.lexeme.toList) :
    ∀ w ∈ ts.map Token.word, w.1 = .identifier → Vocabulary .identifier w.2.toList := by
  intro w member identifier
  obtain ⟨t, inside, rfl⟩ := List.mem_map.mp member
  have kind : t.kind = .identifier := identifier
  have word := words t inside
  rw [kind] at word
  cases word with
  | inl unknown => cases unknown
  | inr known => simpa [Token.word, kind] using known

namespace Session

variable {limit nesting : Int} {file : String} {ts : List Token} {e : Expr} {s' : Session}

theorem call_expression_eq_ok_iff (limits : Limits) :
    (start limits file ts).call .expression = (.ok (.expr e), s') ↔ ∃ state,
      Parser.expression (.ofTokens limits file ts) limits.maxNesting.toNat ⟨ts, 0, {}⟩ = .ok e state ∧
        ⟨ts, .ofTokens limits file ts, state⟩ = s' := by
  have room : (start limits file ts).room = limits.maxNesting.toNat := by simp [room, start]
  rw [call, room, Production.parser, Parser.map_apply]
  change _ ↔ ∃ state, Parser.expression (start limits file ts).context limits.maxNesting.toNat
    (start limits file ts).state = .ok e state ∧ { start limits file ts with state := state } = s'
  cases Parser.expression (start limits file ts).context limits.maxNesting.toNat
      (start limits file ts).state with
  | ok e' state => simp
  | error h state => simp

/-- An expression that is read in silence consists of the tokens that are taken. -/
theorem spelled_of_silent (readable : ∀ t ∈ ts, t.Readable)
    (parsed : (start ⟨.number limit, nesting⟩ file ts).call .expression = (.ok (.expr e), s'))
    (silent : s'.state.log.entries = []) :
    ∃ taken left, ts = taken ++ left ∧ taken.length = s'.pos ∧
      e.Spelled limit nesting.toNat .sum (taken.map Token.word) := by
  obtain ⟨state, run, rfl⟩ := (call_expression_eq_ok_iff _).mp parsed
  have limited : (Parser.Context.ofTokens ⟨.number limit, nesting⟩ file ts).limits.maxInteger =
      .number limit := rfl
  have account := Parser.expression_accounts limited nesting.toNat ts readable 0 {}
  rw [run] at account
  obtain ⟨_, ds, grown, _, mended⟩ := account
  -- nothing was reported, so there was nothing to mend
  obtain rfl : ds = [] := by simpa using grown.symm.trans silent
  obtain ⟨ws, mended, spelled⟩ := mended (by simp)
  obtain ⟨taken, divided, rfl⟩ := mended.eq_of_nil
  refine ⟨taken, state.rest, divided, ?_, spelled⟩
  have lengths := congrArg List.length divided
  simp only [pos, List.length_append] at lengths ⊢
  omega

/-- The tokens that an expression consists of are read as that expression, all of them and in silence. -/
theorem call_expression_of_spelled {ws : List Word} (spelled : e.Spelled limit nesting.toNat .sum ws)
    (file : String) (written : ts.map Token.word = ws) :
    ∃ e' s', (start ⟨.number limit, nesting⟩ file ts).call .expression = (.ok (.expr e'), s') ∧
      e'.bare = e.bare ∧ s'.state.log.entries = [] ∧ s'.pos = ts.length := by
  have limited : (Parser.Context.ofTokens ⟨.number limit, nesting⟩ file ts).limits.maxInteger =
      .number limit := rfl
  have ends : Parser.EndsExpression [] := Parser.endsExpression_of_kind (by simp)
  have reads := Parser.expression_reads limited spelled.grammatical spelled.literals
    (fun _ : True => spelled.depth) ts [] (by rw [written, spelled.words]) ends 0 {}
  rw [List.append_nil] at reads
  cases reads with
  | inl read =>
    obtain ⟨e', run, bare⟩ := read
    exact ⟨e', _, (call_expression_eq_ok_iff _).mpr ⟨_, run, rfl⟩, bare, rfl, rfl⟩
  -- the expression was read under the same limit before, so its nesting fits
  | inr gaveUp => exact absurd trivial gaveUp.1

/-- An expression that is read in silence from the front of a text is written out as the words that were
taken for it, and from these it is read again, with none of them left and in silence. -/
theorem call_expression_written (limit nesting : Int) (file source file' : String) (e : Expr) (s' : Session)
    (parsed : (start ⟨.number limit, nesting⟩ file (tokenize source file)).call .expression =
      (.ok (.expr e), s'))
    (silent : s'.state.log.entries = []) :
    ∃ text, e.toNode.written = .ok text ∧ (tokenize text file').length = s'.pos ∧
      (tokenize text file').map (fun t => (t.kind, t.lexeme)) =
        ((tokenize source file).take s'.pos).map Token.word ∧
      ∃ e' s'', (start ⟨.number limit, nesting⟩ file' (tokenize text file')).call .expression =
          (.ok (.expr e'), s'') ∧
        e'.bare = e.bare ∧ s''.state.log.entries = [] ∧ s''.pos = (tokenize text file').length := by
  have readable : ∀ t ∈ tokenize source file, t.Readable :=
    Scanner.readable_of_mem_tokens (.ofText file source)
  obtain ⟨taken, left, divided, front, spelled⟩ := spelled_of_silent readable parsed silent
  have inside : taken ⊆ tokenize source file := by
    rw [divided]
    exact List.subset_append_left taken left
  -- names come from the text, so they are names in what is written too
  have names := vocabulary_of_mem_words fun t member =>
    (tokenize_reading source file).vocabulary t (inside member)
  have lexes : Lexes e.written (taken.map Token.word) := by
    rw [← spelled.words] at names ⊢
    exact spelled.grammatical.lexes names
  have words := lexes.map_tokenize file'
  have written := map_word_of_spelling
    (stripZeros_of_mem_words fun t member => readable t (inside member)) words
  refine ⟨e.written, e.written_toNode, ?_, ?_, call_expression_of_spelled spelled file' written⟩
  · rw [← front]
    simpa using congrArg List.length words
  · rw [words, divided, ← front, List.take_left]

/-- Superfluous zeros and blanks are gone, and the relation behind the expression is not taken. -/
theorem call_expression_written_signed :
    let ts := tokenize "-(007-x)*2+\ny<z" ""
    ∃ e s', (start ⟨.number 7, 1⟩ "" ts).call .expression = (.ok (.expr e), s') ∧
      s'.state.log.entries = [] ∧ s'.pos = 10 ∧
      ∃ text, e.toNode.written = .ok text ∧ (tokenize text "").length = s'.pos ∧
        (tokenize text "").map (fun t => (t.kind, t.lexeme)) = (ts.take s'.pos).map Token.word ∧
        ∃ e' s'', (start ⟨.number 7, 1⟩ "" (tokenize text "")).call .expression = (.ok (.expr e'), s'') ∧
          e'.bare = e.bare ∧ s''.state.log.entries = [] ∧ s''.pos = (tokenize text "").length := by
  intro ts
  have evaluated : (match (start ⟨.number 7, 1⟩ "" ts).call .expression with
      | (.ok (.expr _), s') => decide (s'.state.log.entries = [] ∧ s'.pos = 10)
      | _ => false) = true := by
    decide +kernel
  split at evaluated
  · next e s' parsed =>
    obtain ⟨silent, position⟩ := of_decide_eq_true evaluated
    exact ⟨e, s', parsed, silent, position, call_expression_written 7 1 "" _ "" e s' parsed silent⟩
  · cases evaluated

end Session

end PlZero

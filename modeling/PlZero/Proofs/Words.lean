import PlZero.Proofs.Grammar
import PlZero.Proofs.Numerals

/-! # Tokens and the words they stand for

The parser asks for tokens by kind and lexeme, the grammar by words.  The two agree: every question
of the parser is settled by the word, and the readers of operators and section keywords are the
inverses of how these are written.  The words of a block are of a sort that makes programs easy to
tell apart: no period is among them, and their numbers are made of digits.
-/

namespace PlZero

namespace Token

variable {t : Token}

theorem isKeyword_iff {w : String} : t.isKeyword w = true ↔ t.kind = .keyword ∧ t.lexeme = w := by
  simp [Token.isKeyword]

theorem word_eq_keyword_iff {w : String} : t.word = .keyword w ↔ t.isKeyword w = true := by
  grind [Token.word, Word.keyword, Token.isKeyword]

theorem word_eq_operator_iff {symbol : String} :
    t.word = .operator symbol ↔ t.isOperator symbol = true := by
  grind [Token.word, Word.operator, Token.isOperator]

theorem word_eq_delimiter_iff {symbol : String} :
    t.word = .delimiter symbol ↔ t.isDelimiter symbol = true := by
  grind [Token.word, Word.delimiter, Token.isDelimiter]

theorem word_eq_identifier_iff {name : String} :
    t.word = .identifier name ↔ t.kind = .identifier ∧ t.lexeme = name := by
  grind [Token.word, Word.identifier]

theorem word_eq_number_iff {v : Quantity} :
    t.word = .number v ↔ t.kind = .integer ∧ Text.stripZeros t.lexeme = v.text := by
  grind [Token.word, Word.number]

end Token

/-! ## Operators and section keywords -/

theorem Sign.ofToken?_eq_some_iff {t : Token} {s : Sign} :
    Sign.ofToken? t = some s ↔ t.isOperator s.symbol = true := by
  cases s <;> grind [Sign.ofToken?, Token.isOperator, Sign.symbol]

theorem BinOp.additive?_eq_some_iff {t : Token} {op : BinOp} :
    BinOp.additive? t = some op ↔ op.layer = .sum ∧ t.isOperator op.symbol = true := by
  cases op <;> grind [BinOp.additive?, Token.isOperator, BinOp.symbol, BinOp.layer]

theorem BinOp.multiplicative?_eq_some_iff {t : Token} {op : BinOp} :
    BinOp.multiplicative? t = some op ↔ op.layer = .term ∧ t.isOperator op.symbol = true := by
  cases op <;> grind [BinOp.multiplicative?, Token.isOperator, BinOp.symbol, BinOp.layer]

theorem RelOp.ofToken?_eq_some_iff {t : Token} {op : RelOp} :
    RelOp.ofToken? t = some op ↔ t.isOperator op.symbol = true := by
  cases op <;> grind [RelOp.ofToken?, Token.isOperator, RelOp.symbol]

theorem Section.ofToken?_eq_some_iff {t : Token} {s : Section} :
    Section.ofToken? t = some s ↔ t.isKeyword s.word = true := by
  cases s <;> grind [Section.ofToken?, Token.isKeyword, Section.word]

/-! ## Words of blocks -/

/-- Whether a word can stand inside a block. -/
structure Word.Inner (w : Word) : Prop where
  noPeriod : w ≠ .delimiter "."
  digits : w.1 = .integer → Text.IsDigits w.2

/-- A token that stands for a word of a block can be read. -/
theorem Word.Inner.readable {t : Token} (inner : t.word.Inner) : t.Readable := by
  intro integer
  have digits := inner.digits integer
  simp only [Token.word, integer, if_true] at digits
  exact Text.isDigits_of_stripZeros digits

namespace Word

@[simp] theorem inner_keyword (word : String) : Inner (.keyword word) := ⟨nofun, nofun⟩

@[simp] theorem inner_operator (symbol : String) : Inner (.operator symbol) := ⟨nofun, nofun⟩

@[simp] theorem inner_identifier (name : String) : Inner (.identifier name) := ⟨nofun, nofun⟩

@[simp] theorem inner_delimiter {symbol : String} : Inner (.delimiter symbol) ↔ symbol ≠ "." :=
  ⟨fun inner same => inner.noPeriod (same ▸ rfl), fun other => ⟨by simpa [delimiter], nofun⟩⟩

theorem inner_number {n : Int} (natural : 0 ≤ n) : Inner (.number (.number n)) := by
  obtain ⟨n, rfl⟩ := Int.eq_ofNat_of_zero_le natural
  exact ⟨nofun, fun _ => Text.isDigits_repr n⟩

/-- Whether words can stand in a row inside a block. -/
def AllInner (ws : List Word) : Prop := ∀ w ∈ ws, w.Inner

@[simp] theorem allInner_nil : AllInner [] := nofun

@[simp] theorem allInner_cons {w : Word} {ws : List Word} :
    AllInner (w :: ws) ↔ w.Inner ∧ AllInner ws := List.forall_mem_cons

@[simp] theorem allInner_append {ws ws' : List Word} :
    AllInner (ws ++ ws') ↔ AllInner ws ∧ AllInner ws' := List.forall_mem_append

end Word

open Word (AllInner)

-- a syntactic class at a time, the words of each from those of its parts

theorem Expr.Grammatical.inner {layer : Expr.Layer} {e : Expr} (grammatical : e.Grammatical layer) :
    AllInner e.words := by
  induction grammatical with
  | integer natural => simpa [Expr.words] using Word.inner_number natural
  | name => simp [Expr.words]
  | ofFactor _ ih | ofTerm _ ih => exact ih
  | group _ ih | signed _ ih => simp [Expr.words, ih]
  | product _ _ _ ihl ihr | sum _ _ _ ihl ihr => simp [Expr.words, ihl, ihr]

theorem Condition.Grammatical.inner {c : Condition} (grammatical : c.Grammatical) :
    AllInner c.words := by
  cases grammatical with
  | odd operand => simp [Condition.words, operand.inner]
  | relation left right => simp [Condition.words, left.inner, right.inner]

theorem Stmt.inner_wordsBehind {ss : List Stmt} (each : ∀ s ∈ ss, AllInner s.words) :
    AllInner (Stmt.wordsBehind ss) := by
  induction ss with
  | nil => simp [Stmt.wordsBehind]
  | cons s ss ih =>
    have others := ih fun s' member => each s' (List.mem_cons_of_mem _ member)
    simp [Stmt.wordsBehind, each s, others]

theorem Stmt.Grammatical.inner {s : Stmt} (grammatical : s.Grammatical) : AllInner s.words := by
  induction grammatical with
  | assign _ value => simp [Stmt.words, value.inner]
  | call | read | write | empty => simp [Stmt.words]
  | compound _ _ ihFirst ihs => simp [Stmt.words, ihFirst, Stmt.inner_wordsBehind ihs]
  | branch decision _ ih => simp [Stmt.words, Stmt.wordsElse, decision.inner, ih]
  | branchElse decision _ _ _ ihYes ihNo =>
    simp [Stmt.words, Stmt.wordsElse, decision.inner, ihYes, ihNo]
  | loop decision _ ih => simp [Stmt.words, decision.inner, ih]

theorem inner_sectionWords {α : Type} {words : α → List Word} {ds : List α}
    (each : ∀ d ∈ ds, AllInner (words d)) (keyword : String) :
    AllInner (sectionWords keyword words ds) := by
  cases ds with
  | nil => simp
  | cons d ds =>
    have others : AllInner (ds.flatMap fun d' => .delimiter "," :: words d') := by
      intro w member
      obtain ⟨d', inRow, inside⟩ := List.mem_flatMap.mp member
      rcases List.mem_cons.mp inside with rfl | inside
      · simp
      · exact each d' (List.mem_cons_of_mem _ inRow) w inside
    simp [sectionWords, commaWords, each d, others]

theorem Procedure.inner_wordsList {ps : List Procedure} (each : ∀ p ∈ ps, AllInner p.block.words) :
    AllInner (Procedure.wordsList ps) := by
  induction ps with
  | nil => simp [Procedure.wordsList]
  | cons p ps ih =>
    have others := ih fun p' member => each p' (List.mem_cons_of_mem _ member)
    simp [Procedure.wordsList, Procedure.words_eq, each p, others]

theorem Block.Grammatical.inner {b : Block} (grammatical : b.Grammatical) : AllInner b.words := by
  induction grammatical with
  | @mk cs vs ps s loc consts _ body ih =>
    have constWords : AllInner (sectionWords "const" ConstDecl.words cs) := by
      refine inner_sectionWords (fun d member => ?_) "const"
      obtain ⟨n, natural, value⟩ := consts d member
      simp [ConstDecl.words, value, Word.inner_number natural]
    have varWords : AllInner (sectionWords "var" VarDecl.words vs) :=
      inner_sectionWords (fun d _ => by simp [VarDecl.words]) "var"
    simp [Block.words, constWords, varWords, Procedure.inner_wordsList ih, body.inner]

end PlZero

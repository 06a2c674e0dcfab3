import PlZero.Parser.Statement
import PlZero.Proofs.Complete.Expression

/-! # Grammatical statements are read back

Tokens that stand for the words of a grammatical statement are read as that statement, if the token
behind them can follow a statement and is no `else` that the statement would take for itself.  That
second half is where `Stmt.endsOpen` comes in: the grammar forbids an `else` behind a statement that
ends in an open branch, and every production hands the condition down to its last part.
-/

namespace PlZero

/-- A statement counts as a level of nesting itself. -/
theorem Stmt.depth_pos (s : Stmt) : 0 < s.depth := by
  cases s <;> simp [Stmt.depth]

namespace Parser

variable {cx : Context} {limit : Int} {fits : Prop} {ts tail : List Token} {t : Token}

/-! ## Behind a statement -/

/-- The tokens `tail` may stand behind the statement `s`. -/
def Follows (s : Stmt) (tail : List Token) : Prop :=
  ∀ t ∈ tail.head?, followsStatement t = true ∧ (s.endsOpen = true → t.isElse = false)

theorem Follows.endsExpression {s : Stmt} (follows : Follows s tail) : EndsExpression tail := by
  refine endsExpression_of_kind fun t isHead => ?_
  have token := (follows t isHead).1
  grind [followsStatement, Token.isElse, Token.isDelimiter, Token.isKeyword]

theorem follows_cons {s : Stmt} : Follows s (t :: ts) ↔
    followsStatement t = true ∧ (s.endsOpen = true → t.isElse = false) := by
  simp [Follows]

theorem endsExpression_of_keyword {word : String} (keyword : t.isKeyword word = true) :
    EndsExpression (t :: ts) := by
  apply endsExpression_of_kind
  simp [(Token.isKeyword_iff.mp keyword).1]

/-- The parser reads the statement back from its words. -/
def ReadsStmt (cx : Context) (fits : Prop) (p : Parser Stmt) (s : Stmt) : Prop :=
  ∀ ts tail, ts.map Token.word = s.words → Follows s tail →
    Reads cx fits p ts tail fun s' => s'.bare = s.bare

/-! ## Statements of one level -/

variable {expr : Parser Expr} {stmt : Parser Stmt}

theorem assign_reads {target : String} {e : Expr} (plain : target ≠ "else")
    (value : ReadsExpr cx fits expr e) (loc : Location) :
    ReadsStmt cx fits (statementBody cx expr stmt) (.assign target e loc) := by
  intro ts tail written follows
  obtain ⟨t, ts, rfl, word, behind⟩ := List.map_eq_cons_iff.mp written
  obtain ⟨sign, ts, rfl, operator, writtenValue⟩ := List.map_eq_cons_iff.mp behind
  obtain ⟨identifier, rfl⟩ := Token.word_eq_identifier_iff.mp word
  refine .same (q := assignment cx expr t)
    (fun _ _ => by simp [statementBody, startsAssignment, identifier, plain]) ?_
  refine .advance_bind (.accept_bind_of_pos (Token.word_eq_operator_iff.mp operator) ?_)
  refine .bind_pure (value ts tail writtenValue follows.endsExpression) fun e' bare => ?_
  simp [Stmt.bare, bare]

/-- A statement made of a keyword and a name. -/
theorem named_reads (build : String → Location → Stmt) {word id : String} {s : Stmt}
    (words : s.words = [.keyword word, .identifier id]) (built : ∀ loc, (build id loc).bare = s.bare)
    (chosen : ∀ t ts depth log, t.kind = .keyword → t.lexeme = word →
      statementBody cx expr stmt ⟨t :: ts, depth, log⟩ = named cx build t ⟨t :: ts, depth, log⟩) :
    ReadsStmt cx fits (statementBody cx expr stmt) s := by
  intro ts tail written _
  rw [words] at written
  obtain ⟨t, ts, rfl, keyword, behind⟩ := List.map_eq_cons_iff.mp written
  obtain ⟨name, rfl, named⟩ := List.map_eq_singleton_iff.mp behind
  obtain ⟨kind, lexeme⟩ := Token.isKeyword_iff.mp (Token.word_eq_keyword_iff.mp keyword)
  obtain ⟨identifier, rfl⟩ := Token.word_eq_identifier_iff.mp named
  refine .same (fun depth log => chosen t _ depth log kind lexeme) ?_
  exact .advance_bind (.accept_bind_of_pos (by simpa using identifier) (.pure (built t.loc)))

/-- Behind a statement between `begin` and `end` there is a semicolon or that `end`. -/
theorem follows_behind {ss : List Stmt} {behind : List Token} {s : Stmt}
    (written : behind.map Token.word = Stmt.wordsBehind ss) (closing : t.isKeyword "end" = true) :
    Follows s (behind ++ t :: tail) := by
  cases ss with
  | nil =>
    obtain rfl := List.map_eq_nil_iff.mp written
    have noElse : t.isElse = false := by grind [Token.isElse, Token.isKeyword]
    exact follows_cons.mpr ⟨by simp [followsStatement, closing], fun _ => noElse⟩
  | cons s ss =>
    obtain ⟨t', ts, rfl, semicolon, _⟩ := List.map_eq_cons_iff.mp written
    rw [Token.word_eq_delimiter_iff] at semicolon
    have noElse : t'.isElse = false := by grind [Token.isElse, Token.isDelimiter]
    exact follows_cons.mpr ⟨by simp [followsStatement, semicolon], fun _ => noElse⟩

theorem nextStatement_row {ss : List Stmt} (statements : ∀ s ∈ ss, ReadsStmt cx fits stmt s)
    (closing : t.isKeyword "end" = true) (before : List Stmt) (behind : List Token)
    (written : behind.map Token.word = Stmt.wordsBehind ss) :
    Row cx fits (nextStatement cx stmt) before behind (t :: tail) fun all =>
      all.map Stmt.bare = before.map Stmt.bare ++ ss.map Stmt.bare := by
  -- on the statements still to come; those before them are in the loop's value
  induction ss generalizing before behind with
  | nil =>
    obtain rfl := List.map_eq_nil_iff.mp written
    exact .refl (by simp)
  | cons s ss ih =>
    obtain ⟨first, behind, rfl, writtenFirst, writtenBehind⟩ := List.map_eq_append_iff.mp written
    obtain ⟨t', ts, rfl, semicolon, writtenStmt⟩ := List.map_eq_cons_iff.mp writtenFirst
    have reads := statements s (by simp) ts (behind ++ t :: tail) writtenStmt
      (follows_behind writtenBehind closing)
    refine .trans (P := fun all => all.map Stmt.bare = before.map Stmt.bare ++ [s.bare])
      (.single ?_ (by simp)) fun all bare => ?_
    · refine .accept_bind_of_pos (Token.word_eq_delimiter_iff.mp semicolon) ?_
      exact .bind_pure reads fun s' bare => ⟨_, rfl, by simp [bare]⟩
    · have row := ih (fun s' member => statements s' (List.mem_cons_of_mem _ member)) all behind
        writtenBehind
      simpa [bare] using row

theorem nextStatement_declined (closing : t.isKeyword "end" = true) (before : List Stmt)
    (depth : Nat) (log : Log) :
    nextStatement cx stmt before ⟨t :: ts, depth, log⟩ = .ok none ⟨t :: ts, depth, log⟩ := by
  have semicolon : t.isDelimiter ";" = false := by grind [Token.isDelimiter, Token.isKeyword]
  have starts : startsStatement t = false := by
    grind [startsStatement, startsAssignment, Token.isKeyword]
  simp [nextStatement, accept, semicolon, starts]

theorem compound_reads {s : Stmt} {ss : List Stmt}
    (statements : ∀ s' ∈ s :: ss, ReadsStmt cx fits stmt s') (loc : Location) :
    ReadsStmt cx fits (statementBody cx expr stmt) (.compound (s :: ss) loc) := by
  intro ts tail written _
  simp only [Stmt.words, List.cons_append, List.append_assoc] at written
  obtain ⟨t, ts, rfl, word, inside⟩ := List.map_eq_cons_iff.mp written
  obtain ⟨first, ts, rfl, writtenFirst, others⟩ := List.map_eq_append_iff.mp inside
  obtain ⟨behind, ts, rfl, writtenBehind, last⟩ := List.map_eq_append_iff.mp others
  obtain ⟨t', rfl, closing⟩ := List.map_eq_singleton_iff.mp last
  rw [Token.word_eq_keyword_iff] at closing
  obtain ⟨kind, lexeme⟩ := Token.isKeyword_iff.mp (Token.word_eq_keyword_iff.mp word)
  have reads := statements s (by simp) first (behind ++ t' :: tail) writtenFirst
    (follows_behind writtenBehind closing)
  refine .same (q := compound cx stmt t)
    (fun _ _ => by simp [statementBody, startsAssignment, Token.isKeyword, kind, lexeme]) ?_
  refine .advance_bind (.bind (by simpa using reads) fun s' bare => ?_)
  have row : Row cx fits (nextStatement cx stmt) [s'] behind (t' :: tail) fun all =>
      all.map Stmt.bare = [s'].map Stmt.bare ++ ss.map Stmt.bare :=
    nextStatement_row (fun s' member => statements s' (List.mem_cons_of_mem _ member)) closing [s']
      behind writtenBehind
  refine .bind (row.reads fun all depth log _ => nextStatement_declined closing all depth log)
    fun all bares => .require_bind closing (.pure ?_)
  simp [Stmt.bare, Stmt.bareList_eq_map, bares, bare]

theorem branch_reads {c : Condition} {y : Stmt} (decision : ReadsCondition cx fits (condition cx expr) c)
    (first : ReadsStmt cx fits stmt y) (loc : Location) :
    ReadsStmt cx fits (statementBody cx expr stmt) (.branch c y none loc) := by
  intro ts tail written follows
  simp only [Stmt.words, Stmt.wordsElse, List.cons_append, List.append_nil] at written
  obtain ⟨t, ts, rfl, word, inside⟩ := List.map_eq_cons_iff.mp written
  obtain ⟨question, ts, rfl, writtenQuestion, others⟩ := List.map_eq_append_iff.mp inside
  obtain ⟨t', yes, rfl, separator, writtenYes⟩ := List.map_eq_cons_iff.mp others
  rw [Token.word_eq_keyword_iff] at separator
  obtain ⟨kind, lexeme⟩ := Token.isKeyword_iff.mp (Token.word_eq_keyword_iff.mp word)
  -- this statement ends in an open branch, so the `else` it could take is not there
  have noElse : ∀ t ∈ tail.head?, t.isElse = false := fun t isHead => (follows t isHead).2 rfl
  refine .same (q := branch cx expr stmt t)
    (fun _ _ => by simp [statementBody, startsAssignment, Token.isKeyword, kind, lexeme]) ?_
  refine .advance_bind (.bind (decision question _ writtenQuestion
    (endsExpression_of_keyword separator)) fun c' bareC => ?_)
  refine .require_bind separator (.bind_last (first yes tail writtenYes
    fun t isHead => ⟨(follows t isHead).1, fun _ => noElse t isHead⟩) fun y' bareY => ?_)
  refine .accept_bind_of_neg noElse (.pure ?_)
  simp [Stmt.bare, Stmt.bareOption, bareC, bareY]

theorem branchElse_reads {c : Condition} {y n : Stmt}
    (decision : ReadsCondition cx fits (condition cx expr) c) (first : ReadsStmt cx fits stmt y)
    (closed : y.endsOpen = false) (second : ReadsStmt cx fits stmt n) (loc : Location) :
    ReadsStmt cx fits (statementBody cx expr stmt) (.branch c y (some n) loc) := by
  intro ts tail written follows
  simp only [Stmt.words, Stmt.wordsElse, List.cons_append, List.append_assoc] at written
  obtain ⟨t, ts, rfl, word, inside⟩ := List.map_eq_cons_iff.mp written
  obtain ⟨question, ts, rfl, writtenQuestion, others⟩ := List.map_eq_append_iff.mp inside
  obtain ⟨t', ts, rfl, separator, branches⟩ := List.map_eq_cons_iff.mp others
  obtain ⟨yes, ts, rfl, writtenYes, other⟩ := List.map_eq_append_iff.mp branches
  obtain ⟨between, no, rfl, otherwise, writtenNo⟩ := List.map_eq_cons_iff.mp other
  rw [Token.word_eq_keyword_iff] at separator
  obtain ⟨kind, lexeme⟩ := Token.isKeyword_iff.mp (Token.word_eq_keyword_iff.mp word)
  have isElse : between.isElse = true := by
    simpa [Token.isElse] using Token.word_eq_identifier_iff.mp otherwise
  -- the first branch is closed, so the `else` behind it is none of its own
  have followsYes : Follows y (between :: no ++ tail) :=
    follows_cons.mpr ⟨by simp [followsStatement, isElse], by simp [closed]⟩
  refine .same (q := branch cx expr stmt t)
    (fun _ _ => by simp [statementBody, startsAssignment, Token.isKeyword, kind, lexeme]) ?_
  refine .advance_bind (.bind (decision question _ writtenQuestion
    (endsExpression_of_keyword separator)) fun c' bareC => ?_)
  refine .require_bind separator (.bind (first yes _ writtenYes followsYes) fun y' bareY => ?_)
  refine .accept_bind_of_pos isElse (.bind_pure (second no tail writtenNo follows) fun n' bareN => ?_)
  simp [Stmt.bare, Stmt.bareOption, bareC, bareY, bareN]

theorem loop_reads {c : Condition} {s : Stmt} (decision : ReadsCondition cx fits (condition cx expr) c)
    (body : ReadsStmt cx fits stmt s) (loc : Location) :
    ReadsStmt cx fits (statementBody cx expr stmt) (.loop c s loc) := by
  intro ts tail written follows
  simp only [Stmt.words, List.cons_append] at written
  obtain ⟨t, ts, rfl, word, inside⟩ := List.map_eq_cons_iff.mp written
  obtain ⟨question, ts, rfl, writtenQuestion, others⟩ := List.map_eq_append_iff.mp inside
  obtain ⟨t', again, rfl, separator, writtenBody⟩ := List.map_eq_cons_iff.mp others
  rw [Token.word_eq_keyword_iff] at separator
  obtain ⟨kind, lexeme⟩ := Token.isKeyword_iff.mp (Token.word_eq_keyword_iff.mp word)
  refine .same (q := loop cx expr stmt t)
    (fun _ _ => by simp [statementBody, startsAssignment, Token.isKeyword, kind, lexeme]) ?_
  refine .advance_bind (.bind (decision question _ writtenQuestion
    (endsExpression_of_keyword separator)) fun c' bareC => ?_)
  refine .require_bind separator (.bind_pure (body again tail writtenBody follows) fun s' bare => ?_)
  simp [Stmt.bare, bareC, bare]

/-- No statement is read before a token that can follow one. -/
theorem empty_reads (loc : Location) :
    ReadsStmt cx fits (statementBody cx expr stmt) (.empty loc) := by
  intro ts tail written follows
  obtain rfl := List.map_eq_nil_iff.mp written
  cases tail with
  | nil =>
    exact .same (q := pure (.empty cx.endLoc)) (fun _ _ => by simp [statementBody]) (.pure rfl)
  | cons t ts =>
    have token := (follows t (by simp)).1
    refine .same (q := pure (.empty t.loc)) (fun _ _ => ?_) (.pure rfl)
    -- a token that follows statements starts none, so all branches before the last are passed over
    have noStart : startsAssignment t = false ∧ t.isKeyword "call" = false ∧
        t.isKeyword "read" = false ∧ t.isKeyword "write" = false ∧ t.isKeyword "begin" = false ∧
        t.isKeyword "if" = false ∧ t.isKeyword "while" = false := by
      grind [followsStatement, startsAssignment, Token.isElse, Token.isDelimiter, Token.isKeyword]
    simp [statementBody, token, noStart]

/-! ## Statements -/

/-- A statement is read at its own level, if there is one. -/
theorem statement_reads_of_body {room : Nat} {s : Stmt} (fit : fits → s.depth ≤ room)
    (body : ∀ inner, (fits → s.depth ≤ inner + 1) →
      ReadsStmt cx fits (statementBody cx (expression cx inner) (statement cx inner)) s) :
    ReadsStmt cx fits (statement cx room) s := by
  intro ts tail written follows
  cases room with
  | zero =>
    -- even the empty statement needs a level
    refine .tooDeep fun allowed => ?_
    have depth := fit allowed
    have positive := s.depth_pos
    omega
  | succ room => exact .deeper (body room fit ts tail written follows)

theorem statement_reads (limited : cx.limits.maxInteger = .number limit) {s : Stmt}
    (grammatical : s.Grammatical) (within : ∀ v ∈ s.literals, v.AtMost limit) (room : Nat)
    (fit : fits → s.depth ≤ room) : ReadsStmt cx fits (statement cx room) s := by
  induction grammatical generalizing room with
  | assign plain grammatical =>
    refine statement_reads_of_body fit fun room fit => assign_reads plain ?_ _
    exact expression_reads limited grammatical within fun allowed =>
      Nat.le_of_succ_le_succ (fit allowed)
  | call =>
    refine statement_reads_of_body fit fun room _ => named_reads .call rfl (fun _ => rfl) ?_
    intro t ts depth log kind lexeme
    simp [statementBody, startsAssignment, Token.isKeyword, kind, lexeme]
  | read =>
    refine statement_reads_of_body fit fun room _ => named_reads .read rfl (fun _ => rfl) ?_
    intro t ts depth log kind lexeme
    simp [statementBody, startsAssignment, Token.isKeyword, kind, lexeme]
  | write =>
    refine statement_reads_of_body fit fun room _ => named_reads .write rfl (fun _ => rfl) ?_
    intro t ts depth log kind lexeme
    simp [statementBody, startsAssignment, Token.isKeyword, kind, lexeme]
  | @compound s ss loc _ _ ihFirst ihs =>
    refine statement_reads_of_body fit fun room fit => compound_reads (fun s' member => ?_) loc
    have withinOne : ∀ v ∈ s'.literals, v.AtMost limit := fun v inside =>
      within v (Stmt.mem_literalsList.mpr ⟨s', member, inside⟩)
    have fitOne : fits → s'.depth ≤ room := fun allowed =>
      Stmt.depthList_le_iff.mp (Nat.le_of_succ_le_succ (fit allowed)) s' member
    rcases List.mem_cons.mp member with rfl | behind
    · exact ihFirst withinOne room fitOne
    · exact ihs s' behind withinOne room fitOne
  | branch grammatical _ ih =>
    refine statement_reads_of_body fit fun room fit => ?_
    simp only [Stmt.depth, Stmt.literals, List.mem_append] at fit within
    exact branch_reads
      (condition_reads limited grammatical (fun v member => within v (.inl (.inl member)))
        fun allowed => by have := fit allowed; omega)
      (ih (fun v member => within v (.inl (.inr member))) room fun allowed => by
        have := fit allowed; omega) _
  | branchElse grammatical _ closed _ ihYes ihNo =>
    refine statement_reads_of_body fit fun room fit => ?_
    simp only [Stmt.depth, Stmt.depthOption, Stmt.literals, Stmt.literalsOption,
      List.mem_append] at fit within
    exact branchElse_reads
      (condition_reads limited grammatical (fun v member => within v (.inl (.inl member)))
        fun allowed => by have := fit allowed; omega)
      (ihYes (fun v member => within v (.inl (.inr member))) room fun allowed => by
        have := fit allowed; omega) closed
      (ihNo (fun v member => within v (.inr member)) room fun allowed => by
        have := fit allowed; omega) _
  | loop grammatical _ ih =>
    refine statement_reads_of_body fit fun room fit => ?_
    simp only [Stmt.depth, Stmt.literals, List.mem_append] at fit within
    exact loop_reads
      (condition_reads limited grammatical (fun v member => within v (.inl member))
        fun allowed => by have := fit allowed; omega)
      (ih (fun v member => within v (.inr member)) room fun allowed => by
        have := fit allowed; omega) _
  | empty => exact statement_reads_of_body fit fun room _ => empty_reads _

end Parser

end PlZero

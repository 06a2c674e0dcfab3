import PlZero.Parser.Statement
import PlZero.Proofs.Account.Expression

/-! # Accounts of statements

As for expressions, with one fact more: behind a statement that ends in a branch without `else` no
`else` is left, because that branch would have taken it.  This is what puts every `else` to the
nearest branch, and it is the only fact about the tokens that are left which has to be carried along.
-/

namespace PlZero

/-- A statement whose words are `ws`, which stays within the limits, and behind which the tokens `r`
are left. -/
structure Stmt.Spelled (limit : Int) (room : Nat) (s : Stmt) (ws : List Word) (r : List Token) :
    Prop where
  grammatical : s.Grammatical
  words : s.words = ws
  depth : s.depth ≤ room
  literals : ∀ v ∈ s.literals, v.AtMost limit
  closed : s.endsOpen = true → ∀ t ∈ r.head?, t.isElse = false

namespace Stmt.Spelled

variable {limit : Int} {room : Nat} {c : Condition} {yes no s : Stmt} {wsC ws ws' : List Word}
  {r r' : List Token}

theorem empty (loc : Location) : (Stmt.empty loc).Spelled limit (room + 1) [] r :=
  ⟨.empty, rfl, Nat.succ_le_succ (Nat.zero_le _), by simp [Stmt.literals], by simp [Stmt.endsOpen]⟩

theorem branch (condition : c.Spelled limit room wsC) (first : yes.Spelled limit room ws r)
    (noElse : ∀ t ∈ r.head?, t.isElse = false) (loc : Location) :
    (Stmt.branch c yes none loc).Spelled limit (room + 1)
      (.keyword "if" :: wsC ++ .keyword "then" :: ws) r where
  grammatical := .branch condition.grammatical first.grammatical
  words := by simp [Stmt.words, Stmt.wordsElse, condition.words, first.words]
  depth := by
    have deepest := Nat.max_le.mpr ⟨condition.depth, first.depth⟩
    simpa [Stmt.depth, Stmt.depthOption] using deepest
  literals := by
    intro v member
    simp only [Stmt.literals, Stmt.literalsOption, List.append_nil] at member
    rcases List.mem_append.mp member with inCondition | inFirst
    · exact condition.literals v inCondition
    · exact first.literals v inFirst
  closed := fun _ => noElse

theorem branchElse (condition : c.Spelled limit room wsC) (first : yes.Spelled limit room ws r)
    (closed : yes.endsOpen = false) (second : no.Spelled limit room ws' r') (loc : Location) :
    (Stmt.branch c yes (some no) loc).Spelled limit (room + 1)
      (.keyword "if" :: wsC ++ .keyword "then" :: ws ++ .identifier "else" :: ws') r' where
  grammatical := .branchElse condition.grammatical first.grammatical closed second.grammatical
  words := by simp [Stmt.words, Stmt.wordsElse, condition.words, first.words, second.words]
  depth := by
    have deepest := Nat.max_le.mpr ⟨condition.depth, Nat.max_le.mpr ⟨first.depth, second.depth⟩⟩
    simpa [Stmt.depth, Stmt.depthOption] using deepest
  literals := by
    intro v member
    simp only [Stmt.literals, Stmt.literalsOption, List.append_assoc, List.mem_append] at member
    rcases member with inCondition | inFirst | inSecond
    · exact condition.literals v inCondition
    · exact first.literals v inFirst
    · exact second.literals v inSecond
  closed := second.closed

theorem loop (condition : c.Spelled limit room wsC) (body : s.Spelled limit room ws r)
    (loc : Location) : (Stmt.loop c s loc).Spelled limit (room + 1)
      (.keyword "while" :: wsC ++ .keyword "do" :: ws) r where
  grammatical := .loop condition.grammatical body.grammatical
  words := by simp [Stmt.words, condition.words, body.words]
  depth := Nat.succ_le_succ (Nat.max_le.mpr ⟨condition.depth, body.depth⟩)
  literals := by
    intro v member
    rcases List.mem_append.mp member with inCondition | inBody
    · exact condition.literals v inCondition
    · exact body.literals v inBody
  closed := body.closed

end Stmt.Spelled

/-- Statements in a row whose words are `ws` and which stay within the limits. -/
structure Stmt.RowSpelled (limit : Int) (room : Nat) (ss : List Stmt) (ws : List Word) : Prop where
  words : ∃ s ss', ss = s :: ss' ∧ s.words ++ Stmt.wordsBehind ss' = ws
  grammatical : ∀ s ∈ ss, s.Grammatical
  depth : ∀ s ∈ ss, s.depth ≤ room
  literals : ∀ s ∈ ss, ∀ v ∈ s.literals, v.AtMost limit

namespace Stmt.RowSpelled

variable {limit : Int} {room : Nat} {ss : List Stmt} {s : Stmt} {ws ws' : List Word}
  {r : List Token}

theorem singleton (spelled : s.Spelled limit room ws r) : RowSpelled limit room [s] ws where
  words := ⟨s, [], rfl, by simp [Stmt.wordsBehind, spelled.words]⟩
  grammatical := by simpa using spelled.grammatical
  depth := by simpa using spelled.depth
  literals := by simpa using spelled.literals

theorem append (row : RowSpelled limit room ss ws) (spelled : s.Spelled limit room ws' r) :
    RowSpelled limit room (ss ++ [s]) (ws ++ .delimiter ";" :: ws') where
  words := by
    obtain ⟨first, others, rfl, rfl⟩ := row.words
    exact ⟨first, others ++ [s], rfl, by simp [Stmt.wordsBehind, spelled.words]⟩
  grammatical := by
    intro s' member
    rcases List.mem_append.mp member with before | last
    · exact row.grammatical s' before
    · rw [List.mem_singleton.mp last]
      exact spelled.grammatical
  depth := by
    intro s' member
    rcases List.mem_append.mp member with before | last
    · exact row.depth s' before
    · rw [List.mem_singleton.mp last]
      exact spelled.depth
  literals := by
    intro s' member
    rcases List.mem_append.mp member with before | last
    · exact row.literals s' before
    · rw [List.mem_singleton.mp last]
      exact spelled.literals

theorem compound (row : RowSpelled limit room ss ws) (loc : Location) :
    (Stmt.compound ss loc).Spelled limit (room + 1)
      (.keyword "begin" :: ws ++ [.keyword "end"]) r where
  grammatical := by
    obtain ⟨first, others, rfl, _⟩ := row.words
    exact .compound (row.grammatical first (by simp)) fun s' member =>
      row.grammatical s' (List.mem_cons_of_mem _ member)
  words := by
    obtain ⟨first, others, rfl, rfl⟩ := row.words
    simp [Stmt.words]
  depth := Nat.succ_le_succ (Stmt.depthList_le_iff.mpr row.depth)
  literals := by
    intro v member
    obtain ⟨s', inRow, member⟩ := Stmt.mem_literalsList.mp member
    exact row.literals s' inRow v member
  closed := by simp [Stmt.endsOpen]

end Stmt.RowSpelled

namespace Parser

variable {cx : Context} {limit : Int} {room : Nat} {expr : Parser Expr} {stmt : Parser Stmt}

/-! ## Statements of one level -/

theorem assigned_accounts
    (expression : ∀ r, Accounts cx Halt.IsTooDeep expr r fun e ws _ => e.Spelled limit room .sum ws)
    {name : String} (plain : name ≠ "else") (loc : Location) (r : List Token) :
    Accounts cx Halt.IsTooDeep (assigned expr name loc) r fun s ws r' =>
      s.Spelled limit (room + 1) (.identifier name :: .operator ":=" :: ws) r' := by
  refine (expression r).bind fun e r' => .pure fun ws spelled => ?_
  rw [List.append_nil]
  exact ⟨.assign plain spelled.grammatical, by simp [Stmt.words, spelled.words],
    Nat.succ_le_succ spelled.depth, spelled.literals, by simp [Stmt.endsOpen]⟩

theorem assignment_accounts
    (expression : ∀ r, Accounts cx Halt.IsTooDeep expr r fun e ws _ => e.Spelled limit room .sum ws)
    {t : Token} (starts : startsAssignment t = true) (ts : List Token) :
    Accounts cx Halt.IsTooDeep (assignment cx expr t) (t :: ts) (Stmt.Spelled limit (room + 1)) := by
  simp only [startsAssignment, Bool.and_eq_true, decide_eq_true_eq] at starts
  obtain ⟨identifier, plain⟩ := starts
  have value := assigned_accounts expression plain t.loc
  have word : t.word = .identifier t.lexeme := Token.word_eq_identifier_iff.mpr ⟨identifier, rfl⟩
  refine .advance_bind (.accept_bind (fun sign ts' _ assign => ?_) fun declined => .peek_bind ?_)
  · rw [word, Token.word_eq_operator_iff.mpr assign]
    exact value ts'
  rw [word]
  cases ts with
  | nil =>
    exact .lose (.symbol ":=") (.assignment t.lexeme) .placeholder (fun _ _ => by simp) (by simp)
      (List.suffix_refl _) (.pure (a := Stmt.empty t.loc) trivial)
  | cons next ts =>
    -- without its sign, an assignment is repaired only before an equals sign or an expression
    by_cases equals : next.isOperator "=" = true
    · exact .replace ":=" (.assignment t.lexeme) (by decide) (fun _ _ => by simp [equals]) (value ts)
    by_cases expressive : startsExpression next = true
    · exact .insert ":=" (.assignment t.lexeme) (by decide) (fun _ _ => by simp [equals, expressive])
        (value (next :: ts))
    · exact .lose (.symbol ":=") (.assignment t.lexeme) .placeholder
        (fun _ _ => by simp [equals, expressive]) (by simp) (List.suffix_refl _)
        (.pure (a := Stmt.empty t.loc) trivial)

theorem named_accounts {build : String → Location → Stmt} {word : String}
    (built : ∀ name loc r, (build name loc).Spelled limit room [.keyword word, .identifier name] r)
    {t : Token} (keyword : t.isKeyword word = true) (ts : List Token) :
    Accounts cx Halt.IsTooDeep (named cx build t) (t :: ts) (Stmt.Spelled limit room) := by
  refine .advance_bind (.accept_bind (fun name ts' _ identifier => .pure ?_) fun _ => ?_)
  · rw [Token.word_eq_keyword_iff.mpr keyword,
      Token.word_eq_identifier_iff.mpr ⟨by simpa using identifier, rfl⟩]
    exact built name.lexeme t.loc ts'
  · exact .lose .identifier (.after t.lexeme) .placeholder (fun _ _ => by simp) (by simp)
      (List.suffix_refl _) (.pure (a := Stmt.empty t.loc) trivial)

theorem nextStatement_accounts
    (statement : ∀ r, Accounts cx Halt.IsTooDeep stmt r (Stmt.Spelled limit room))
    (before : List Stmt) (r : List Token) :
    Accounts cx Halt.IsTooDeep (nextStatement cx stmt before) r fun o ws _ =>
      Accounts.Extends (Stmt.RowSpelled limit room) before o ws := by
  -- with or without the semicolon, the words behind it are the same
  have next : ∀ r, Accounts cx Halt.IsTooDeep (do return some (before ++ [← stmt])) r fun o ws _ =>
      Accounts.Extends (Stmt.RowSpelled limit room) before o (.delimiter ";" :: ws) := by
    intro r
    refine (statement r).bind fun s r' => .pure fun ws spelled before row => ?_
    rw [List.append_nil]
    exact row.append spelled
  refine .accept_bind (fun t ts _ semicolon => ?_) fun _ => .peek_bind ?_
  · rw [Token.word_eq_delimiter_iff.mpr semicolon]
    exact next ts
  cases r with
  | nil => exact .pure rfl
  | cons t ts =>
    by_cases starts : startsStatement t = true
    · exact .insert ";" .betweenStatements (by decide) (fun _ _ => by simp [starts]) (next (t :: ts))
    · exact .same (fun _ _ => by simp [starts]) (.pure (a := none) rfl)

theorem compound_accounts
    (statement : ∀ r, Accounts cx Halt.IsTooDeep stmt r (Stmt.Spelled limit room))
    {t : Token} (keyword : t.isKeyword "begin" = true) (ts : List Token) :
    Accounts cx Halt.IsTooDeep (compound cx stmt t) (t :: ts) (Stmt.Spelled limit (room + 1)) := by
  refine .advance_bind ((statement ts).bind fun first r => ?_)
  refine (Accounts.repeatedly (nextStatement_accounts statement) [first] r).bind fun all r' => ?_
  refine (Accounts.requireKeyword "end" (by decide)).bind fun _ r'' => .pure ?_
  rintro _ rfl ws onwards before spelled
  have row := (onwards before (.singleton spelled)).compound t.loc (r := r'')
  rw [Token.word_eq_keyword_iff.mpr keyword]
  simpa using row

theorem branch_accounts
    (expression : ∀ r, Accounts cx Halt.IsTooDeep expr r fun e ws _ => e.Spelled limit room .sum ws)
    (statement : ∀ r, Accounts cx Halt.IsTooDeep stmt r (Stmt.Spelled limit room))
    {t : Token} (keyword : t.isKeyword "if" = true) (ts : List Token) :
    Accounts cx Halt.IsTooDeep (branch cx expr stmt t) (t :: ts) (Stmt.Spelled limit (room + 1)) := by
  refine .advance_bind ((condition_accounts expression ts).bind fun c r => ?_)
  refine (Accounts.requireKeyword "then" (by decide)).bind fun _ r' => ?_
  refine (statement r').bind fun yes r'' => ?_
  rw [Token.word_eq_keyword_iff.mpr keyword]
  refine .accept_bind (fun word rest left isElse => ?_) fun noElse => .pure ?_
  · refine (statement rest).bind fun no behind => .pure ?_
    rintro wsNo second wsYes first _ rfl wsC condition
    -- the first branch has left this `else`, so it does not end in an open one
    have closed : yes.endsOpen = false := by
      by_contra isOpen
      have declined := first.closed (by simpa using isOpen) word (by simp [left])
      rw [isElse] at declined
      cases declined
    simp only [Token.isElse, Bool.and_eq_true, decide_eq_true_eq] at isElse
    rw [Token.word_eq_identifier_iff.mpr isElse]
    simpa using Stmt.Spelled.branchElse condition first closed second t.loc
  · rintro wsYes first _ rfl wsC condition
    simpa using Stmt.Spelled.branch condition first noElse t.loc

theorem loop_accounts
    (expression : ∀ r, Accounts cx Halt.IsTooDeep expr r fun e ws _ => e.Spelled limit room .sum ws)
    (statement : ∀ r, Accounts cx Halt.IsTooDeep stmt r (Stmt.Spelled limit room))
    {t : Token} (keyword : t.isKeyword "while" = true) (ts : List Token) :
    Accounts cx Halt.IsTooDeep (loop cx expr stmt t) (t :: ts) (Stmt.Spelled limit (room + 1)) := by
  refine .advance_bind ((condition_accounts expression ts).bind fun c r => ?_)
  refine (Accounts.requireKeyword "do" (by decide)).bind fun _ r' => ?_
  refine (statement r').bind fun body r'' => .pure ?_
  rintro ws spelled _ rfl wsC condition
  rw [Token.word_eq_keyword_iff.mpr keyword]
  simpa using Stmt.Spelled.loop condition spelled t.loc

/-! ## Statements -/

theorem statementBody_accounts
    (expression : ∀ r, Accounts cx Halt.IsTooDeep expr r fun e ws _ => e.Spelled limit room .sum ws)
    (statement : ∀ r, Accounts cx Halt.IsTooDeep stmt r (Stmt.Spelled limit room))
    (r : List Token) :
    Accounts cx Halt.IsTooDeep (statementBody cx expr stmt) r (Stmt.Spelled limit (room + 1)) := by
  refine .peek_bind ?_
  cases r with
  | nil => exact .pure (.empty cx.endLoc)
  | cons t ts =>
    simp only [List.head?_cons]
    split
    · exact assignment_accounts expression ‹_› ts
    split
    · exact named_accounts (fun name loc r => ⟨.call, rfl, by simp [Stmt.depth],
        by simp [Stmt.literals], by simp [Stmt.endsOpen]⟩) ‹_› ts
    split
    · exact named_accounts (fun name loc r => ⟨.read, rfl, by simp [Stmt.depth],
        by simp [Stmt.literals], by simp [Stmt.endsOpen]⟩) ‹_› ts
    split
    · exact named_accounts (fun name loc r => ⟨.write, rfl, by simp [Stmt.depth],
        by simp [Stmt.literals], by simp [Stmt.endsOpen]⟩) ‹_› ts
    split
    · exact compound_accounts statement ‹_› ts
    split
    · exact branch_accounts expression statement ‹_› ts
    split
    · exact loop_accounts expression statement ‹_› ts
    split
    · exact .pure (.empty t.loc)
    · exact .lose .statement .anywhere .skipped (fun _ _ => by simp) (by simp)
        (List.suffix_cons _ _) (.pure (a := Stmt.empty t.loc) trivial)

theorem statement_accounts (limited : cx.limits.maxInteger = .number limit) (room : Nat)
    (r : List Token) :
    Accounts cx Halt.IsTooDeep (statement cx room) r (Stmt.Spelled limit room) := by
  -- on the levels left, since every statement inside has one less
  induction room generalizing r with
  | zero => exact .tooDeep
  | succ room ih =>
    exact .deeper (statementBody_accounts (expression_accounts limited room) ih r)

end Parser

end PlZero

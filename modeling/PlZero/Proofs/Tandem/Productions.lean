import PlZero.Proofs.Parser.Tandem
import PlZero.Proofs.Program

/-! # Productions before a stop

No production takes a period, and none looks further than the next token.  So up to a stop every
production does the same in both inputs of a tandem.  The cases of each proof are those of the parser; what
there is to show in them is that a token which is taken is no period, and that a turn of a loop takes one.
Of the loops, those over statements and declarations go on at a token that they leave to the parser inside,
and that parser takes it (`statementBody_inStep`, `constDecl_inStep`, `varDecl_inStep`).

Only the end of a program takes the stop, and all that it asks about the tokens behind is which is the
first (`parseTokens_inStep`).
-/

namespace PlZero

/-! ## Tokens that are no period -/

namespace Token

variable {t : Token}

theorem isDelimiter_eq_false_of_kind {symbol : String} (other : t.kind ≠ .delimiter) :
    t.isDelimiter symbol = false := by
  simp [isDelimiter, other]

theorem isDelimiter_eq_false_of_ne {symbol symbol' : String} (delimiter : t.isDelimiter symbol = true)
    (other : symbol ≠ symbol') : t.isDelimiter symbol' = false := by
  simp only [isDelimiter, Bool.and_eq_true, decide_eq_true_eq] at delimiter
  simp [isDelimiter, delimiter.2, other]

theorem kind_of_isDelimiter {symbol : String} (delimiter : t.isDelimiter symbol = true) :
    t.kind = .delimiter := by
  simp only [isDelimiter, Bool.and_eq_true, decide_eq_true_eq] at delimiter
  exact delimiter.1

theorem isDelimiter_eq_false_of_isKeyword {symbol word : String} (keyword : t.isKeyword word = true) :
    t.isDelimiter symbol = false := by
  simp only [isKeyword, Bool.and_eq_true, decide_eq_true_eq] at keyword
  exact isDelimiter_eq_false_of_kind (by simp [keyword.1])

theorem isDelimiter_eq_false_of_isOperator {symbol symbol' : String}
    (operator : t.isOperator symbol' = true) : t.isDelimiter symbol = false := by
  simp only [isOperator, Bool.and_eq_true, decide_eq_true_eq] at operator
  exact isDelimiter_eq_false_of_kind (by simp [operator.1])

variable (period : t.isDelimiter "." = true)
include period

theorem isKeyword_of_period (word : String) : t.isKeyword word = false := by
  simp [isKeyword, kind_of_isDelimiter period]

theorem isOperator_of_period (symbol : String) : t.isOperator symbol = false := by
  simp [isOperator, kind_of_isDelimiter period]

theorem isIdentifier_of_period : decide (t.kind = .identifier) = false := by
  simp [kind_of_isDelimiter period]

theorem isInteger_of_period : decide (t.kind = .integer) = false := by
  simp [kind_of_isDelimiter period]

end Token

namespace Parser

variable {m : Tandem} {t : Token}

/-- Both parsers do the same before the stop. -/
abbrev Together {α : Type} (m : Tandem) (p q : Parser α) (r : List Token) : Prop :=
  InStep m r p q r fun _ _ => True

/-! ## Expressions -/

section Expressions

variable {parenthesised parenthesised' : Token → Parser Expr} {expr expr' : Parser Expr}

theorem factor_inStep
    (inner : ∀ t ts, Together m (parenthesised t) (parenthesised' t) (t :: ts)) (r : List Token) :
    Together m (factor m.cx parenthesised) (factor m.cx' parenthesised') r := by
  apply InStep.assuming (List.suffix_refl r)
  intro readable
  apply InStep.peek_bind
  · intro _ place
    rw [place]
    exact .report_bind _ _ _ (.pure trivial)
  intro t seen
  apply InStep.ite
  · intro identifier
    obtain ⟨ts, rfl⟩ := seen.before (Token.isDelimiter_eq_false_of_kind (by simp [identifier]))
    apply InStep.loosen
    exact .advance_bind (.pure trivial)
  intro _
  apply InStep.ite
  · intro integer
    obtain ⟨ts, rfl⟩ := seen.before (Token.isDelimiter_eq_false_of_kind (by simp [integer]))
    apply InStep.loosen
    apply InStep.advance_bind
    exact .integerValue_bind (readable t List.mem_cons_self) integer fun _ => .pure trivial
  intro _
  apply InStep.ite
  · intro opening
    obtain ⟨ts, rfl⟩ := seen.before (Token.isDelimiter_eq_false_of_ne opening (by decide))
    exact inner t ts
  intro _
  apply InStep.ite
  · intro unknown
    obtain ⟨ts, rfl⟩ := seen.before (Token.isDelimiter_eq_false_of_kind (by simp [unknown]))
    apply InStep.loosen
    apply InStep.report_bind
    exact .advance_bind (.pure trivial)
  · intro _
    exact .report_bind _ _ _ (.pure trivial)

/-- An operator is taken before its operand. -/
theorem link_inStep {op? : Token → Option BinOp} {operand operand' : Parser Expr}
    (other : ∀ t, t.isDelimiter "." = true → op? t = none)
    (inner : ∀ r, Together m operand operand' r) (left : Expr) (r : List Token) :
    InStep m r (link op? operand left) (link op? operand' left) r
      fun o r' => o.isSome = true → r'.length < r.length := by
  apply InStep.acceptAs_bind other
  · rintro t op ts rfl _
    apply (inner ts).bind
    intro right r' left _
    apply InStep.pure
    intro _
    exact Nat.lt_succ_of_le left.length_le
  · exact .pure (by simp)

theorem term_inStep
    (inner : ∀ r, Together m (factor m.cx parenthesised) (factor m.cx' parenthesised') r)
    (r : List Token) : Together m (term m.cx parenthesised) (term m.cx' parenthesised') r := by
  apply (inner r).bind
  intro first r' _ _
  apply InStep.repeatedly (link_inStep _ inner)
  intro t period
  simp [BinOp.multiplicative?, Token.isOperator_of_period period]

theorem sum_inStep
    (inner : ∀ r, Together m (factor m.cx parenthesised) (factor m.cx' parenthesised') r)
    (r : List Token) : Together m (sum m.cx parenthesised) (sum m.cx' parenthesised') r := by
  have links : ∀ first r, Together m
      (repeatedly (link BinOp.additive? (term m.cx parenthesised)) first)
      (repeatedly (link BinOp.additive? (term m.cx' parenthesised')) first) r := by
    apply InStep.repeatedly (link_inStep _ (term_inStep inner))
    intro t period
    simp [BinOp.additive?, Token.isOperator_of_period period]
  apply InStep.acceptAs_bind
  · intro t period
    simp [Sign.ofToken?, Token.isOperator_of_period period]
  · rintro t sign ts rfl _
    exact (term_inStep inner ts).bind fun _ r' _ _ => links _ r'
  · exact (term_inStep inner r).bind fun _ r' _ _ => links _ r'

theorem parentheses_inStep (inner : ∀ r, Together m expr expr' r) (t : Token) (ts : List Token) :
    Together m (parentheses m.cx expr t) (parentheses m.cx' expr' t) (t :: ts) := by
  apply InStep.deeper
  apply InStep.loosen
  apply InStep.advance_bind
  apply (inner ts).bind
  intro e r' _ _
  apply (InStep.require _).bind
  · intro _ r'' _ _
    exact .pure trivial
  · intro t period
    exact Token.isDelimiter_eq_false_of_ne period (by decide)

theorem condition_inStep (inner : ∀ r, Together m expr expr' r) (r : List Token) :
    Together m (condition m.cx expr) (condition m.cx' expr') r := by
  apply InStep.loosen
  apply InStep.accept_bind
  · intro t period
    exact Token.isKeyword_of_period period "odd"
  · rintro t ts rfl _
    exact (inner ts).bind fun _ _ _ _ => .pure trivial
  intro _
  apply InStep.here_bind
  intro l
  apply (inner r).bind
  intro left r' _ _
  apply InStep.acceptAs_bind
  · intro t period
    simp [RelOp.ofToken?, Token.isOperator_of_period period]
  · rintro t op ts rfl _
    exact (inner ts).bind fun _ _ _ _ => .pure trivial
  · cases left.isMissing with
    | true => exact .pure trivial
    | false => exact .report_bind _ _ _ (.pure trivial)

end Expressions

theorem expression_inStep (m : Tandem) (room : Nat) (r : List Token) :
    Together m (expression m.cx room) (expression m.cx' room) r := by
  induction room generalizing r with
  | zero => exact sum_inStep (factor_inStep fun _ _ => .tooDeep) r
  | succ room ih => exact sum_inStep (factor_inStep (parentheses_inStep ih)) r

/-! ## Statements -/

section Statements

variable {expr expr' : Parser Expr} {stmt stmt' : Parser Stmt}

theorem assigned_inStep (inner : ∀ r, Together m expr expr' r) (name : String) (loc : Location)
    (r : List Token) : Together m (assigned expr name loc) (assigned expr' name loc) r :=
  (inner r).bind fun _ _ _ _ => .pure trivial

theorem assignment_inStep (inner : ∀ r, Together m expr expr' r) (t : Token) (ts : List Token) :
    InStep m ts (assignment m.cx expr t) (assignment m.cx' expr' t) (t :: ts) fun _ _ => True := by
  apply InStep.advance_bind
  apply InStep.loosen
  apply InStep.accept_bind
  · intro t period
    exact Token.isOperator_of_period period ":="
  · rintro _ ts' rfl _
    exact assigned_inStep inner _ _ ts'
  intro _
  apply InStep.peek_bind
  · intro _ _
    exact .report_bind _ _ _ (.pure trivial)
  intro next seen
  apply InStep.ite
  · intro equals
    obtain ⟨ts', rfl⟩ := seen.before (Token.isDelimiter_eq_false_of_isOperator equals)
    apply InStep.loosen
    apply InStep.report_bind
    apply InStep.advance_bind
    exact assigned_inStep inner _ _ ts'
  intro _
  apply InStep.ite
  · intro _
    exact .report_bind _ _ _ (assigned_inStep inner _ _ ts)
  · intro _
    exact .report_bind _ _ _ (.pure trivial)

theorem named_inStep (build : String → Location → Stmt) (t : Token) (ts : List Token) :
    InStep m ts (named m.cx build t) (named m.cx' build t) (t :: ts) fun _ _ => True := by
  apply InStep.advance_bind
  apply InStep.loosen
  apply InStep.accept_bind
  · intro t period
    exact Token.isIdentifier_of_period period
  · intro _ _ _ _
    exact .pure trivial
  · intro _
    exact .report_bind _ _ _ (.pure trivial)

theorem isDelimiter_period_of_startsStatement (starts : startsStatement t = true) :
    t.isDelimiter "." = false := by
  rw [Bool.eq_false_iff]
  intro period
  simp [startsStatement, startsAssignment, Token.isKeyword_of_period period,
    Token.kind_of_isDelimiter period] at starts

/-- Without a semicolon there is one more statement only where one starts, and its first token is taken. -/
theorem nextStatement_inStep
    (inner : ∀ r, InStep m r stmt stmt' r fun _ r' => r' <:+ past startsStatement r)
    (before : List Stmt) (r : List Token) :
    InStep m r (nextStatement m.cx stmt before) (nextStatement m.cx' stmt' before) r
      fun o r' => o.isSome = true → r'.length < r.length := by
  apply InStep.loosen
  apply InStep.accept_bind
  · intro t period
    exact Token.isDelimiter_eq_false_of_ne period (by decide)
  · rintro t ts rfl _
    apply (inner ts).bind
    intro s r' left _
    apply InStep.pure
    intro _
    exact Nat.lt_succ_of_le left.length_le
  intro _
  apply InStep.peek_bind
  · intro _ _
    exact .pure (by simp)
  intro t seen
  apply InStep.ite
  · intro starts
    obtain ⟨ts, rfl⟩ := seen.before (isDelimiter_period_of_startsStatement starts)
    apply InStep.report_bind
    apply (inner (t :: ts)).bind
    intro s r' _ left
    apply InStep.pure
    intro _
    rw [past, if_pos starts] at left
    exact Nat.lt_succ_of_le left.length_le
  · intro _
    exact .pure (by simp)

theorem compound_inStep
    (inner : ∀ r, InStep m r stmt stmt' r fun _ r' => r' <:+ past startsStatement r)
    (t : Token) (ts : List Token) :
    InStep m ts (compound m.cx stmt t) (compound m.cx' stmt' t) (t :: ts) fun _ _ => True := by
  apply InStep.advance_bind
  apply (inner ts).bind
  intro first r' _ _
  apply (InStep.repeatedly (nextStatement_inStep inner) [first] r').bind
  intro all r'' _ _
  apply (InStep.require _).bind
  · intro _ _ _ _
    exact .pure trivial
  · intro t period
    exact Token.isKeyword_of_period period "end"

theorem branch_inStep (innerExpr : ∀ r, Together m expr expr' r)
    (innerStmt : ∀ r, Together m stmt stmt' r) (t : Token) (ts : List Token) :
    InStep m ts (branch m.cx expr stmt t) (branch m.cx' expr' stmt' t) (t :: ts) fun _ _ => True := by
  apply InStep.advance_bind
  apply (condition_inStep innerExpr ts).bind
  intro c r _ _
  apply (InStep.require fun t period => Token.isKeyword_of_period period "then").bind
  intro _ r _ _
  apply (innerStmt r).bind
  intro yes r _ _
  apply InStep.loosen
  apply InStep.accept_bind
  · intro t period
    simp [Token.isElse, Token.kind_of_isDelimiter period]
  · rintro _ ts rfl _
    exact (innerStmt ts).bind fun _ _ _ _ => .pure trivial
  · intro _
    exact .pure trivial

theorem loop_inStep (innerExpr : ∀ r, Together m expr expr' r)
    (innerStmt : ∀ r, Together m stmt stmt' r) (t : Token) (ts : List Token) :
    InStep m ts (loop m.cx expr stmt t) (loop m.cx' expr' stmt' t) (t :: ts) fun _ _ => True := by
  apply InStep.advance_bind
  apply (condition_inStep innerExpr ts).bind
  intro c r _ _
  apply (InStep.require fun t period => Token.isKeyword_of_period period "do").bind
  intro _ r _ _
  exact (innerStmt r).bind fun _ _ _ _ => .pure trivial

/-- A token that starts a statement is taken by it. -/
theorem statementBody_inStep (innerExpr : ∀ r, Together m expr expr' r)
    (innerStmt : ∀ r, InStep m r stmt stmt' r fun _ r' => r' <:+ past startsStatement r)
    (r : List Token) :
    InStep m (past startsStatement r) (statementBody m.cx expr stmt) (statementBody m.cx' expr' stmt') r
      fun _ _ => True := by
  have inner : ∀ r, Together m stmt stmt' r := fun r =>
    (innerStmt r).weaken (List.suffix_refl r) (List.suffix_refl r) fun _ _ _ _ => trivial
  apply InStep.peek_bind
  · rintro rfl place
    rw [place]
    exact .pure trivial
  intro t seen
  have takes (other : t.isDelimiter "." = false) {q q' : Parser Stmt}
      (body : ∀ ts, InStep m ts q q' (t :: ts) fun _ _ => True) :
      InStep m (past startsStatement r) q q' r fun _ _ => True := by
    obtain ⟨ts, rfl⟩ := seen.before other
    exact (body ts).beyond startsStatement
  apply InStep.ite
  · intro starts
    refine takes (Token.isDelimiter_eq_false_of_kind ?_) (assignment_inStep innerExpr t)
    simp only [startsAssignment, Bool.and_eq_true, decide_eq_true_eq] at starts
    simp [starts.1]
  intro _
  apply InStep.ite
  · intro keyword
    exact takes (Token.isDelimiter_eq_false_of_isKeyword keyword) (named_inStep .call t)
  intro _
  apply InStep.ite
  · intro keyword
    exact takes (Token.isDelimiter_eq_false_of_isKeyword keyword) (named_inStep .read t)
  intro _
  apply InStep.ite
  · intro keyword
    exact takes (Token.isDelimiter_eq_false_of_isKeyword keyword) (named_inStep .write t)
  intro _
  apply InStep.ite
  · intro keyword
    exact takes (Token.isDelimiter_eq_false_of_isKeyword keyword) (compound_inStep innerStmt t)
  intro _
  apply InStep.ite
  · intro keyword
    exact takes (Token.isDelimiter_eq_false_of_isKeyword keyword) (branch_inStep innerExpr inner t)
  intro _
  apply InStep.ite
  · intro keyword
    exact takes (Token.isDelimiter_eq_false_of_isKeyword keyword) (loop_inStep innerExpr inner t)
  intro _
  apply InStep.ite
  · intro follows
    rw [past_eq_self]
    · exact .pure trivial
    · intro t' first
      obtain ⟨ts, rfl⟩ := List.head?_eq_some_iff.mp first
      obtain rfl : t' = t := by simpa [Tandem.Sees] using seen
      simp_all [startsStatement]
  · intro other
    refine takes ?_ fun ts => ?_
    · simp only [followsStatement, Bool.or_eq_true, not_or, Bool.not_eq_true] at other
      exact other.1.2
    · apply InStep.report_bind
      exact .advance_bind (.pure trivial)

end Statements

theorem statement_inStep (m : Tandem) (room : Nat) (r : List Token) :
    InStep m r (statement m.cx room) (statement m.cx' room) r
      fun _ r' => r' <:+ past startsStatement r := by
  induction room generalizing r with
  | zero => exact .tooDeep
  | succ room ih =>
    exact (InStep.deeper (statementBody_inStep (expression_inStep m room) ih r)).reach

/-! ## Declarations -/

section Declarations

variable {α : Type}

theorem constSign_inStep (name : String) (r : List Token) :
    Together m (constSign m.cx name) (constSign m.cx' name) r := by
  apply InStep.loosen
  apply InStep.accept_bind
  · intro t period
    exact Token.isOperator_of_period period "="
  · intro _ _ _ _
    exact .pure trivial
  intro _
  apply InStep.peek_bind
  · intro _ _
    exact .malformed _ _
  intro t seen
  apply InStep.ite
  · intro sign
    obtain ⟨ts, rfl⟩ := seen.before (Token.isDelimiter_eq_false_of_isOperator sign)
    apply InStep.loosen
    apply InStep.report_bind
    exact .take (fun _ _ => rfl) (fun _ _ => rfl) (.pure trivial)
  · intro _
    exact .malformed _ _

theorem constDecl_inStep (r : List Token) :
    InStep m (past (·.kind = .identifier) r) (constDecl m.cx) (constDecl m.cx') r fun _ _ => True := by
  apply InStep.accept_bind
  · intro t period
    exact Token.isIdentifier_of_period period
  · rintro name ts rfl _
    apply (constSign_inStep name.lexeme ts).bind
    intro _ r _ _
    apply InStep.assuming (List.suffix_refl r)
    intro readable
    apply InStep.loosen
    apply InStep.accept_bind
    · intro t period
      exact Token.isInteger_of_period period
    · rintro number ts rfl integer
      exact .integerValue_bind (readable number List.mem_cons_self) (of_decide_eq_true integer) fun _ =>
        .pure trivial
    · intro _
      exact .malformed _ _
  · intro _
    exact .malformed _ _

theorem varDecl_inStep (r : List Token) :
    InStep m (past (·.kind = .identifier) r) (varDecl m.cx) (varDecl m.cx') r fun _ _ => True := by
  apply InStep.accept_bind
  · intro t period
    exact Token.isIdentifier_of_period period
  · intro _ _ _ _
    exact .pure trivial
  · intro _
    exact .malformed _ _

/-- The search for a landmark ends at a period. -/
theorem declaration_inStep {decl decl' : Parser α} {b r : List Token}
    (inner : InStep m b decl decl' r fun _ _ => True) (before : List α) :
    InStep m b (declaration decl before) (declaration decl' before) r fun _ _ => True := by
  apply (InStep.catching inner).bind
  intro result r' _ _
  cases result with
  | ok d => exact .pure trivial
  | error h =>
    cases h with
    | malformed wanted loc =>
      refine .skipWhile_bind ?_ fun _ => .pure trivial
      intro t period
      simp [isLandmark, period]
    | tooDeep limit loc => exact .halt _
    | unreadable cause => exact .halt _
    | blankLimit => exact .halt _

/-- Without a comma there is one more declaration only at a name, and the name is taken. -/
theorem nextDeclaration_inStep {decl decl' : Parser α}
    (inner : ∀ r, InStep m (past (·.kind = .identifier) r) decl decl' r fun _ _ => True)
    (between : Place) (before : List α) (r : List Token) :
    InStep m r (nextDeclaration m.cx decl between before) (nextDeclaration m.cx' decl' between before) r
      fun o r' => o.isSome = true → r'.length < r.length := by
  apply InStep.loosen
  apply InStep.accept_bind
  · intro t period
    exact Token.isDelimiter_eq_false_of_ne period (by decide)
  · rintro t ts rfl _
    apply (declaration_inStep (inner ts) before).loosen.bind
    intro all r' left _
    apply InStep.pure
    intro _
    exact Nat.lt_succ_of_le left.length_le
  intro _
  apply InStep.peek_bind
  · intro _ _
    exact .pure (by simp)
  intro t seen
  apply InStep.ite
  · intro identifier
    obtain ⟨ts, rfl⟩ := seen.before (Token.isDelimiter_eq_false_of_kind (by simp [identifier]))
    apply InStep.report_bind
    apply (declaration_inStep (inner (t :: ts)) before).reach.bind
    intro all r' _ left
    apply InStep.pure
    intro _
    rw [past, if_pos (decide_eq_true identifier)] at left
    exact Nat.lt_succ_of_le left.length_le
  · intro _
    exact .pure (by simp)

theorem requireSemicolon_inStep (place : Place) (r : List Token) :
    Together m (requireDelimiter m.cx ";" place) (requireDelimiter m.cx' ";" place) r :=
  .require fun _ period => Token.isDelimiter_eq_false_of_ne period (by decide)

theorem declarations_inStep {decl decl' : Parser α}
    (inner : ∀ r, InStep m (past (·.kind = .identifier) r) decl decl' r fun _ _ => True)
    (between behind : Place) (r : List Token) :
    Together m (declarations m.cx decl between behind) (declarations m.cx' decl' between behind) r := by
  apply (declaration_inStep (inner r) []).loosen.bind
  intro first r' _ _
  apply (InStep.repeatedly (nextDeclaration_inStep inner between) first r').bind
  intro all r'' _ _
  exact (requireSemicolon_inStep _ r'').bind fun _ _ _ _ => .pure trivial

end Declarations

/-! ## Blocks -/

section Blocks

variable {block block' : Parser Block} {stmt stmt' : Parser Stmt}

theorem procedureBody_inStep (inner : ∀ r, Together m block block' r) (f : Block → List Procedure)
    (r : List Token) :
    Together m
      (do
        requireDelimiter m.cx ";" .afterProcedureHeader
        let b ← block
        requireDelimiter m.cx ";" .afterProcedureBody
        return f b)
      (do
        requireDelimiter m.cx' ";" .afterProcedureHeader
        let b ← block'
        requireDelimiter m.cx' ";" .afterProcedureBody
        return f b) r := by
  apply (requireSemicolon_inStep _ r).bind
  intro _ r _ _
  apply (inner r).bind
  intro b r _ _
  exact (requireSemicolon_inStep _ r).bind fun _ _ _ _ => .pure trivial

theorem procedure_inStep (inner : ∀ r, Together m block block' r) (t : Token) (r : List Token) :
    Together m (procedure m.cx block t) (procedure m.cx' block' t) r := by
  apply InStep.loosen
  apply InStep.accept_bind
  · intro t period
    exact Token.isIdentifier_of_period period
  · rintro name ts rfl _
    exact procedureBody_inStep inner (fun b => [⟨name.lexeme, b, t.loc⟩]) ts
  · intro _
    exact .report_bind _ _ _ (procedureBody_inStep inner (fun _ => []) r)

theorem checkOrder_inStep (last : Option Section) (s : Section) (t : Token) (r : List Token) :
    Together m (checkOrder last s t) (checkOrder last s t) r := by
  cases last with
  | none => exact .pure trivial
  | some l =>
    apply InStep.ite
    · intro _
      exact .pure trivial
    · intro _
      exact .record _

theorem nextSection_inStep (inner : ∀ r, Together m block block' r) (d : Declared) (r : List Token) :
    InStep m r (nextSection m.cx block d) (nextSection m.cx' block' d) r
      fun o r' => o.isSome = true → r'.length < r.length := by
  apply InStep.acceptAs_bind
  · intro t period
    simp [Section.ofToken?, Token.isKeyword_of_period period]
  · rintro t s ts rfl _
    have kept {r' : List Token} {o : Option Declared} (left : r' <:+ ts) :
        o.isSome = true → r'.length < (t :: ts).length := fun _ =>
      Nat.lt_succ_of_le left.length_le
    apply (checkOrder_inStep d.last s t ts).bind
    intro _ r left _
    cases s with
    | const =>
      exact (declarations_inStep constDecl_inStep _ _ r).bind fun _ _ left' _ =>
        .pure (kept (left'.trans left))
    | var =>
      exact (declarations_inStep varDecl_inStep _ _ r).bind fun _ _ left' _ =>
        .pure (kept (left'.trans left))
    | procedure =>
      exact (procedure_inStep inner t r).bind fun _ _ left' _ => .pure (kept (left'.trans left))
  · exact .pure (by simp)

theorem blockBody_inStep (innerBlock : ∀ r, Together m block block' r)
    (innerStmt : ∀ r, Together m stmt stmt' r) (r : List Token) :
    Together m (blockBody m.cx block stmt) (blockBody m.cx' block' stmt') r := by
  apply InStep.here_bind
  intro loc
  apply (InStep.repeatedly (nextSection_inStep innerBlock) {} r).bind
  intro d r' _ _
  exact (innerStmt r').bind fun _ _ _ _ => .pure trivial

end Blocks

/-- Up to a stop two inputs are read as the same block. -/
theorem block_inStep (m : Tandem) (room : Nat) (r : List Token) :
    Together m (block m.cx room) (block m.cx' room) r := by
  induction room generalizing r with
  | zero => exact .tooDeep
  | succ room ih =>
    have statements (r : List Token) :
        Together m (statement m.cx room) (statement m.cx' room) r :=
      (statement_inStep m room r).weaken (List.suffix_refl r) (List.suffix_refl r) fun _ _ _ _ => trivial
    exact .deeper (blockBody_inStep ih statements r)

/-! ## Programs -/

/-- The same complaint is made about what is left behind a program, or all that is left is what follows
the stop. -/
def Tandem.Leaves (m : Tandem) (left left' : List Token) : Prop :=
  trailing left' = trailing left ∨ left = m.tail.tail ∧ left' = m.tail'.tail

theorem Tandem.leaves_append (m : Tandem) (r : List Token) : m.Leaves (r ++ m.tail) (r ++ m.tail') := by
  refine .inl ?_
  have head := Tandem.head_append (m := m) r
  cases left : r ++ m.tail with
  | nil =>
    rw [left, List.head?_nil, List.head?_eq_none_iff] at head
    rw [head]
  | cons t ts =>
    rw [left, List.head?_cons, List.head?_eq_some_iff] at head
    obtain ⟨ts', left'⟩ := head
    rw [left']
    rfl

/-- A program ends with the stop at the latest. -/
theorem requirePeriod_inStep (m : Tandem) (r : List Token) (depth : Nat) (log : Log) :
    ∃ left left' log', m.Leaves left left' ∧ log.entries <+: log'.entries ∧
      requireDelimiter m.cx "." .endOfProgram ⟨r ++ m.tail, depth, log⟩ = .ok () ⟨left, depth, log'⟩ ∧
      requireDelimiter m.cx' "." .endOfProgram ⟨r ++ m.tail', depth, log⟩ =
        .ok () ⟨left', depth, log'⟩ := by
  cases r with
  | nil =>
    have head := m.head
    have missing := Tandem.missingAt_append (m := m) (.symbol ".") .endOfProgram .assumedPresent []
    cases stop : m.tail with
    | nil =>
      rw [stop, List.head?_nil, List.head?_eq_none_iff] at head
      rw [stop, head, List.append_nil] at missing
      refine ⟨[], [], _, .inl rfl, List.prefix_append _ _, require_nil _ _ _, ?_⟩
      rw [head]
      refine (require_nil _ _ _).trans ?_
      rw [missing]
      rfl
    | cons d rest =>
      rw [stop, List.head?_cons, List.head?_eq_some_iff] at head
      obtain ⟨rest', head⟩ := head
      have period := m.stop d (by rw [stop]; rfl)
      refine ⟨rest, rest', log, .inr ⟨by rw [stop]; rfl, by rw [head]; rfl⟩, List.prefix_refl _,
        require_cons_of_pos period _ _, ?_⟩
      rw [head]
      exact require_cons_of_pos period _ _
  | cons t ts =>
    cases period : t.isDelimiter "." with
    | true =>
      exact ⟨_, _, _, m.leaves_append ts, List.prefix_refl _, require_cons_of_pos period _ _,
        require_cons_of_pos period _ _⟩
    | false =>
      exact ⟨_, _, _, m.leaves_append (t :: ts), List.prefix_append _ _, require_cons_of_neg period _ _,
        require_cons_of_neg period _ _⟩

theorem closedBlock_inStep (m : Tandem) (room : Nat) {ts : List Token}
    (readable : ∀ t ∈ ts, t.Readable) :
    let x := closedBlock m.cx room ⟨ts ++ m.tail, 0, {}⟩
    m.Excused (final x).log ∨ ∃ left', m.Leaves (final x).rest left' ∧
      closedBlock m.cx' room ⟨ts ++ m.tail', 0, {}⟩ = leaving left' x := by
  intro x
  obtain ⟨r, _, rest, _, _, same⟩ := (block_inStep m room ts).run readable 0 {}
  simp only [x, closedBlock, bind_apply]
  cases result : block m.cx room ⟨ts ++ m.tail, 0, {}⟩ with
  | error h s =>
    rw [result] at rest same
    refine same.imp_right fun same => ⟨r ++ m.tail', ?_, ?_⟩
    · rw [rest]
      exact m.leaves_append r
    · rw [same]
      rfl
  | ok b s =>
    obtain ⟨left, depth, log⟩ := s
    rw [result] at rest same
    obtain rfl : left = r ++ m.tail := rest
    obtain ⟨left, left', log', leaves, grown, required, required'⟩ := requirePeriod_inStep m r depth log
    simp only [required]
    refine same.imp (fun excused => excused.mono grown) fun same => ⟨left', leaves, ?_⟩
    rw [same]
    simp only [leaving, required']
    rfl

/-- A whole program is read in the same way whatever follows the stop.  What does follow it is the
business of the last complaint at most. -/
theorem parseTokens_inStep (m : Tandem) {limits limits' : Limits} {file : String} {ts : List Token}
    (start : m.cx = .ofTokens limits file (ts ++ m.tail))
    (start' : m.cx' = .ofTokens limits' file (ts ++ m.tail')) (readable : ∀ t ∈ ts, t.Readable)
    {p : Program} {log : Log} (parsed : parseTokens limits file (ts ++ m.tail) = .ok (p, log)) :
    m.Excused log ∨ ∃ log', parseTokens limits' file (ts ++ m.tail') = .ok (p, log') ∧
      (log' = log ∨ ∃ before, log.entries = before ++ trailing m.tail.tail ∧
        log'.entries = before ++ trailing m.tail'.tail) := by
  have levels : limits'.maxNesting = limits.maxNesting := by
    have nesting := m.nesting
    rwa [start, start'] at nesting
  have ends := closedBlock_inStep m limits.maxNesting.toNat readable
  rw [parseTokens_eq, ← start] at parsed
  rw [parseTokens_eq, ← start', levels, Tandem.front_append]
  cases run : closedBlock m.cx limits.maxNesting.toNat ⟨ts ++ m.tail, 0, {}⟩ with
  | ok b s =>
    rw [run] at parsed ends
    obtain ⟨rfl, rfl⟩ := Prod.mk.inj (Except.ok.inj parsed)
    refine ends.imp (fun excused => excused.mono (List.prefix_append _ _)) ?_
    rintro ⟨left', leaves, run'⟩
    rw [run']
    refine ⟨_, rfl, ?_⟩
    cases leaves with
    | inl alike =>
      refine .inl ?_
      rw [alike]
      rfl
    | inr behind =>
      obtain ⟨left, rfl⟩ := behind
      refine .inr ⟨s.log.entries, ?_, rfl⟩
      rw [← left]
      rfl
  | error h s =>
    rw [run] at parsed ends
    cases h with
    | tooDeep limit loc =>
      obtain ⟨rfl, rfl⟩ := Prod.mk.inj (Except.ok.inj parsed)
      refine ends.imp (fun excused => excused.mono (List.prefix_append _ _)) ?_
      rintro ⟨left', _, run'⟩
      rw [run']
      exact ⟨_, rfl, .inl rfl⟩
    | malformed | unreadable | blankLimit => cases parsed

end Parser

end PlZero

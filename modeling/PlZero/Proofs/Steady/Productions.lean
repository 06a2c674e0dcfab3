import PlZero.Proofs.Parser.Steady

/-! # Steady productions

No production sees more than the next token, so all of them are steady.  The cases of each proof are those of
the parser; what there is to show in them is that a turn of a loop takes a token.  The loops over statements
and declarations go on at a token that they leave to the parser inside, and that parser takes it
(`statementBody_steady`, `constDecl_steady`, `varDecl_steady`).  Of expressions and statements there is said
more: which first tokens they take, and that they take nothing at any other.
-/

namespace PlZero

namespace Parser

variable {cx : Context}

/-- Wherever it starts, the parser sees nothing behind what it leaves. -/
abbrev Shortsighted {α : Type} (p : Parser α) : Prop := ∀ r, Steady r p r fun _ _ => True

/-! ## Expressions -/

/-- Whether a factor takes a token that comes first. -/
def entersFactor (t : Token) : Bool :=
  t.kind = .identifier || t.kind = .integer || t.kind = .unknown || t.isDelimiter "("

/-- Whether an expression takes a token that comes first.  An operator between factors is taken although the
factor before it is missing. -/
def entersExpression (t : Token) : Bool :=
  entersFactor t || t.isOperator "+" || t.isOperator "-" || t.isOperator "*" || t.isOperator "/"

section Expressions

variable {parenthesised : Token → Parser Expr} {expr : Parser Expr}

theorem factor_steady
    (inner : ∀ t ts, Steady (t :: ts) (parenthesised t) (t :: ts) fun _ r' => r' <:+ ts) (r : List Token) :
    Steady r (factor cx parenthesised) r fun _ r' => Consumes entersFactor r r' := by
  apply Steady.peek_bind
  · rintro rfl
    exact .report_bind _ _ _ (.pure rfl)
  rintro t ts rfl
  apply Steady.ite
  · intro identifier
    exact .advance_consuming (.pure trivial) (by simp [entersFactor, identifier])
  intro noName
  apply Steady.ite
  · intro integer
    exact .advance_consuming ((Steady.integerValue t).bind fun _ _ _ _ => .pure trivial)
      (by simp [entersFactor, integer])
  intro noNumber
  apply Steady.ite
  · intro opening
    refine (inner t ts).mono fun _ _ _ left => ?_
    exact .of_wanted (by simp [entersFactor, opening]) left
  intro noGroup
  apply Steady.ite
  · intro unknown
    apply Steady.report_bind
    exact .advance_consuming (.pure trivial) (by simp [entersFactor, unknown])
  · intro known
    apply Steady.report_bind
    exact .pure (.refl (by simp [entersFactor, noName, noNumber, noGroup, known]))

/-- An operator is taken before its operand. -/
theorem link_steady {op? : Token → Option BinOp} {operand : Parser Expr} (inner : Shortsighted operand)
    (left : Expr) (r : List Token) :
    Steady r (link op? operand left) r fun o r' => o.isSome = true → r'.length < r.length := by
  apply Steady.acceptAs_bind
  · rintro t op ts rfl _
    apply (inner ts).bind
    intro right r' left _
    apply Steady.pure
    intro _
    exact Nat.lt_succ_of_le left.length_le
  · intro _
    exact .pure (by simp)

/-- A chain goes on if and only if it comes to an operator. -/
theorem links_steady {op? : Token → Option BinOp} {operand : Parser Expr} (inner : Shortsighted operand)
    (first : Expr) (r : List Token) :
    Steady r (repeatedly (link op? operand) first) r fun _ r' => Consumes (op? · |>.isSome) r r' := by
  have onwards : ∀ left, Shortsighted (repeatedly (link op? operand) left) :=
    Steady.repeatedly (link_steady inner) (fun _ _ _ => rfl)
  -- only the first turn can see the first token; what comes behind it just takes more
  rw [repeatedly_eq (Steady.progress (link_steady inner)) (fun _ _ _ => rfl), link, bind_assoc]
  apply Steady.acceptAs_bind
  · rintro t op ts rfl reading
    rw [bind_assoc]
    refine ((inner ts).bind fun right r' _ _ => onwards _ r').mono fun _ _ left _ => ?_
    exact .of_wanted (by simp [reading]) left
  · intro declined
    exact .pure (.refl (by simpa using declined))

/-- A missing factor leaves its token to the operator behind it. -/
theorem term_steady
    (inner : ∀ t ts, Steady (t :: ts) (parenthesised t) (t :: ts) fun _ r' => r' <:+ ts) (r : List Token) :
    Steady r (term cx parenthesised) r fun _ r' =>
      Consumes (fun t => entersFactor t || (BinOp.multiplicative? t).isSome) r r' := by
  have operand : Shortsighted (factor cx parenthesised) := fun r => (factor_steady inner r).forget
  apply (factor_steady inner r).bind
  intro first r' _ before
  exact (links_steady operand first r').mono fun _ _ _ behind => before.trans behind

theorem sum_steady
    (inner : ∀ t ts, Steady (t :: ts) (parenthesised t) (t :: ts) fun _ r' => r' <:+ ts) (r : List Token) :
    Steady r (sum cx parenthesised) r fun _ r' => Consumes entersExpression r r' := by
  have operand : Shortsighted (term cx parenthesised) := fun r => (term_steady inner r).forget
  apply Steady.acceptAs_bind
  · rintro t sign ts rfl reading
    have signed : entersExpression t = true := by
      grind [Sign.ofToken?, entersExpression]
    refine ((operand ts).bind fun _ r' _ _ => (links_steady operand _ r').forget).mono
      fun _ _ left _ => ?_
    exact .of_wanted signed left
  intro _
  -- without a sign, the operators are those of the chains of factors and of terms
  apply (term_steady inner r).bind
  intro first r' _ before
  refine (links_steady operand first r').mono fun _ _ _ behind => (before.trans behind).congr fun t => ?_
  grind [entersExpression, BinOp.multiplicative?, BinOp.additive?]

theorem parentheses_steady (inner : Shortsighted expr) (t : Token) (ts : List Token) :
    Steady ts (parentheses cx expr t) (t :: ts) fun _ _ => True := by
  apply Steady.deeper
  apply Steady.advance_bind
  apply (inner ts).bind
  intro e r' _ _
  exact (Steady.require _ _ _).bind fun _ _ _ _ => .pure trivial

theorem condition_steady (inner : Shortsighted expr) : Shortsighted (condition cx expr) := by
  intro r
  apply Steady.loosen
  apply Steady.accept_bind
  · rintro t ts rfl _
    exact (inner ts).bind fun _ _ _ _ => .pure trivial
  intro _
  apply Steady.here_bind
  intro l
  apply (inner r).bind
  intro left r' _ _
  apply Steady.acceptAs_bind
  · rintro t op ts rfl _
    exact (inner ts).bind fun _ _ _ _ => .pure trivial
  · intro _
    cases left.isMissing with
    | true => exact .pure trivial
    | false => exact .report_bind _ _ _ (.pure trivial)

end Expressions

/-- An expression takes its first token, or nothing if that is not for it. -/
theorem expression_steady (cx : Context) (room : Nat) (r : List Token) :
    Steady r (expression cx room) r fun _ r' => Consumes entersExpression r r' := by
  induction room generalizing r with
  | zero => exact sum_steady (fun _ _ => .tooDeep) r
  | succ room ih =>
    exact sum_steady (fun t ts => (parentheses_steady (fun r => (ih r).forget) t ts).reach) r

theorem expression_shortsighted (cx : Context) (room : Nat) : Shortsighted (expression cx room) := fun r =>
  (expression_steady cx room r).forget

/-! ## Statements -/

theorem followsStatement_of_starts {t : Token} (starts : startsStatement t = true) :
    followsStatement t = false := by
  grind [startsStatement, startsAssignment, followsStatement, Token.isElse, Token.isKeyword,
    Token.isDelimiter]

section Statements

variable {expr : Parser Expr} {stmt : Parser Stmt}

theorem assigned_steady (inner : Shortsighted expr) (name : String) (loc : Location) :
    Shortsighted (assigned expr name loc) :=
  fun r => (inner r).bind fun _ _ _ _ => .pure trivial

theorem assignment_steady (inner : Shortsighted expr) (t : Token) (ts : List Token) :
    Steady ts (assignment cx expr t) (t :: ts) fun _ _ => True := by
  apply Steady.advance_bind
  apply Steady.loosen
  apply Steady.accept_bind
  · rintro _ ts' rfl _
    exact assigned_steady inner _ _ ts'
  intro _
  apply Steady.peek_bind
  · intro _
    exact .report_bind _ _ _ (.pure trivial)
  rintro next ts' rfl
  apply Steady.ite
  · intro _
    apply Steady.loosen
    apply Steady.report_bind
    apply Steady.advance_bind
    exact assigned_steady inner _ _ ts'
  intro _
  apply Steady.ite
  · intro _
    exact .report_bind _ _ _ (assigned_steady inner _ _ _)
  · intro _
    exact .report_bind _ _ _ (.pure trivial)

theorem named_steady (build : String → Location → Stmt) (t : Token) (ts : List Token) :
    Steady ts (named cx build t) (t :: ts) fun _ _ => True := by
  apply Steady.advance_bind
  apply Steady.loosen
  apply Steady.accept_bind
  · intro _ _ _ _
    exact .pure trivial
  · intro _
    exact .report_bind _ _ _ (.pure trivial)

/-- Without a semicolon there is one more statement only where one starts, and its first token is taken. -/
theorem nextStatement_steady (inner : ∀ r, Steady r stmt r fun _ r' => Consumes (!followsStatement ·) r r')
    (before : List Stmt) (r : List Token) :
    Steady r (nextStatement cx stmt before) r fun o r' => o.isSome = true → r'.length < r.length := by
  apply Steady.loosen
  apply Steady.accept_bind
  · rintro t ts rfl _
    apply (inner ts).bind
    intro s r' left _
    apply Steady.pure
    intro _
    exact Nat.lt_succ_of_le left.length_le
  intro _
  apply Steady.peek_bind
  · intro _
    exact .pure (by simp)
  rintro t ts rfl
  apply Steady.ite
  · intro starts
    apply Steady.report_bind
    apply (inner (t :: ts)).bind
    intro s r' _ left
    apply Steady.pure
    intro _
    have behind := left.behind (by simp [followsStatement_of_starts starts])
    exact Nat.lt_succ_of_le behind.length_le
  · intro _
    exact .pure (by simp)

theorem compound_steady (inner : ∀ r, Steady r stmt r fun _ r' => Consumes (!followsStatement ·) r r')
    (t : Token) (ts : List Token) : Steady ts (compound cx stmt t) (t :: ts) fun _ _ => True := by
  apply Steady.advance_bind
  apply (inner ts).bind
  intro first r' _ _
  apply (Steady.repeatedly (nextStatement_steady inner) (fun _ _ _ => rfl) [first] r').bind
  intro all r'' _ _
  exact (Steady.require _ _ _).bind fun _ _ _ _ => .pure trivial

theorem branch_steady (innerExpr : Shortsighted expr) (innerStmt : Shortsighted stmt) (t : Token)
    (ts : List Token) : Steady ts (branch cx expr stmt t) (t :: ts) fun _ _ => True := by
  apply Steady.advance_bind
  apply (condition_steady innerExpr ts).bind
  intro c r _ _
  apply (Steady.require _ _ _).bind
  intro _ r _ _
  apply (innerStmt r).bind
  intro yes r _ _
  apply Steady.loosen
  apply Steady.accept_bind
  · rintro _ ts rfl _
    exact (innerStmt ts).bind fun _ _ _ _ => .pure trivial
  · intro _
    exact .pure trivial

theorem loop_steady (innerExpr : Shortsighted expr) (innerStmt : Shortsighted stmt) (t : Token)
    (ts : List Token) : Steady ts (loop cx expr stmt t) (t :: ts) fun _ _ => True := by
  apply Steady.advance_bind
  apply (condition_steady innerExpr ts).bind
  intro c r _ _
  apply (Steady.require _ _ _).bind
  intro _ r _ _
  exact (innerStmt r).bind fun _ _ _ _ => .pure trivial

/-- A statement takes its first token, unless that is one that can follow a statement. -/
theorem statementBody_steady (innerExpr : Shortsighted expr)
    (innerStmt : ∀ r, Steady r stmt r fun _ r' => Consumes (!followsStatement ·) r r') (r : List Token) :
    Steady r (statementBody cx expr stmt) r fun _ r' => Consumes (!followsStatement ·) r r' := by
  have inner : Shortsighted stmt := fun r => (innerStmt r).forget
  apply Steady.peek_bind
  · rintro rfl
    exact .pure rfl
  rintro t ts rfl
  have starting (starts : startsStatement t = true) : (!followsStatement t) = true := by
    simp [followsStatement_of_starts starts]
  apply Steady.ite
  · intro name
    exact (assignment_steady innerExpr t ts).consuming (starting (by simp [startsStatement, name]))
  intro _
  apply Steady.ite
  · intro call
    exact (named_steady .call t ts).consuming (starting (by simp [startsStatement, call]))
  intro _
  apply Steady.ite
  · intro read
    exact (named_steady .read t ts).consuming (starting (by simp [startsStatement, read]))
  intro _
  apply Steady.ite
  · intro write
    exact (named_steady .write t ts).consuming (starting (by simp [startsStatement, write]))
  intro _
  apply Steady.ite
  · intro begins
    exact (compound_steady innerStmt t ts).consuming (starting (by simp [startsStatement, begins]))
  intro _
  apply Steady.ite
  · intro branches
    exact (branch_steady innerExpr inner t ts).consuming (starting (by simp [startsStatement, branches]))
  intro _
  apply Steady.ite
  · intro loops
    exact (loop_steady innerExpr inner t ts).consuming (starting (by simp [startsStatement, loops]))
  intro _
  apply Steady.ite
  · intro follows
    exact .pure (.refl (by simp [follows]))
  · intro stray
    apply Steady.report_bind
    exact .advance_consuming (.pure trivial) (by simpa using stray)

end Statements

theorem statement_steady (cx : Context) (room : Nat) (r : List Token) :
    Steady r (statement cx room) r fun _ r' => Consumes (!followsStatement ·) r r' := by
  induction room generalizing r with
  | zero => exact .tooDeep
  | succ room ih => exact .deeper (statementBody_steady (expression_shortsighted cx room) ih r)

theorem statement_shortsighted (cx : Context) (room : Nat) : Shortsighted (statement cx room) := fun r =>
  (statement_steady cx room r).forget

/-! ## Declarations -/

section Declarations

variable {α : Type} {decl : Parser α}

theorem constSign_steady (name : String) : Shortsighted (constSign cx name) := by
  intro r
  apply Steady.loosen
  apply Steady.accept_bind
  · intro _ _ _ _
    exact .pure trivial
  intro _
  apply Steady.peek_bind
  · intro _
    exact .malformed _ _
  rintro t ts rfl
  apply Steady.ite
  · intro _
    apply Steady.loosen
    apply Steady.report_bind
    exact .take (fun _ _ _ => rfl) (.pure trivial)
  · intro _
    exact .malformed _ _

theorem constDecl_steady (r : List Token) :
    Steady (past (·.kind = .identifier) r) (constDecl cx) r fun _ _ => True := by
  apply Steady.accept_bind
  · rintro name ts rfl _
    apply (constSign_steady name.lexeme ts).bind
    intro _ r _ _
    apply Steady.loosen
    apply Steady.accept_bind
    · rintro number ts rfl _
      exact (Steady.integerValue number).bind fun _ _ _ _ => .pure trivial
    · intro _
      exact .malformed _ _
  · intro _
    exact .malformed _ _

theorem varDecl_steady (r : List Token) :
    Steady (past (·.kind = .identifier) r) (varDecl cx) r fun _ _ => True := by
  apply Steady.accept_bind
  · intro _ _ _ _
    exact .pure trivial
  · intro _
    exact .malformed _ _

theorem declaration_steady {b r : List Token} (inner : Steady b decl r fun _ _ => True)
    (before : List α) : Steady b (declaration decl before) r fun _ _ => True := by
  apply (Steady.catching inner).bind
  intro result r' _ _
  cases result with
  | ok d => exact .pure trivial
  | error h =>
    cases h with
    -- the search for a landmark ends at what is left, if anything is
    | malformed wanted loc => exact .skipWhile_bind fun _ => .pure trivial
    | tooDeep limit loc => exact .halt _
    | unreadable cause => exact .halt _
    | blankLimit => exact .halt _

/-- Without a comma there is one more declaration only at a name, and the name is taken. -/
theorem nextDeclaration_steady
    (inner : ∀ r, Steady (past (·.kind = .identifier) r) decl r fun _ _ => True)
    (between : Place) (before : List α) (r : List Token) :
    Steady r (nextDeclaration cx decl between before) r
      fun o r' => o.isSome = true → r'.length < r.length := by
  apply Steady.loosen
  apply Steady.accept_bind
  · rintro t ts rfl _
    apply (declaration_steady (inner ts) before).loosen.bind
    intro all r' left _
    apply Steady.pure
    intro _
    exact Nat.lt_succ_of_le left.length_le
  intro _
  apply Steady.peek_bind
  · intro _
    exact .pure (by simp)
  rintro t ts rfl
  apply Steady.ite
  · intro identifier
    apply Steady.report_bind
    apply (declaration_steady (inner (t :: ts)) before).reach.bind
    intro all r' _ left
    apply Steady.pure
    intro _
    rw [past, if_pos (decide_eq_true identifier)] at left
    exact Nat.lt_succ_of_le left.length_le
  · intro _
    exact .pure (by simp)

theorem declarations_steady
    (inner : ∀ r, Steady (past (·.kind = .identifier) r) decl r fun _ _ => True)
    (between behind : Place) : Shortsighted (declarations cx decl between behind) := by
  intro r
  apply (declaration_steady (inner r) []).loosen.bind
  intro first r' _ _
  apply (Steady.repeatedly (nextDeclaration_steady inner between) (fun _ _ _ => rfl) first r').bind
  intro all r'' _ _
  exact (Steady.require _ _ _).bind fun _ _ _ _ => .pure trivial

end Declarations

/-! ## Blocks -/

section Blocks

variable {block : Parser Block} {stmt : Parser Stmt}

theorem procedureBody_steady (inner : Shortsighted block) (f : Block → List Procedure) :
    Shortsighted (do
      requireDelimiter cx ";" .afterProcedureHeader
      let b ← block
      requireDelimiter cx ";" .afterProcedureBody
      return f b) := by
  intro r
  apply (Steady.require _ _ _).bind
  intro _ r _ _
  apply (inner r).bind
  intro b r _ _
  exact (Steady.require _ _ _).bind fun _ _ _ _ => .pure trivial

theorem procedure_steady (inner : Shortsighted block) (t : Token) :
    Shortsighted (procedure cx block t) := by
  intro r
  apply Steady.loosen
  apply Steady.accept_bind
  · rintro name ts rfl _
    exact procedureBody_steady inner (fun b => [⟨name.lexeme, b, t.loc⟩]) ts
  · intro _
    exact .report_bind _ _ _ (procedureBody_steady inner (fun _ => []) r)

theorem checkOrder_steady (last : Option Section) (s : Section) (t : Token) :
    Shortsighted (checkOrder last s t) := by
  intro r
  cases last with
  | none => exact .pure trivial
  | some l =>
    apply Steady.ite
    · intro _
      exact .pure trivial
    · intro _
      exact .record _

theorem nextSection_steady (inner : Shortsighted block) (d : Declared) (r : List Token) :
    Steady r (nextSection cx block d) r fun o r' => o.isSome = true → r'.length < r.length := by
  apply Steady.acceptAs_bind
  · rintro t s ts rfl _
    have kept {r' : List Token} {o : Option Declared} (left : r' <:+ ts) :
        o.isSome = true → r'.length < (t :: ts).length := fun _ =>
      Nat.lt_succ_of_le left.length_le
    apply (checkOrder_steady d.last s t ts).bind
    intro _ r left _
    cases s with
    | const =>
      exact (declarations_steady constDecl_steady _ _ r).bind fun _ _ left' _ =>
        .pure (kept (left'.trans left))
    | var =>
      exact (declarations_steady varDecl_steady _ _ r).bind fun _ _ left' _ =>
        .pure (kept (left'.trans left))
    | procedure =>
      exact (procedure_steady inner t r).bind fun _ _ left' _ => .pure (kept (left'.trans left))
  · intro _
    exact .pure (by simp)

theorem blockBody_steady (innerBlock : Shortsighted block) (innerStmt : Shortsighted stmt) :
    Shortsighted (blockBody cx block stmt) := by
  intro r
  apply Steady.here_bind
  intro loc
  apply (Steady.repeatedly (nextSection_steady innerBlock) (fun _ _ _ => rfl) {} r).bind
  intro d r' _ _
  exact (innerStmt r').bind fun _ _ _ _ => .pure trivial

end Blocks

theorem block_steady (cx : Context) (room : Nat) : Shortsighted (block cx room) := by
  induction room with
  | zero => exact fun _ => .tooDeep
  | succ room ih => exact fun r => .deeper (blockBody_steady ih (statement_shortsighted cx room) r)

end Parser

end PlZero

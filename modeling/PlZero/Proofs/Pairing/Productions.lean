import PlZero.Proofs.Parser.Pairing
import PlZero.Proofs.Program

/-! # Productions at paired tokens

Every production gives the same tree in both runs, each tree seen in the view of its run.  As with the
limit on nesting, the productions take the parsers inside as parameters, so each of them is compared
once and the recursion on the room that is left closes the circle.  `parseTokens_pairs` is what this
comes to for whole programs.
-/

namespace PlZero

namespace Parser

variable {m : Pairing} {t t' : Token}

/-! ## Expressions -/

section Expressions

variable {parenthesised parenthesised' : Token → Parser Expr} {expr expr' : Parser Expr}

theorem missing_pairs {l l' : Location} (place : m.view.loc l = m.view'.loc l') (r r' : List Token) :
    Pairs m (m.Looks Expr.seen) (pure (.missing l)) (pure (.missing l')) r r' := by
  apply Pairs.pure
  simp only [Pairing.Looks, Expr.seen, place]

theorem factor_pairs
    (inner : ∀ t t' ts ts', m.token t t' →
      Pairs m (m.Looks Expr.seen) (parenthesised t) (parenthesised' t') (t :: ts) (t' :: ts'))
    (r r' : List Token) :
    Pairs m (m.Looks Expr.seen) (factor m.cx parenthesised) (factor m.cx' parenthesised') r r' := by
  -- the cases are those of the parser, and all its questions are about things that tokens share
  apply Pairs.peek_bind
  · exact (Pairs.report .expression .placeholder (.same _ rfl)).bind fun _ _ _ _ _ =>
      missing_pairs m.endLoc _ _
  intro t t' ts ts' pair
  have tokens := m.alike pair
  simp only [tokens.kind, tokens.isDelimiter]
  apply Pairs.ite
  · intro identifier
    apply Pairs.advance_bind
    intro _
    apply Pairs.pure
    simp only [Pairing.Looks, Expr.seen, tokens.name identifier, tokens.loc]
  intro _
  apply Pairs.ite
  · intro integer
    apply Pairs.advance_bind
    intro _
    apply Pairs.integerValue_bind pair integer
    intro n n' value
    apply Pairs.pure
    simp only [Pairing.Looks, Expr.seen, value, tokens.loc]
  intro _
  apply Pairs.ite
  · intro _
    exact inner t t' ts ts' pair
  intro _
  apply Pairs.ite
  · intro _
    exact (Pairs.report .expression .skipped (.same _ rfl)).bind fun _ _ _ _ _ =>
      Pairs.advance.bind fun _ _ _ _ _ => missing_pairs tokens.loc _ _
  · intro _
    exact (Pairs.report .expression .placeholder (.same _ rfl)).bind fun _ _ _ _ _ =>
      missing_pairs tokens.loc _ _

theorem link_pairs {op? : Token → Option BinOp} {operand operand' : Parser Expr}
    (fair : ∀ {t t'}, t.Alike m.view m.view' t' → op? t' = op? t)
    (inner : ∀ r r', Pairs m (m.Looks Expr.seen) operand operand' r r') (left left' : Expr)
    (r r' : List Token) (alike : m.Looks Expr.seen left left') :
    Pairs m (Option.Rel (m.Looks Expr.seen)) (link op? operand left) (link op? operand' left') r r' := by
  apply Pairs.acceptAs_bind fair
  · intro t t' op ts ts' pair _
    apply (inner ts ts').bind
    intro right right' r r' second
    apply Pairs.pure
    apply Option.Rel.some
    simp only [Pairing.Looks, Expr.seen]
    rw [alike, second, (m.alike pair).loc]
  · exact .pure .none

theorem term_pairs
    (inner : ∀ r r', Pairs m (m.Looks Expr.seen) (factor m.cx parenthesised)
      (factor m.cx' parenthesised') r r') (r r' : List Token) :
    Pairs m (m.Looks Expr.seen) (term m.cx parenthesised) (term m.cx' parenthesised') r r' := by
  apply (inner r r').bind
  intro first first' r r' alike
  exact .repeatedly (link_pairs Token.Alike.multiplicative inner) alike r r'

theorem sum_pairs
    (inner : ∀ r r', Pairs m (m.Looks Expr.seen) (factor m.cx parenthesised)
      (factor m.cx' parenthesised') r r') (r r' : List Token) :
    Pairs m (m.Looks Expr.seen) (sum m.cx parenthesised) (sum m.cx' parenthesised') r r' := by
  -- the same loop follows, be the first term signed or not
  have links {e e' : Expr} := Pairs.repeatedly (a := e) (b := e')
    (link_pairs Token.Alike.additive (term_pairs inner))
  apply Pairs.acceptAs_bind Token.Alike.sign
  · intro t t' sign ts ts' pair _
    apply (term_pairs inner ts ts').bind
    intro first first' r r' alike
    apply links
    simp only [Pairing.Looks, Expr.seen]
    rw [alike, (m.alike pair).loc]
  · apply (term_pairs inner r r').bind
    intro first first' r r' alike
    exact links alike r r'

theorem parentheses_pairs (inner : ∀ r r', Pairs m (m.Looks Expr.seen) expr expr' r r')
    (t t' : Token) (ts ts' : List Token) (pair : m.token t t') :
    Pairs m (m.Looks Expr.seen) (parentheses m.cx expr t) (parentheses m.cx' expr' t')
      (t :: ts) (t' :: ts') := by
  have place := (m.alike pair).loc
  apply Pairs.deeper
  apply Pairs.advance_bind
  intro _
  apply (inner ts ts').bind
  intro e e' r r' alike
  apply (Pairs.requireDelimiter ")" (.closing "(" place)).bind
  intro _ _ r r' _
  apply Pairs.pure
  simp only [Pairing.Looks, Expr.seen]
  rw [alike, place]

theorem condition_pairs (inner : ∀ r r', Pairs m (m.Looks Expr.seen) expr expr' r r')
    (r r' : List Token) :
    Pairs m (m.Looks Condition.seen) (condition m.cx expr) (condition m.cx' expr') r r' := by
  apply Pairs.accept_bind (fun tokens => tokens.isKeyword "odd")
  · intro t t' ts ts' pair _
    apply (inner ts ts').bind
    intro e e' r r' alike
    apply Pairs.pure
    simp only [Pairing.Looks, Condition.seen]
    rw [alike, (m.alike pair).loc]
  apply Pairs.here_bind
  intro l l' place
  apply (inner r r').bind
  intro left left' r r' first
  apply Pairs.acceptAs_bind Token.Alike.relation
  · intro t t' op ts ts' pair _
    apply (inner ts ts').bind
    intro right right' r r' second
    apply Pairs.pure
    simp only [Pairing.Looks, Condition.seen]
    rw [first, second, (m.alike pair).loc]
  have lost : ∀ r r', Pairs m (m.Looks Condition.seen) (pure (.missing l)) (pure (.missing l')) r r' := by
    intro r r'
    apply Pairs.pure
    simp only [Pairing.Looks, Condition.seen, place]
  -- whether the operand is missing can be seen in either view
  have missing : left'.isMissing = left.isMissing := by
    rw [← Expr.isMissing_seen m.view' left', ← first, Expr.isMissing_seen]
  rw [missing]
  cases left.isMissing with
  | true => exact lost r r'
  | false => exact (Pairs.report .relation .placeholder (.after first)).bind fun _ _ r r' _ => lost r r'

end Expressions

theorem expression_pairs (m : Pairing) (room : Nat) (r r' : List Token) :
    Pairs m (m.Looks Expr.seen) (expression m.cx room) (expression m.cx' room) r r' := by
  induction room generalizing r r' with
  | zero => exact sum_pairs (factor_pairs fun _ _ _ _ _ => .tooDeep) r r'
  | succ room ih => exact sum_pairs (factor_pairs (parentheses_pairs ih)) r r'

/-! ## Statements -/

section Statements

variable {expr expr' : Parser Expr} {stmt stmt' : Parser Stmt}

theorem empty_pairs {l l' : Location} (place : m.view.loc l = m.view'.loc l') (r r' : List Token) :
    Pairs m (m.Looks Stmt.seen) (pure (.empty l)) (pure (.empty l')) r r' := by
  apply Pairs.pure
  simp only [Pairing.Looks, Stmt.seen, place]

theorem assigned_pairs (inner : ∀ r r', Pairs m (m.Looks Expr.seen) expr expr' r r')
    {x x' : String} (name : m.view.name x = m.view'.name x') {l l' : Location}
    (place : m.view.loc l = m.view'.loc l') (r r' : List Token) :
    Pairs m (m.Looks Stmt.seen) (assigned expr x l) (assigned expr' x' l') r r' := by
  apply (inner r r').bind
  intro e e' r r' alike
  apply Pairs.pure
  simp only [Pairing.Looks, Stmt.seen]
  rw [name, alike, place]

theorem assignment_pairs (inner : ∀ r r', Pairs m (m.Looks Expr.seen) expr expr' r r')
    (pair : m.token t t') (identifier : t.kind = .identifier) (ts ts' : List Token) :
    Pairs m (m.Looks Stmt.seen) (assignment m.cx expr t) (assignment m.cx' expr' t')
      (t :: ts) (t' :: ts') := by
  have tokens := m.alike pair
  have name := tokens.name identifier
  have value := assigned_pairs inner name tokens.loc
  -- without a sign and without anything that could be the value, the statement is given up
  have given : ∀ r r', Pairs m (m.Looks Stmt.seen)
      (do report m.cx (.symbol ":=") (.assignment t.lexeme) .placeholder; return Stmt.empty t.loc)
      (do report m.cx' (.symbol ":=") (.assignment t'.lexeme) .placeholder; return Stmt.empty t'.loc)
      r r' := by
    intro r r'
    exact (Pairs.report _ _ (.assignment name)).bind fun _ _ r r' _ => empty_pairs tokens.loc r r'
  apply Pairs.advance_bind
  intro _
  apply Pairs.accept_bind (fun tokens => tokens.isOperator ":=")
  · intro _ _ ts ts' _ _
    exact value ts ts'
  apply Pairs.peek_bind
  · exact given [] []
  intro next next' ts ts' pair
  simp only [(m.alike pair).isOperator, (m.alike pair).startsExpression]
  apply Pairs.ite
  · intro _
    exact (Pairs.report _ _ (.assignment name)).bind fun _ _ _ _ _ =>
      Pairs.advance.bind fun _ _ r r' _ => value r r'
  intro _
  apply Pairs.ite
  · intro _
    exact (Pairs.report _ _ (.assignment name)).bind fun _ _ r r' _ => value r r'
  · intro _
    exact given _ _

theorem named_pairs (build : String → Location → Stmt)
    (built : ∀ {x x' l l'}, m.view.name x = m.view'.name x' → m.view.loc l = m.view'.loc l' →
      m.Looks Stmt.seen (build x l) (build x' l'))
    (pair : m.token t t') (keyword : t.kind ≠ .identifier) (ts ts' : List Token) :
    Pairs m (m.Looks Stmt.seen) (named m.cx build t) (named m.cx' build t') (t :: ts) (t' :: ts') := by
  have tokens := m.alike pair
  apply Pairs.advance_bind
  intro _
  apply Pairs.accept_bind (fun tokens => by rw [tokens.kind])
  · intro name name' ts ts' pair' identifier
    apply Pairs.pure
    exact built ((m.alike pair').name (by simpa using identifier)) tokens.loc
  · -- the complaint names the keyword, which is the same in both runs
    rw [tokens.lexeme keyword]
    exact (Pairs.report _ _ (.same _ rfl)).bind fun _ _ r r' _ => empty_pairs tokens.loc r r'

theorem nextStatement_pairs (inner : ∀ r r', Pairs m (m.Looks Stmt.seen) stmt stmt' r r')
    (before before' : List Stmt) (r r' : List Token) (alike : m.Looks Stmt.seenList before before') :
    Pairs m (Option.Rel (m.Looks Stmt.seenList)) (nextStatement m.cx stmt before)
      (nextStatement m.cx' stmt' before') r r' := by
  have next : ∀ r r', Pairs m (Option.Rel (m.Looks Stmt.seenList))
      (do return some (before ++ [← stmt])) (do return some (before' ++ [← stmt'])) r r' := by
    intro r r'
    apply (inner r r').bind
    intro s s' r r' last
    apply Pairs.pure
    apply Option.Rel.some
    simp only [Pairing.Looks, Stmt.seenList_eq_map, List.map_append, List.map_cons] at alike ⊢
    rw [alike, last]
    rfl
  apply Pairs.accept_bind (fun tokens => tokens.isDelimiter ";")
  · intro _ _ ts ts' _ _
    exact next ts ts'
  apply Pairs.peek_bind
  · exact .pure .none
  intro t t' ts ts' pair
  simp only [(m.alike pair).startsStatement]
  apply Pairs.ite
  · intro _
    exact (Pairs.report _ _ (.same _ rfl)).bind fun _ _ r r' _ => next r r'
  · intro _
    exact .pure .none

theorem compound_pairs (inner : ∀ r r', Pairs m (m.Looks Stmt.seen) stmt stmt' r r')
    (pair : m.token t t') (ts ts' : List Token) :
    Pairs m (m.Looks Stmt.seen) (compound m.cx stmt t) (compound m.cx' stmt' t')
      (t :: ts) (t' :: ts') := by
  have place := (m.alike pair).loc
  apply Pairs.advance_bind
  intro _
  apply (inner ts ts').bind
  intro first first' r r' alike
  have single : m.Looks Stmt.seenList [first] [first'] := by
    simp only [Pairing.Looks, Stmt.seenList]
    rw [alike]
  apply (Pairs.repeatedly (nextStatement_pairs inner) single r r').bind
  intro all all' r r' row
  apply (Pairs.requireKeyword "end" (.closing "begin" place)).bind
  intro _ _ r r' _
  apply Pairs.pure
  simp only [Pairing.Looks, Stmt.seen]
  rw [row, place]

theorem branch_pairs (inner : ∀ r r', Pairs m (m.Looks Expr.seen) expr expr' r r')
    (innerStmt : ∀ r r', Pairs m (m.Looks Stmt.seen) stmt stmt' r r') (pair : m.token t t')
    (ts ts' : List Token) :
    Pairs m (m.Looks Stmt.seen) (branch m.cx expr stmt t) (branch m.cx' expr' stmt' t')
      (t :: ts) (t' :: ts') := by
  apply Pairs.advance_bind
  intro _
  apply (condition_pairs inner ts ts').bind
  intro c c' r r' decision
  apply (Pairs.requireKeyword "then" (.same _ rfl)).bind
  intro _ _ r r' _
  apply (innerStmt r r').bind
  intro yes yes' r r' first
  apply Pairs.accept_bind Token.Alike.isElse
  · intro _ _ ts ts' _ _
    apply (innerStmt ts ts').bind
    intro no no' r r' second
    apply Pairs.pure
    simp only [Pairing.Looks, Stmt.seen, Stmt.seenOption]
    rw [decision, first, second, (m.alike pair).loc]
  · apply Pairs.pure
    simp only [Pairing.Looks, Stmt.seen, Stmt.seenOption]
    rw [decision, first, (m.alike pair).loc]

theorem loop_pairs (inner : ∀ r r', Pairs m (m.Looks Expr.seen) expr expr' r r')
    (innerStmt : ∀ r r', Pairs m (m.Looks Stmt.seen) stmt stmt' r r') (pair : m.token t t')
    (ts ts' : List Token) :
    Pairs m (m.Looks Stmt.seen) (loop m.cx expr stmt t) (loop m.cx' expr' stmt' t')
      (t :: ts) (t' :: ts') := by
  apply Pairs.advance_bind
  intro _
  apply (condition_pairs inner ts ts').bind
  intro c c' r r' decision
  apply (Pairs.requireKeyword "do" (.same _ rfl)).bind
  intro _ _ r r' _
  apply (innerStmt r r').bind
  intro body body' r r' alike
  apply Pairs.pure
  simp only [Pairing.Looks, Stmt.seen]
  rw [decision, alike, (m.alike pair).loc]

theorem statementBody_pairs (inner : ∀ r r', Pairs m (m.Looks Expr.seen) expr expr' r r')
    (innerStmt : ∀ r r', Pairs m (m.Looks Stmt.seen) stmt stmt' r r') (r r' : List Token) :
    Pairs m (m.Looks Stmt.seen) (statementBody m.cx expr stmt) (statementBody m.cx' expr' stmt') r r' := by
  apply Pairs.peek_bind
  · exact empty_pairs m.endLoc [] []
  intro t t' ts ts' pair
  have tokens := m.alike pair
  have ofKeyword : ∀ {word}, t.isKeyword word = true → t.kind ≠ .identifier := by
    intro word keyword identifier
    simp [Token.isKeyword, identifier] at keyword
  simp only [tokens.startsAssignment, tokens.isKeyword, tokens.followsStatement]
  apply Pairs.ite
  · intro starts
    simp only [startsAssignment, Bool.and_eq_true, decide_eq_true_eq] at starts
    exact assignment_pairs inner pair starts.1 ts ts'
  intro _
  apply Pairs.ite
  · intro keyword
    apply named_pairs Stmt.call _ pair (ofKeyword keyword)
    intro x x' l l' name place
    simp only [Pairing.Looks, Stmt.seen, name, place]
  intro _
  apply Pairs.ite
  · intro keyword
    apply named_pairs Stmt.read _ pair (ofKeyword keyword)
    intro x x' l l' name place
    simp only [Pairing.Looks, Stmt.seen, name, place]
  intro _
  apply Pairs.ite
  · intro keyword
    apply named_pairs Stmt.write _ pair (ofKeyword keyword)
    intro x x' l l' name place
    simp only [Pairing.Looks, Stmt.seen, name, place]
  intro _
  apply Pairs.ite (fun _ => compound_pairs innerStmt pair ts ts')
  intro _
  apply Pairs.ite (fun _ => branch_pairs inner innerStmt pair ts ts')
  intro _
  apply Pairs.ite (fun _ => loop_pairs inner innerStmt pair ts ts')
  intro _
  apply Pairs.ite (fun _ => empty_pairs tokens.loc _ _)
  intro _
  exact (Pairs.report _ _ (.same _ rfl)).bind fun _ _ _ _ _ =>
    Pairs.advance.bind fun _ _ r r' _ => empty_pairs tokens.loc r r'

end Statements

theorem statement_pairs (m : Pairing) (room : Nat) (r r' : List Token) :
    Pairs m (m.Looks Stmt.seen) (statement m.cx room) (statement m.cx' room) r r' := by
  induction room generalizing r r' with
  | zero => exact .tooDeep
  | succ room ih => exact .deeper (statementBody_pairs (expression_pairs m room) ih r r')

/-! ## Declarations -/

section Declarations

variable {α : Type} {see : View → α → α} {decl decl' : Parser α}

theorem constSign_pairs {x x' : String} (name : m.view.name x = m.view'.name x') (r r' : List Token) :
    Pairs m (fun _ _ => True) (constSign m.cx x) (constSign m.cx' x') r r' := by
  apply Pairs.accept_bind (fun tokens => tokens.isOperator "=")
  · intro _ _ ts ts' _ _
    exact .pure trivial
  apply Pairs.peek_bind
  · exact .malformed _ (.afterConstantName name)
  intro t t' ts ts' pair
  simp only [(m.alike pair).isOperator]
  apply Pairs.ite
  · intro _
    exact (Pairs.report _ _ (.afterConstantName name)).bind fun _ _ _ _ _ => .advance
  · intro _
    exact .malformed _ (.afterConstantName name)

theorem constDecl_pairs (r r' : List Token) :
    Pairs m (m.Looks ConstDecl.seen) (constDecl m.cx) (constDecl m.cx') r r' := by
  apply Pairs.accept_bind (fun tokens => by rw [tokens.kind])
  · intro t t' ts ts' pair identifier
    have name := (m.alike pair).name (by simpa using identifier)
    apply (constSign_pairs name ts ts').bind
    intro _ _ r r' _
    apply Pairs.accept_bind (fun tokens => by rw [tokens.kind])
    · intro number number' ts ts' pair' integer
      apply Pairs.integerValue_bind pair' (by simpa using integer)
      intro n n' value
      apply Pairs.pure
      simp only [Pairing.Looks, ConstDecl.seen]
      rw [name, value, (m.alike pair).loc]
    · exact .malformed _ (.constantValue name)
  · exact .malformed _ (.same _ rfl)

theorem varDecl_pairs (r r' : List Token) :
    Pairs m (m.Looks VarDecl.seen) (varDecl m.cx) (varDecl m.cx') r r' := by
  apply Pairs.accept_bind (fun tokens => by rw [tokens.kind])
  · intro t t' ts ts' pair identifier
    apply Pairs.pure
    simp only [Pairing.Looks, VarDecl.seen]
    rw [(m.alike pair).name (by simpa using identifier), (m.alike pair).loc]
  · exact .malformed _ (.same _ rfl)

theorem dropWhile_pairs {r r' : List Token} (input : List.Forall₂ m.token r r') :
    List.Forall₂ m.token (r.dropWhile (!isLandmark ·)) (r'.dropWhile (!isLandmark ·)) := by
  induction input with
  | nil => exact .nil
  | cons pair behind ih =>
    rename_i t t' ts ts'
    have landmark := (m.alike pair).isLandmark
    cases found : isLandmark t with
    | true =>
      rw [found] at landmark
      rw [List.dropWhile_cons_of_neg (by simp [found]), List.dropWhile_cons_of_neg (by simp [landmark])]
      exact .cons pair behind
    | false =>
      rw [found] at landmark
      rw [List.dropWhile_cons_of_pos (by simp [found]), List.dropWhile_cons_of_pos (by simp [landmark])]
      exact ih

theorem declaration_pairs (inner : ∀ r r', Pairs m (m.Looks see) decl decl' r r')
    (before before' : List α) (alike : before.map (see m.view) = before'.map (see m.view'))
    (r r' : List Token) :
    Pairs m (m.Looks fun v => List.map (see v)) (declaration decl before)
      (declaration decl' before') r r' := by
  intro input depth depth' log log' logged
  have ends := inner r r' input depth depth' log log' logged
  simp only [declaration, catching, bind_apply]
  obtain ⟨d, s, d', s', run, run', last, left, grown⟩ | ⟨h, s, h', s', run, run', halts, left, grown⟩ :=
    ends.cases
  · rw [run, run']
    refine ⟨?_, left, grown⟩
    simp only [Pairing.Looks, List.map_append, List.map_cons, List.map_nil]
    rw [alike, last]
  · rw [run, run']
    cases halts with
    -- the halt is caught, and both runs skip to the same landmark
    | malformed => exact ⟨alike, dropWhile_pairs left, grown⟩
    | tooDeep limit place => exact ⟨.tooDeep limit place, left, grown⟩

theorem nextDeclaration_pairs (inner : ∀ r r', Pairs m (m.Looks see) decl decl' r r')
    {between : Place} (plain : between.notes = []) (before before' : List α) (r r' : List Token)
    (alike : m.Looks (fun v => List.map (see v)) before before') :
    Pairs m (Option.Rel (m.Looks fun v => List.map (see v))) (nextDeclaration m.cx decl between before)
      (nextDeclaration m.cx' decl' between before') r r' := by
  have next : ∀ r r', Pairs m (Option.Rel (m.Looks fun v => List.map (see v)))
      (do return some (← declaration decl before)) (do return some (← declaration decl' before')) r r' := by
    intro r r'
    apply (declaration_pairs inner before before' alike r r').bind
    intro ds ds' r r' same
    exact .pure (.some same)
  apply Pairs.accept_bind (fun tokens => tokens.isDelimiter ",")
  · intro _ _ ts ts' _ _
    exact next ts ts'
  apply Pairs.peek_bind
  · exact .pure .none
  intro t t' ts ts' pair
  simp only [(m.alike pair).kind]
  apply Pairs.ite
  · intro _
    exact (Pairs.report _ _ (.same _ plain)).bind fun _ _ r r' _ => next r r'
  · intro _
    exact .pure .none

theorem declarations_pairs (inner : ∀ r r', Pairs m (m.Looks see) decl decl' r r')
    {between behind : Place} (plain : between.notes = []) (plain' : behind.notes = [])
    (r r' : List Token) :
    Pairs m (m.Looks fun v => List.map (see v)) (declarations m.cx decl between behind)
      (declarations m.cx' decl' between behind) r r' := by
  apply (declaration_pairs inner [] [] rfl r r').bind
  intro first first' r r' alike
  apply (Pairs.repeatedly (nextDeclaration_pairs inner plain) alike r r').bind
  intro all all' r r' row
  exact (Pairs.requireDelimiter ";" (.same _ plain')).bind fun _ _ _ _ _ => .pure row

end Declarations

/-! ## Blocks -/

section Blocks

variable {blk blk' : Parser Block} {stmt stmt' : Parser Stmt}

/-- What is seen of the declarations of a block. -/
def Declared.seen (v : View) (d : Declared) : Declared where
  consts := d.consts.map (ConstDecl.seen v)
  vars := d.vars.map (VarDecl.seen v)
  procedures := d.procedures.map (Procedure.seen v)
  last := d.last

/-- A procedure behind its name, whatever becomes of its block. -/
theorem procedureBody_pairs (inner : ∀ r r', Pairs m (m.Looks Block.seen) blk blk' r r')
    {f g : Block → List Procedure}
    (made : ∀ {b b'}, m.Looks Block.seen b b' → m.Looks (fun v => List.map (Procedure.seen v)) (f b) (g b'))
    (r r' : List Token) :
    Pairs m (m.Looks fun v => List.map (Procedure.seen v))
      (do
        requireDelimiter m.cx ";" .afterProcedureHeader
        let b ← blk
        requireDelimiter m.cx ";" .afterProcedureBody
        return f b)
      (do
        requireDelimiter m.cx' ";" .afterProcedureHeader
        let b ← blk'
        requireDelimiter m.cx' ";" .afterProcedureBody
        return g b) r r' := by
  apply (Pairs.requireDelimiter ";" (.same _ rfl)).bind
  intro _ _ r r' _
  apply (inner r r').bind
  intro b b' r r' alike
  exact (Pairs.requireDelimiter ";" (.same _ rfl)).bind fun _ _ _ _ _ => .pure (made alike)

theorem procedure_pairs (inner : ∀ r r', Pairs m (m.Looks Block.seen) blk blk' r r')
    (pair : m.token t t') (r r' : List Token) :
    Pairs m (m.Looks fun v => List.map (Procedure.seen v)) (procedure m.cx blk t)
      (procedure m.cx' blk' t') r r' := by
  apply Pairs.accept_bind (fun tokens => by rw [tokens.kind])
  · intro name name' ts ts' pair' identifier
    have names := (m.alike pair').name (by simpa using identifier)
    apply procedureBody_pairs inner (f := fun b => [⟨name.lexeme, b, t.loc⟩])
      (g := fun b => [⟨name'.lexeme, b, t'.loc⟩])
    intro b b' alike
    simp only [Pairing.Looks, List.map_cons, List.map_nil, Procedure.seen]
    rw [names, alike, (m.alike pair).loc]
  · exact (Pairs.report _ _ (.same _ rfl)).bind fun _ _ r r' _ =>
      procedureBody_pairs inner (f := fun _ => []) (g := fun _ => []) (fun _ => rfl) r r'

theorem checkOrder_pairs {s : Section} (pair : m.token t t') (starts : Section.ofToken? t = some s)
    (last : Option Section) (r r' : List Token) :
    Pairs m (fun _ _ => True) (checkOrder last s t) (checkOrder last s t') r r' := by
  cases last with
  | none => exact .pure trivial
  | some l =>
    apply Pairs.ite
    · intro _
      exact .pure trivial
    · intro _ input depth depth' log log' logged
      exact ⟨trivial, input, m.misplaced s l pair starts logged⟩

theorem nextSection_pairs (inner : ∀ r r', Pairs m (m.Looks Block.seen) blk blk' r r')
    (d d' : Declared) (r r' : List Token) (alike : m.Looks Declared.seen d d') :
    Pairs m (Option.Rel (m.Looks Declared.seen)) (nextSection m.cx blk d)
      (nextSection m.cx' blk' d') r r' := by
  simp only [Pairing.Looks, Declared.seen, Declared.mk.injEq] at alike
  obtain ⟨consts, vars, procedures, last⟩ := alike
  -- a section adds to one class of declarations and leaves the others alone
  apply Pairs.acceptAs_bind Token.Alike.sectionOf
  · intro t t' s ts ts' pair starts
    rw [last]
    apply (checkOrder_pairs pair starts d'.last ts ts').bind
    intro _ _ r r' _
    cases s with
    | const =>
      apply (declarations_pairs constDecl_pairs rfl rfl r r').bind
      intro cs cs' r r' added
      apply Pairs.pure
      apply Option.Rel.some
      simp only [Pairing.Looks, Declared.seen, List.map_append] at added ⊢
      rw [consts, vars, procedures, added]
    | var =>
      apply (declarations_pairs varDecl_pairs rfl rfl r r').bind
      intro vs vs' r r' added
      apply Pairs.pure
      apply Option.Rel.some
      simp only [Pairing.Looks, Declared.seen, List.map_append] at added ⊢
      rw [consts, vars, procedures, added]
    | procedure =>
      apply (procedure_pairs inner pair r r').bind
      intro ps ps' r r' added
      apply Pairs.pure
      apply Option.Rel.some
      simp only [Pairing.Looks, Declared.seen, List.map_append] at added ⊢
      rw [consts, vars, procedures, added]
  · exact .pure .none

theorem blockBody_pairs (inner : ∀ r r', Pairs m (m.Looks Block.seen) blk blk' r r')
    (innerStmt : ∀ r r', Pairs m (m.Looks Stmt.seen) stmt stmt' r r') (r r' : List Token) :
    Pairs m (m.Looks Block.seen) (blockBody m.cx blk stmt) (blockBody m.cx' blk' stmt') r r' := by
  apply Pairs.here_bind
  intro l l' place
  apply (Pairs.repeatedly (nextSection_pairs inner) (a := {}) (b := {}) rfl r r').bind
  intro d d' r r' alike
  simp only [Pairing.Looks, Declared.seen, Declared.mk.injEq] at alike
  obtain ⟨consts, vars, procedures, _⟩ := alike
  apply (innerStmt r r').bind
  intro body body' r r' same
  apply Pairs.pure
  simp only [Pairing.Looks, Block.seen, Procedure.seenList_eq_map]
  rw [consts, vars, procedures, same, place]

end Blocks

theorem block_pairs (m : Pairing) (room : Nat) (r r' : List Token) :
    Pairs m (m.Looks Block.seen) (block m.cx room) (block m.cx' room) r r' := by
  induction room generalizing r r' with
  | zero => exact .tooDeep
  | succ room ih => exact .deeper (blockBody_pairs ih (statement_pairs m room) r r')

/-! ## Programs -/

theorem closedBlock_pairs (m : Pairing) (room : Nat) (r r' : List Token) :
    Pairs m (m.Looks Block.seen) (closedBlock m.cx room) (closedBlock m.cx' room) r r' := by
  apply (block_pairs m room r r').bind
  intro b b' r r' alike
  exact (Pairs.requireDelimiter "." (.same _ rfl)).bind fun _ _ _ _ _ => .pure alike

theorem logs_trailing {left left' : List Token} (behind : List.Forall₂ m.token left left')
    {log log' : Log} (logged : m.logs log log') :
    m.logs ⟨log.entries ++ trailing left⟩ ⟨log'.entries ++ trailing left'⟩ := by
  cases behind with
  | nil =>
    simp only [Parser.trailing, List.append_nil]
    exact logged
  | cons pair _ => exact m.trailing pair logged

/-- A program is given up in both runs or in neither. -/
theorem parseTokens_pairs (m : Pairing) {limits limits' : Limits} {file file' : String}
    {ts ts' : List Token} (start : m.cx = .ofTokens limits file ts)
    (start' : m.cx' = .ofTokens limits' file' ts') (fresh : m.logs {} {})
    (input : List.Forall₂ m.token ts ts') {p : Program} {log : Log}
    (parsed : parseTokens limits file ts = .ok (p, log)) :
    ∃ p' log', parseTokens limits' file' ts' = .ok (p', log') ∧ m.Looks Program.seen p p' ∧
      m.logs log log' := by
  have levels : limits'.maxNesting = limits.maxNesting := by
    have nesting := m.nesting
    rwa [start, start'] at nesting
  have ends := closedBlock_pairs m limits.maxNesting.toNat ts ts' input 0 0 {} {} fresh
  rw [parseTokens_eq, ← start] at parsed
  rw [parseTokens_eq, ← start', levels]
  obtain ⟨b, s, b', s', run, run', alike, left, logged⟩ | ⟨h, s, h', s', run, run', halts, _, logged⟩ :=
    ends.cases
  · rw [run] at parsed
    rw [run']
    obtain ⟨rfl, rfl⟩ := Prod.mk.inj (Except.ok.inj parsed)
    refine ⟨_, _, rfl, ?_, logs_trailing left logged⟩
    simp only [Pairing.Looks, Program.seen]
    rw [alike, m.front input]
  · rw [run] at parsed
    rw [run']
    cases halts with
    | malformed => cases parsed
    | tooDeep limit place =>
      obtain ⟨rfl, rfl⟩ := Prod.mk.inj (Except.ok.inj parsed)
      refine ⟨_, _, rfl, ?_, m.tooDeep limit place logged⟩
      simp only [Pairing.Looks, abandoned, Program.seen, Block.seen, Stmt.seen, Procedure.seenList,
        List.map_nil]
      rw [m.front input]

end Parser

end PlZero

import PlZero.Parser.Block
import PlZero.Proofs.Anchoring.Mentions
import PlZero.Proofs.Parser.Takes

/-! # Trees are made of the tokens that were taken

Every production gives a tree that speaks only of tokens which were taken for it, and of these in order.
What is reported, skipped or dropped on the way makes no difference: a production that goes on after a
problem leaves tokens out, but never turns back.
-/

namespace PlZero

namespace Parser

variable {cx : Context} {limit : Int} {t : Token}

/-- The parser gives something that speaks of the tokens which it takes. -/
abbrev Grounds {α : Type} (limit : Int) (mentions : α → List Mention) (p : Parser α) (r : List Token) :
    Prop :=
  Takes p r fun a taken => Grounded limit (mentions a) taken

theorem fits_word (limit : Int) {w : Word} (word : (t.kind, t.lexeme) = w) (c : Construct) :
    Mention.Fits limit ⟨.word w, some (c, t.loc)⟩ t :=
  ⟨word, by simp⟩

theorem fits_unplaced (limit : Int) {w : Word} (word : (t.kind, t.lexeme) = w) :
    Mention.Fits limit ⟨.word w, none⟩ t :=
  ⟨word, by simp⟩

theorem word_of_isKeyword {word : String} (keyword : t.isKeyword word = true) :
    (t.kind, t.lexeme) = Word.keyword word := by
  simpa [Token.isKeyword, Word.keyword] using keyword

theorem word_of_isOperator {symbol : String} (operator : t.isOperator symbol = true) :
    (t.kind, t.lexeme) = Word.operator symbol := by
  simpa [Token.isOperator, Word.operator] using operator

theorem word_of_isDelimiter {symbol : String} (delimiter : t.isDelimiter symbol = true) :
    (t.kind, t.lexeme) = Word.delimiter symbol := by
  simpa [Token.isDelimiter, Word.delimiter] using delimiter

theorem word_of_identifier (identifier : t.kind = .identifier) :
    (t.kind, t.lexeme) = Word.identifier t.lexeme := by
  rw [identifier, Word.identifier]

/-! ## Expressions -/

section Expressions

variable {parenthesised : Token → Parser Expr} {expr : Parser Expr}

theorem factor_grounds (limited : cx.limits.maxInteger = .number limit)
    (inner : ∀ t ts, t.isDelimiter "(" = true → Grounds limit Expr.mentions (parenthesised t) (t :: ts))
    (r : List Token) : Grounds limit Expr.mentions (factor cx parenthesised) r := by
  -- the cases are those of the parser, in its order; a missing operand speaks of nothing
  apply Takes.peek_bind
  · exact .report_bind (.pure .nil)
  intro t ts readable
  apply Takes.ite
  · intro identifier
    apply Takes.advance_bind
    exact .pure (.single (fits_word limit (word_of_identifier identifier) .name))
  intro _
  apply Takes.ite
  · intro integer
    apply Takes.advance_bind
    apply Takes.integerValue_bind readable integer limited
    intro n value
    exact .pure (.single ⟨⟨integer, n, value, rfl⟩, by simp⟩)
  intro _
  apply Takes.ite (inner t ts)
  intro _
  apply Takes.ite
  · intro _
    exact .report_bind (.advance_bind (.pure .nil))
  · intro _
    exact .report_bind (.pure .nil)

theorem link_grounds {op? : Token → Option BinOp} {operand : Parser Expr}
    (reads : ∀ t op, op? t = some op → t.isOperator op.symbol = true)
    (inner : ∀ r, Grounds limit Expr.mentions operand r) (left : Expr) (before r : List Token)
    (grounded : Grounded limit left.mentions before) :
    Takes (link op? operand left) r (Takes.Grows (fun e => Grounded limit e.mentions) before) := by
  apply Takes.acceptAs_bind
  · intro t op ts reading
    apply (inner ts).bind
    intro right taken r' second
    have operator := fits_word limit (word_of_isOperator (reads t op reading)) .binary
    -- the operator comes behind all that the left operand speaks of
    have whole : Grounded limit (Expr.binary op left right t.loc).mentions (before ++ t :: taken) :=
      grounded.append (.cons operator second)
    exact .pure (by simpa [Takes.Grows] using whole)
  · exact .pure rfl

theorem term_grounds (inner : ∀ r, Grounds limit Expr.mentions (factor cx parenthesised) r)
    (r : List Token) : Grounds limit Expr.mentions (term cx parenthesised) r := by
  apply (inner r).bind
  intro first taken r' grounded
  apply Takes.repeatedly (link_grounds (fun t op reading => ?_) inner) grounded r'
  exact (BinOp.multiplicative?_eq_some_iff.mp reading).2

theorem sum_grounds (inner : ∀ r, Grounds limit Expr.mentions (factor cx parenthesised) r)
    (r : List Token) : Grounds limit Expr.mentions (sum cx parenthesised) r := by
  have links {first : Expr} {taken : List Token} (grounded : Grounded limit first.mentions taken)
      (r : List Token) := Takes.repeatedly (link_grounds
        (fun t op reading => (BinOp.additive?_eq_some_iff.mp reading).2) (term_grounds inner)) grounded r
  apply Takes.acceptAs_bind
  · intro t sign ts reading
    apply (term_grounds inner ts).bind
    intro first taken r' grounded
    have operator := fits_word limit (word_of_isOperator (Sign.ofToken?_eq_some_iff.mp reading))
      .signed
    have whole : Grounded limit (Expr.signed sign first t.loc).mentions (t :: taken) :=
      .cons operator grounded
    exact links whole r'
  · apply (term_grounds inner r).bind
    intro first taken r' grounded
    exact links grounded r'

theorem parentheses_grounds (inner : ∀ r, Grounds limit Expr.mentions expr r) (t : Token)
    (ts : List Token) (opening : t.isDelimiter "(" = true) :
    Grounds limit Expr.mentions (parentheses cx expr t) (t :: ts) := by
  apply Takes.deeper
  apply Takes.advance_bind
  apply (inner ts).bind
  intro e taken r' grounded
  apply Takes.require.bind
  intro _ closing r'' _
  have whole : Grounded limit (Expr.group e t.loc).mentions (t :: taken) :=
    .cons (fits_word limit (word_of_isDelimiter opening) .group) grounded
  exact .pure (by simpa using whole.extend closing)

theorem condition_grounds (inner : ∀ r, Grounds limit Expr.mentions expr r) (r : List Token) :
    Grounds limit Condition.mentions (condition cx expr) r := by
  apply Takes.accept_bind
  · intro t ts _ keyword
    apply (inner ts).bind
    intro e taken r' grounded
    have whole : Grounded limit (Condition.odd e t.loc).mentions (t :: taken) :=
      .cons (fits_word limit (word_of_isKeyword keyword) .odd) grounded
    exact .pure (by simpa using whole)
  apply Takes.here_bind
  intro loc
  apply (inner r).bind
  intro left before r' first
  apply Takes.acceptAs_bind
  · intro t op ts reading
    apply (inner ts).bind
    intro right taken r'' second
    have operator := fits_word limit (word_of_isOperator (RelOp.ofToken?_eq_some_iff.mp reading))
      .relation
    have whole : Grounded limit (Condition.relation op left right t.loc).mentions (before ++ t :: taken) :=
      first.append (.cons operator second)
    exact .pure (by simpa using whole)
  · -- the operand is dropped with the condition, whatever it speaks of
    cases left.isMissing with
    | true => exact .pure .nil
    | false => exact .report_bind (.pure .nil)

end Expressions

theorem expression_grounds (limited : cx.limits.maxInteger = .number limit) (room : Nat)
    (r : List Token) : Grounds limit Expr.mentions (expression cx room) r := by
  induction room generalizing r with
  | zero => exact sum_grounds (factor_grounds limited fun _ _ _ => .tooDeep) r
  | succ room ih => exact sum_grounds (factor_grounds limited (parentheses_grounds ih)) r

/-! ## Statements -/

section Statements

variable {expr : Parser Expr} {stmt : Parser Stmt}

theorem assigned_takes (inner : ∀ r, Grounds limit Expr.mentions expr r)
    (identifier : t.kind = .identifier) (between r : List Token) :
    Takes (assigned expr t.lexeme t.loc) r fun s taken =>
      Grounded limit s.mentions (t :: between ++ taken) := by
  apply (inner r).bind
  intro e taken r' grounded
  have whole : Grounded limit (Stmt.assign t.lexeme e t.loc).mentions (t :: (between ++ taken)) :=
    .cons (fits_word limit (word_of_identifier identifier) .assign) (grounded.skips between)
  exact .pure (by simpa using whole)

theorem assignment_grounds (inner : ∀ r, Grounds limit Expr.mentions expr r)
    (identifier : t.kind = .identifier) (ts : List Token) :
    Grounds limit Stmt.mentions (assignment cx expr t) (t :: ts) := by
  apply Takes.advance_bind
  apply Takes.accept_bind
  · intro sign ts _ _
    exact assigned_takes inner identifier [sign] ts
  -- an equals sign may be taken for the one that is missing
  apply Takes.peek_bind
  · exact .report_bind (.pure .nil)
  intro next ts _
  apply Takes.ite
  · intro _
    exact .report_bind (.advance_bind (assigned_takes inner identifier [next] ts))
  intro _
  apply Takes.ite
  · intro _
    exact .report_bind (assigned_takes inner identifier [] (next :: ts))
  · intro _
    exact .report_bind (.pure .nil)

theorem named_grounds (build : String → Location → Stmt) {word : String} (c : Construct)
    (built : ∀ x l, (build x l).mentions =
      [⟨.word (.keyword word), some (c, l)⟩, ⟨.word (.identifier x), none⟩])
    (keyword : t.isKeyword word = true) (ts : List Token) :
    Grounds limit Stmt.mentions (named cx build t) (t :: ts) := by
  apply Takes.advance_bind
  apply Takes.accept_bind
  · intro name ts _ identifier
    have fits := fits_unplaced limit (word_of_identifier (t := name) (by simpa using identifier))
    apply Takes.pure
    rw [built]
    exact .cons (fits_word limit (word_of_isKeyword keyword) c) (.single fits)
  · exact .report_bind (.pure .nil)

theorem nextStatement_takes (inner : ∀ r, Grounds limit Stmt.mentions stmt r) (ss : List Stmt)
    (before r : List Token) (grounded : Grounded limit (Stmt.mentionsList ss) before) :
    Takes (nextStatement cx stmt ss) r
      (Takes.Grows (fun ss => Grounded limit (Stmt.mentionsList ss)) before) := by
  have next : ∀ between r, Takes (do return some (ss ++ [← stmt])) r fun o taken =>
      Takes.Grows (fun ss => Grounded limit (Stmt.mentionsList ss)) before o (between ++ taken) := by
    intro between r
    apply (inner r).bind
    intro s taken r' last
    have whole := grounded.append (last.skips between)
    exact .pure (by simpa [Takes.Grows, Stmt.mentionsList_append, Stmt.mentionsList] using whole)
  apply Takes.accept_bind
  · intro semicolon ts _ _
    exact next [semicolon] ts
  apply Takes.peek_bind
  · exact .pure rfl
  intro t ts _
  apply Takes.ite
  · intro _
    exact .report_bind (next [] (t :: ts))
  · intro _
    exact .pure rfl

theorem compound_grounds (inner : ∀ r, Grounds limit Stmt.mentions stmt r)
    (keyword : t.isKeyword "begin" = true) (ts : List Token) :
    Grounds limit Stmt.mentions (compound cx stmt t) (t :: ts) := by
  apply Takes.advance_bind
  apply (inner ts).bind
  intro first taken r grounded
  have single : Grounded limit (Stmt.mentionsList [first]) taken := by
    simpa [Stmt.mentionsList] using grounded
  apply (Takes.repeatedly (nextStatement_takes inner) single r).bind
  intro all more r' row
  apply Takes.require.bind
  intro _ closing r'' _
  have whole : Grounded limit (Stmt.compound all t.loc).mentions (t :: (taken ++ more)) :=
    .cons (fits_word limit (word_of_isKeyword keyword) .compound) row
  exact .pure (by simpa using whole.extend closing)

theorem branch_grounds (inner : ∀ r, Grounds limit Expr.mentions expr r)
    (innerStmt : ∀ r, Grounds limit Stmt.mentions stmt r) (keyword : t.isKeyword "if" = true)
    (ts : List Token) : Grounds limit Stmt.mentions (branch cx expr stmt t) (t :: ts) := by
  have head := fits_word limit (word_of_isKeyword keyword) .branch
  apply Takes.advance_bind
  apply (condition_grounds inner ts).bind
  intro c decided r decision
  apply Takes.require.bind
  intro _ between r' _
  apply (innerStmt r').bind
  intro yes taken r'' first
  -- between them stands what was taken for `then`, be it that word or nothing
  have half : Grounded limit (c.mentions ++ yes.mentions) (decided ++ between ++ taken) :=
    (decision.extend between).append first
  apply Takes.accept_bind
  · intro word ts _ _
    apply (innerStmt ts).bind
    intro no taken' _ second
    have whole : Grounded limit (Stmt.branch c yes (some no) t.loc).mentions
        (t :: (decided ++ between ++ taken ++ word :: taken')) :=
      .cons head (half.append second.skip)
    exact .pure (by simpa using whole)
  · have whole : Grounded limit (Stmt.branch c yes none t.loc).mentions
        (t :: (decided ++ between ++ taken ++ [])) :=
      .cons head (half.append .nil)
    exact .pure (by simpa using whole)

theorem loop_grounds (inner : ∀ r, Grounds limit Expr.mentions expr r)
    (innerStmt : ∀ r, Grounds limit Stmt.mentions stmt r) (keyword : t.isKeyword "while" = true)
    (ts : List Token) : Grounds limit Stmt.mentions (loop cx expr stmt t) (t :: ts) := by
  apply Takes.advance_bind
  apply (condition_grounds inner ts).bind
  intro c decided r decision
  apply Takes.require.bind
  intro _ between r' _
  apply (innerStmt r').bind
  intro body taken r'' grounded
  have whole : Grounded limit (Stmt.loop c body t.loc).mentions (t :: (decided ++ between ++ taken)) :=
    .cons (fits_word limit (word_of_isKeyword keyword) .loop) ((decision.extend between).append grounded)
  exact .pure (by simpa using whole)

theorem statementBody_grounds (inner : ∀ r, Grounds limit Expr.mentions expr r)
    (innerStmt : ∀ r, Grounds limit Stmt.mentions stmt r) (r : List Token) :
    Grounds limit Stmt.mentions (statementBody cx expr stmt) r := by
  apply Takes.peek_bind
  · exact .pure .nil
  intro t ts _
  apply Takes.ite
  · intro starts
    simp only [startsAssignment, Bool.and_eq_true, decide_eq_true_eq] at starts
    exact assignment_grounds inner starts.1 ts
  intro _
  apply Takes.ite (fun keyword => named_grounds .call .call (fun _ _ => rfl) keyword ts)
  intro _
  apply Takes.ite (fun keyword => named_grounds .read .read (fun _ _ => rfl) keyword ts)
  intro _
  apply Takes.ite (fun keyword => named_grounds .write .write (fun _ _ => rfl) keyword ts)
  intro _
  apply Takes.ite (fun keyword => compound_grounds innerStmt keyword ts)
  intro _
  apply Takes.ite (fun keyword => branch_grounds inner innerStmt keyword ts)
  intro _
  apply Takes.ite (fun keyword => loop_grounds inner innerStmt keyword ts)
  intro _
  apply Takes.ite
  · intro _
    exact .pure .nil
  · intro _
    exact .report_bind (.advance_bind (.pure .nil))

end Statements

theorem statement_grounds (limited : cx.limits.maxInteger = .number limit) (room : Nat)
    (r : List Token) : Grounds limit Stmt.mentions (statement cx room) r := by
  induction room generalizing r with
  | zero => exact .tooDeep
  | succ room ih => exact .deeper (statementBody_grounds (expression_grounds limited room) ih r)

/-! ## Declarations -/

section Declarations

variable {α : Type} {decl : Parser α}

theorem constSign_takes (name : String) (r : List Token) :
    Takes (constSign cx name) r fun _ _ => True := by
  apply Takes.accept_bind
  · intro _ ts _ _
    exact .pure trivial
  apply Takes.peek_bind
  · exact .malformed _ _
  intro t ts _
  apply Takes.ite
  · intro _
    exact .report_bind .advance
  · intro _
    exact .malformed _ _

theorem constDecl_grounds (limited : cx.limits.maxInteger = .number limit) (r : List Token) :
    Grounds limit ConstDecl.mentions (constDecl cx) r := by
  apply Takes.accept_bind
  · intro name ts _ identifier
    apply (constSign_takes name.lexeme ts).bind
    intro _ between r' _
    apply Takes.accept_bind
    · intro number ts readable integer
      have integer : number.kind = .integer := by simpa using integer
      apply Takes.integerValue_bind readable integer limited
      intro n value
      have fits : Mention.Fits limit ⟨.integer (.number (min n limit)), none⟩ number :=
        ⟨⟨integer, n, value, rfl⟩, by simp⟩
      have whole : Grounded limit (ConstDecl.mentions ⟨name.lexeme, .number (min n limit), name.loc⟩)
          (name :: (between ++ [number])) :=
        .cons (fits_word limit (word_of_identifier (by simpa using identifier)) .const)
          (Grounded.skips between (.single fits))
      exact .pure (by simpa using whole)
    · exact .malformed _ _
  · exact .malformed _ _

theorem varDecl_grounds (r : List Token) : Grounds limit VarDecl.mentions (varDecl cx) r := by
  apply Takes.accept_bind
  · intro name ts _ identifier
    exact .pure (.single (fits_word limit (word_of_identifier (by simpa using identifier)) .var))
  · exact .malformed _ _

/-! What is known of the declarations so far and the tokens taken for them is known also after one more
declaration, and after tokens that were taken for nothing. -/

section Rows

variable {I : List α → List Token → Prop} {R : α → List Token → Prop}
  (add : ∀ {ds before d taken}, I ds before → R d taken → I (ds ++ [d]) (before ++ taken))
  (extend : ∀ {ds before} more, I ds before → I ds (before ++ more))

include add extend

/-- A declaration that cannot be read takes tokens for nothing. -/
theorem declaration_takes (inner : ∀ r, Takes decl r R) (ds : List α) (before : List Token)
    (holds : I ds before) (r : List Token) :
    Takes (declaration decl ds) r fun ds taken => I ds (before ++ taken) := by
  intro readable depth log
  have ends := inner r readable depth log
  simp only [declaration, catching, bind_apply]
  cases run : decl ⟨r, depth, log⟩ with
  | ok d s =>
    rw [run] at ends
    obtain ⟨taken, split, last⟩ := ends
    exact ⟨taken, split, add holds last⟩
  | error h s =>
    rw [run] at ends
    cases h with
    | malformed wanted loc =>
      -- the declarations before it stay as they are, and what was skipped follows their tokens
      obtain ⟨taken, split⟩ := List.IsSuffix.trans (List.dropWhile_suffix (!isLandmark ·)) ends
      exact ⟨taken, split.symm, extend taken holds⟩
    | tooDeep | unreadable | blankLimit => exact ends

theorem nextDeclaration_takes (inner : ∀ r, Takes decl r R) (between : Place) (ds : List α)
    (before r : List Token) (holds : I ds before) :
    Takes (nextDeclaration cx decl between ds) r (Takes.Grows I before) := by
  have next : ∀ commas r, Takes (do return some (← declaration decl ds)) r fun o taken =>
      Takes.Grows I before o (commas ++ taken) := by
    intro commas r
    apply (declaration_takes add extend inner ds (before ++ commas) (extend commas holds) r).bind
    intro ds taken r' row
    exact .pure (by simpa [Takes.Grows] using row)
  apply Takes.accept_bind
  · intro comma ts _ _
    exact next [comma] ts
  apply Takes.peek_bind
  · exact .pure rfl
  intro t ts _
  apply Takes.ite
  · intro _
    exact .report_bind (next [] (t :: ts))
  · intro _
    exact .pure rfl

theorem declarations_takes (start : I [] []) (inner : ∀ r, Takes decl r R) (between behind : Place)
    (r : List Token) : Takes (declarations cx decl between behind) r I := by
  apply (declaration_takes add extend inner [] [] start r).bind
  intro first taken r' holds
  apply (Takes.repeatedly (nextDeclaration_takes add extend inner between) holds r').bind
  intro all more r'' row
  apply Takes.require.bind
  intro _ closing _ _
  exact .pure (by simpa using extend closing row)

end Rows

theorem declarations_grounds {mentions : α → List Mention} (inner : ∀ r, Grounds limit mentions decl r)
    (between behind : Place) (r : List Token) :
    Grounds limit (fun ds => ds.flatMap mentions) (declarations cx decl between behind) r := by
  refine declarations_takes ?_ ?_ .nil inner between behind r
  · intro ds before d taken grounded last
    simpa using grounded.append last
  · intro ds before more grounded
    exact grounded.extend more

end Declarations

/-! ## Blocks -/

section Blocks

variable {blk : Parser Block} {stmt : Parser Stmt}

/-- A procedure behind its name, of which `before` are the tokens up to there. -/
theorem procedureBody_takes (inner : ∀ r, Takes blk r (Block.Grounded limit)) (before : List Token)
    {f : Block → List Procedure}
    (made : ∀ b taken, b.Grounded limit taken →
      ∃ own, own.Sublist (before ++ taken) ∧ Procedure.GroundedList limit (f b) own) (r : List Token) :
    Takes (do
        requireDelimiter cx ";" .afterProcedureHeader
        let b ← blk
        requireDelimiter cx ";" .afterProcedureBody
        return f b) r fun ps taken =>
      ∃ own, own.Sublist (before ++ taken) ∧ Procedure.GroundedList limit ps own := by
  apply Takes.require.bind
  intro _ between r' _
  apply (inner r').bind
  intro b taken r'' grounded
  apply Takes.require.bind
  intro _ closing _ _
  obtain ⟨own, inside, all⟩ := made b taken grounded
  have wider : (before ++ taken).Sublist (before ++ (between ++ (taken ++ closing))) :=
    (List.Sublist.refl before).append
      ((List.sublist_append_left taken closing).trans (List.sublist_append_right between _))
  exact .pure ⟨own, by simpa using inside.trans wider, all⟩

theorem procedure_takes (inner : ∀ r, Takes blk r (Block.Grounded limit))
    (keyword : t.isKeyword "procedure" = true) (r : List Token) :
    Takes (procedure cx blk t) r fun ps taken =>
      ∃ own, own.Sublist (t :: taken) ∧ Procedure.GroundedList limit ps own := by
  apply Takes.accept_bind
  · intro name ts _ identifier
    apply procedureBody_takes inner [t, name] (f := fun b => [⟨name.lexeme, b, t.loc⟩])
    intro b taken grounded
    have whole : Procedure.Grounded limit ⟨name.lexeme, b, t.loc⟩ (t :: name :: taken) := by
      simp only [Procedure.Grounded]
      exact ⟨t, name, taken, rfl, fits_word limit (word_of_isKeyword keyword) .procedure,
        fits_unplaced limit (word_of_identifier (by simpa using identifier)), grounded⟩
    exact ⟨_, List.Sublist.refl _, Procedure.groundedList_single whole⟩
  · -- a procedure without a name is read and forgotten
    apply Takes.report_bind
    apply procedureBody_takes inner [t] (f := fun _ => [])
    intro b taken _
    exact ⟨[], List.nil_sublist _, by simp only [Procedure.GroundedList]⟩

theorem checkOrder_takes (last : Option Section) (s : Section) (r : List Token) :
    Takes (checkOrder last s t) r fun _ taken => taken = [] := by
  cases last with
  | none => exact .pure rfl
  | some l =>
    apply Takes.ite
    · intro _
      exact .pure rfl
    · intro _ _ depth log
      exact ⟨[], rfl, rfl⟩

/-- The tokens for what the sections of a block have declared so far. -/
def Declared.Grounded (limit : Int) (d : Declared) : List Token → Prop :=
  Apart (List.Forall₂ (Mention.Fits limit) (d.consts.flatMap ConstDecl.mentions))
    (List.Forall₂ (Mention.Fits limit) (d.vars.flatMap VarDecl.mentions))
    (Procedure.GroundedList limit d.procedures)

theorem nextSection_takes (limited : cx.limits.maxInteger = .number limit)
    (inner : ∀ r, Takes blk r (Block.Grounded limit)) (d : Declared) (before r : List Token)
    (grounded : d.Grounded limit before) :
    Takes (nextSection cx blk d) r (Takes.Grows (Declared.Grounded limit) before) := by
  apply Takes.acceptAs_bind
  · intro t s ts reading
    apply (checkOrder_takes d.last s ts).bind
    rintro _ _ r' rfl
    -- the new tokens come behind those of the same class, and the other classes have nothing to add
    cases s with
    | const =>
      apply (declarations_grounds (constDecl_grounds limited) _ _ r').bind
      intro cs taken r'' added
      obtain ⟨own, fits, inside⟩ := List.sublistForall₂_iff.mp added
      apply Takes.pure
      apply Apart.grow own [] [] grounded (by simpa using inside.cons t)
      · intro own' fits'
        simpa using List.rel_append fits' fits
      · simp
      · simp
    | var =>
      apply (declarations_grounds varDecl_grounds _ _ r').bind
      intro vs taken r'' added
      obtain ⟨own, fits, inside⟩ := List.sublistForall₂_iff.mp added
      apply Takes.pure
      apply Apart.grow [] own [] grounded (by simpa using inside.cons t)
      · simp
      · intro own' fits'
        simpa using List.rel_append fits' fits
      · simp
    | procedure =>
      apply (procedure_takes inner (Section.ofToken?_eq_some_iff.mp reading) r').bind
      rintro ps taken r'' ⟨own, inside, all⟩
      apply Takes.pure
      apply Apart.grow [] [] own grounded (by simpa using inside)
      · simp
      · simp
      · intro own' all'
        exact all'.append all
  · exact .pure rfl

theorem blockBody_takes (limited : cx.limits.maxInteger = .number limit)
    (inner : ∀ r, Takes blk r (Block.Grounded limit))
    (innerStmt : ∀ r, Grounds limit Stmt.mentions stmt r) (r : List Token) :
    Takes (blockBody cx blk stmt) r (Block.Grounded limit) := by
  have start : Declared.Grounded limit {} [] := by
    refine ⟨[], [], [], List.Subperm.refl _, ⟨List.Sublist.refl _, .nil⟩, ⟨List.Sublist.refl _, .nil⟩,
      List.Sublist.refl _, ?_⟩
    simp only [Procedure.GroundedList]
  apply Takes.here_bind
  intro loc
  apply (Takes.repeatedly (nextSection_takes limited inner) start r).bind
  intro d taken r' declared
  apply (innerStmt r').bind
  intro body taken' r'' grounded
  apply Takes.pure
  simp only [Block.Grounded]
  exact ⟨taken, taken', by simp, by simpa [Declared.Grounded] using declared, grounded⟩

end Blocks

theorem block_takes (limited : cx.limits.maxInteger = .number limit) (room : Nat) (r : List Token) :
    Takes (block cx room) r (Block.Grounded limit) := by
  induction room generalizing r with
  | zero => exact .tooDeep
  | succ room ih => exact .deeper (blockBody_takes limited ih (statement_grounds limited room) r)

end Parser

end PlZero

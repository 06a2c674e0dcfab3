import PlZero.Proofs.Parser.Cut
import PlZero.Proofs.Program

/-! # Productions with less and with more room

Every production does the same with less room as with more, until it gives up.  The productions take
the parsers inside as parameters, so the comparison goes through each of them once, and the recursion
on the room that is left closes the circle.  A level is entered behind a token that belongs to it, with
two exceptions: the outermost block, and the statement of a block.  Therefore room for `n + 2` levels
is enough for `n` tokens.

The limit on nesting is part of the context, but only the halt over it looks at it there.
`Context.withNesting` changes it, and nothing that does not come to this halt can tell the difference.
-/

namespace PlZero

namespace Parser

/-- The context with another limit on nesting. -/
def Context.withNesting (cx : Context) (nesting : Int) : Context :=
  { cx with limits := { cx.limits with maxNesting := nesting } }

variable {cx : Context} {nesting : Int} {n room room' : Nat}

/-! ## Expressions -/

section Expressions

variable {parenthesised parenthesised' : Token → Parser Expr} {expr expr' : Parser Expr}

theorem integerValue_cut (t : Token) (r : List Token) :
    Cut n (integerValue cx t) (integerValue cx t) r := by
  have saturated : Cut n (saturate cx t) (saturate cx t) r :=
    (Cut.record (by simp [Complaint.tooLarge])).bind fun _ _ => .pure _
  apply Cut.ite
  · intro _
    exact saturated
  · intro _
    cases Text.readInteger (Text.stripZeros t.lexeme) with
    | error cause => exact .halt (fun impossible => impossible)
    | ok value =>
      simp only
      cases cx.limits.maxInteger.allows? value with
      | none => exact .halt (fun impossible => impossible)
      | some allowed =>
        cases allowed with
        | true => exact .pure _
        | false => exact saturated

theorem factor_cut
    (inner : ∀ t ts, Cut n (parenthesised t) (parenthesised' t) (t :: ts)) (r : List Token) :
    Cut n (factor cx parenthesised) (factor cx parenthesised') r := by
  apply Cut.peek_bind
  cases r with
  | nil => exact (Cut.report (by decide)).bind fun _ _ => .pure _
  | cons t ts =>
    apply Cut.ite
    · intro _
      exact .advance_bind (.pure _)
    intro _
    apply Cut.ite
    · intro _
      exact .advance_bind ((integerValue_cut t ts).bind fun _ _ => .pure _)
    intro _
    apply Cut.ite
    · intro _
      exact inner t ts
    intro _
    apply Cut.ite
    · intro _
      exact (Cut.report (by decide)).bind fun _ _ => Cut.advance.bind fun _ _ => .pure _
    · intro _
      exact (Cut.report (by decide)).bind fun _ _ => .pure _

theorem link_cut {operand operand' : Parser Expr} (op? : Token → Option BinOp)
    (inner : ∀ r, Cut n operand operand' r) (left : Expr) (r : List Token) :
    Cut n (link op? operand left) (link op? operand' left) r := by
  apply Cut.acceptAs_bind
  · intro t op ts _
    exact ((inner ts).bind fun _ _ => .pure _).mono (Nat.sub_le n 1)
  · exact .pure none

theorem term_cut (inner : ∀ t ts, Cut n (parenthesised t) (parenthesised' t) (t :: ts))
    (r : List Token) : Cut n (term cx parenthesised) (term cx parenthesised') r := by
  apply (factor_cut inner r).bind
  intro first r'
  exact .repeatedly (link_cut _ (factor_cut inner)) first r'

theorem sum_cut (inner : ∀ t ts, Cut n (parenthesised t) (parenthesised' t) (t :: ts))
    (r : List Token) : Cut n (sum cx parenthesised) (sum cx parenthesised') r := by
  have terms : ∀ r, Cut n (term cx parenthesised) (term cx parenthesised') r := term_cut inner
  have links := Cut.repeatedly (link_cut BinOp.additive? terms)
  apply Cut.acceptAs_bind
  · intro t sign ts _
    exact ((terms ts).bind fun first r' => links _ r').mono (Nat.sub_le n 1)
  · exact (terms r).bind fun first r' => links _ r'

theorem parentheses_cut (inner : ∀ r, Cut n expr expr' r) (t : Token) (ts : List Token) :
    Cut (n + 1) (parentheses cx expr t) (parentheses cx expr' t) (t :: ts) := by
  apply Cut.deeper
  apply Cut.advance_bind
  exact (inner ts).bind fun _ _ => Cut.require.bind fun _ _ => .pure _

theorem condition_cut (inner : ∀ r, Cut n expr expr' r) (r : List Token) :
    Cut n (condition cx expr) (condition cx expr') r := by
  apply Cut.accept_bind
  · intro t ts _
    exact ((inner ts).bind fun _ _ => .pure _).mono (Nat.sub_le n 1)
  apply Cut.here_bind
  apply (inner r).bind
  intro left r'
  apply Cut.acceptAs_bind
  · intro t op ts _
    exact ((inner ts).bind fun _ _ => .pure _).mono (Nat.sub_le n 1)
  · cases left.isMissing with
    | true => exact .pure _
    | false => exact (Cut.report (by decide)).bind fun _ _ => .pure _

end Expressions

theorem expression_cut (cx : Context) (nesting : Int) (le : room ≤ room') (r : List Token) :
    Cut (room' + 1) (expression cx room) (expression (cx.withNesting nesting) room') r := by
  induction room' generalizing room r with
  | zero =>
    obtain rfl : room = 0 := by omega
    exact sum_cut (fun t ts => .tooDeep (by simp)) r
  | succ room' ih =>
    cases room with
    | zero =>
      -- without room the parenthesis is not even taken
      exact sum_cut (fun t ts => (parentheses_cut (ih (Nat.zero_le room')) t ts).giveUp) r
    | succ room => exact sum_cut (parentheses_cut (ih (Nat.le_of_succ_le_succ le))) r

/-! ## Statements -/

section Statements

variable {expr expr' : Parser Expr} {stmt stmt' : Parser Stmt}

theorem assignment_cut (inner : ∀ r, Cut (n - 1) expr expr' r) (t : Token) (ts : List Token) :
    Cut n (assignment cx expr t) (assignment cx expr' t) (t :: ts) := by
  have value : ∀ r, Cut (n - 1) (assigned expr t.lexeme t.loc) (assigned expr' t.lexeme t.loc) r :=
    fun r => (inner r).bind fun _ _ => .pure _
  have given : ∀ r, Cut (n - 1)
      (do report cx (.symbol ":=") (.assignment t.lexeme) .placeholder; return Stmt.empty t.loc)
      (do report cx (.symbol ":=") (.assignment t.lexeme) .placeholder; return Stmt.empty t.loc) r :=
    fun r => (Cut.report (by decide)).bind fun _ _ => .pure _
  apply Cut.advance_bind
  apply Cut.accept_bind
  · intro sign ts' _
    exact (value ts').mono (Nat.sub_le _ 1)
  apply Cut.peek_bind
  cases ts with
  | nil => exact given []
  | cons next ts =>
    apply Cut.ite
    · intro _
      exact (Cut.report (by decide)).bind fun _ _ => Cut.advance.bind fun _ r => value r
    intro _
    apply Cut.ite
    · intro _
      exact (Cut.report (by decide)).bind fun _ r => value r
    · intro _
      exact given _

theorem named_cut (build : String → Location → Stmt) (t : Token) (ts : List Token) :
    Cut n (named cx build t) (named cx build t) (t :: ts) := by
  apply Cut.advance_bind
  apply Cut.accept_bind
  · intro name ts' _
    exact .pure _
  · exact (Cut.report (by decide)).bind fun _ _ => .pure _

theorem nextStatement_cut (inner : ∀ r, Cut n stmt stmt' r) (before : List Stmt) (r : List Token) :
    Cut n (nextStatement cx stmt before) (nextStatement cx stmt' before) r := by
  have next : ∀ r, Cut n (do return some (before ++ [← stmt])) (do return some (before ++ [← stmt'])) r :=
    fun r => (inner r).bind fun _ _ => .pure _
  apply Cut.accept_bind
  · intro t ts _
    exact (next ts).mono (Nat.sub_le n 1)
  apply Cut.peek_bind
  cases r with
  | nil => exact .pure none
  | cons t ts =>
    apply Cut.ite
    · intro _
      exact (Cut.report (by decide)).bind fun _ r => next r
    · intro _
      exact .pure none

theorem compound_cut (inner : ∀ r, Cut (n - 1) stmt stmt' r) (t : Token) (ts : List Token) :
    Cut n (compound cx stmt t) (compound cx stmt' t) (t :: ts) := by
  apply Cut.advance_bind
  apply (inner ts).bind
  intro first r
  apply (Cut.repeatedly (nextStatement_cut inner) [first] r).bind
  intro all r'
  exact Cut.require.bind fun _ _ => .pure _

theorem branch_cut (inner : ∀ r, Cut (n - 1) expr expr' r) (innerStmt : ∀ r, Cut (n - 1) stmt stmt' r)
    (t : Token) (ts : List Token) :
    Cut n (branch cx expr stmt t) (branch cx expr' stmt' t) (t :: ts) := by
  apply Cut.advance_bind
  apply (condition_cut inner ts).bind
  intro c r
  apply Cut.require.bind
  intro _ r'
  apply (innerStmt r').bind
  intro yes r''
  apply Cut.accept_bind
  · intro word rest _
    exact ((innerStmt rest).bind fun _ _ => .pure _).mono (Nat.sub_le _ 1)
  · exact .pure _

theorem loop_cut (inner : ∀ r, Cut (n - 1) expr expr' r) (innerStmt : ∀ r, Cut (n - 1) stmt stmt' r)
    (t : Token) (ts : List Token) :
    Cut n (loop cx expr stmt t) (loop cx expr' stmt' t) (t :: ts) := by
  apply Cut.advance_bind
  apply (condition_cut inner ts).bind
  intro c r
  apply Cut.require.bind
  intro _ r'
  exact (innerStmt r').bind fun _ _ => .pure _

theorem statementBody_cut (inner : ∀ r, Cut (n - 1) expr expr' r)
    (innerStmt : ∀ r, Cut (n - 1) stmt stmt' r) (r : List Token) :
    Cut n (statementBody cx expr stmt) (statementBody cx expr' stmt') r := by
  apply Cut.peek_bind
  cases r with
  | nil => exact .pure _
  | cons t ts =>
    apply Cut.ite (fun _ => assignment_cut inner t ts)
    intro _
    apply Cut.ite (fun _ => named_cut _ t ts)
    intro _
    apply Cut.ite (fun _ => named_cut _ t ts)
    intro _
    apply Cut.ite (fun _ => named_cut _ t ts)
    intro _
    apply Cut.ite (fun _ => compound_cut innerStmt t ts)
    intro _
    apply Cut.ite (fun _ => branch_cut inner innerStmt t ts)
    intro _
    apply Cut.ite (fun _ => loop_cut inner innerStmt t ts)
    intro _
    apply Cut.ite (fun _ => .pure _)
    intro _
    exact (Cut.report (by decide)).bind fun _ _ => Cut.advance.bind fun _ _ => .pure _

end Statements

theorem statement_cut (cx : Context) (nesting : Int) (le : room ≤ room') (r : List Token) :
    Cut room' (statement cx room) (statement (cx.withNesting nesting) room') r := by
  induction room' generalizing room r with
  | zero =>
    obtain rfl : room = 0 := by omega
    exact .tooDeep (Nat.zero_le _)
  | succ room' ih =>
    have body : ∀ {room}, room ≤ room' →
        Cut (room' + 1) (statement cx (room + 1)) (statement (cx.withNesting nesting) (room' + 1)) r := by
      intro room le
      apply Cut.deeper
      have inner := fun r => (expression_cut cx nesting le r).mono (Nat.le_succ room')
      exact statementBody_cut (n := room' + 1) inner (ih le) r
    cases room with
    | zero => exact (body (Nat.zero_le room')).giveUp
    | succ room => exact body (Nat.le_of_succ_le_succ le)

/-! ## Declarations -/

section Declarations

variable {α : Type} {decl : Parser α}

theorem constSign_cut (name : String) (r : List Token) :
    Cut n (constSign cx name) (constSign cx name) r := by
  apply Cut.accept_bind
  · intro t ts _
    exact .pure ()
  apply Cut.peek_bind
  cases r with
  | nil => exact .malformed
  | cons t ts =>
    apply Cut.ite
    · intro _
      exact (Cut.report (by decide)).bind fun _ _ => .advance
    · intro _
      exact .malformed

theorem constDecl_cut (r : List Token) : Cut n (constDecl cx) (constDecl cx) r := by
  apply Cut.accept_bind
  · intro name ts _
    apply (constSign_cut name.lexeme ts).bind
    intro _ r'
    apply Cut.accept_bind
    · intro number ts' _
      exact (integerValue_cut number ts').bind fun _ _ => .pure _
    · exact .malformed
  · exact .malformed

theorem varDecl_cut (r : List Token) : Cut n (varDecl cx) (varDecl cx) r :=
  .accept_bind (fun _ _ _ => .pure _) .malformed

theorem declaration_eq_error {before : List α} {h : Halt} {s s' : State} (run : decl s = .error h s')
    (other : ¬ Halt.IsMalformed h) : declaration decl before s = .error h s' := by
  cases h with
  | malformed => exact absurd trivial other
  | tooDeep | unreadable | blankLimit => simp [declaration, catching, run]

theorem declaration_cut (inner : ∀ r, Cut n decl decl r) (before : List α) (r : List Token) :
    Cut n (declaration decl before) (declaration decl before) r := by
  intro depth log
  obtain ⟨onward, fits, _⟩ := inner r depth log
  cases run : decl ⟨r, depth, log⟩ with
  | ok d s =>
    have added : declaration decl before ⟨r, depth, log⟩ = .ok (before ++ [d]) s := by
      simp [declaration, catching, run]
    rw [run] at onward
    rw [added]
    exact ⟨onward, fun _ => id, .inl rfl⟩
  | error h s =>
    rw [run] at onward fits
    cases h with
    | malformed wanted loc =>
      obtain ⟨r', depth', log'⟩ := s
      have omitted : declaration decl before ⟨r, depth, log⟩ =
          .ok before ⟨r'.dropWhile (!isLandmark ·), depth', log'⟩ := by
        simp [declaration, catching, run]
      have skipped := (List.dropWhile_suffix (l := r') (!isLandmark ·)).length_le
      rw [omitted]
      exact ⟨⟨Nat.le_trans skipped onward.shorter, onward.grown⟩, fun _ => id, .inl rfl⟩
    | tooDeep | unreadable | blankLimit =>
      rw [declaration_eq_error run id]
      exact ⟨onward, fits, .inl rfl⟩

theorem nextDeclaration_cut (inner : ∀ r, Cut n decl decl r) (between : Place) (before : List α)
    (r : List Token) :
    Cut n (nextDeclaration cx decl between before) (nextDeclaration cx decl between before) r := by
  have next : ∀ r, Cut n (do return some (← declaration decl before))
      (do return some (← declaration decl before)) r :=
    fun r => (declaration_cut inner before r).bind fun _ _ => .pure _
  apply Cut.accept_bind
  · intro t ts _
    exact (next ts).mono (Nat.sub_le n 1)
  apply Cut.peek_bind
  cases r with
  | nil => exact .pure none
  | cons t ts =>
    apply Cut.ite
    · intro _
      exact (Cut.report (by decide)).bind fun _ r => next r
    · intro _
      exact .pure none

theorem declarations_cut (inner : ∀ r, Cut n decl decl r) (between behind : Place) (r : List Token) :
    Cut n (declarations cx decl between behind) (declarations cx decl between behind) r := by
  apply (declaration_cut inner [] r).bind
  intro first r'
  apply (Cut.repeatedly (nextDeclaration_cut inner between) first r').bind
  intro all r''
  exact Cut.require.bind fun _ _ => .pure _

end Declarations

/-! ## Blocks -/

section Blocks

variable {blk blk' : Parser Block} {stmt stmt' : Parser Stmt}

/-- A procedure behind its name, whatever becomes of its block. -/
theorem procedureBody_cut (inner : ∀ r, Cut n blk blk' r) (f : Block → List Procedure)
    (r : List Token) :
    Cut n
      (do
        requireDelimiter cx ";" .afterProcedureHeader
        let b ← blk
        requireDelimiter cx ";" .afterProcedureBody
        return f b)
      (do
        requireDelimiter cx ";" .afterProcedureHeader
        let b ← blk'
        requireDelimiter cx ";" .afterProcedureBody
        return f b) r := by
  apply Cut.require.bind
  intro _ r'
  apply (inner r').bind
  intro b r''
  exact Cut.require.bind fun _ _ => .pure _

theorem procedure_cut (inner : ∀ r, Cut n blk blk' r) (t : Token) (r : List Token) :
    Cut n (procedure cx blk t) (procedure cx blk' t) r := by
  apply Cut.accept_bind
  · intro name ts _
    apply Cut.mono (n := n) _ (Nat.sub_le n 1)
    exact procedureBody_cut inner (fun b => [⟨name.lexeme, b, t.loc⟩]) ts
  · exact (Cut.report (by decide)).bind fun _ r' => procedureBody_cut inner (fun _ => []) r'

theorem checkOrder_cut (last : Option Section) (s : Section) (t : Token) (r : List Token) :
    Cut n (checkOrder last s t) (checkOrder last s t) r := by
  cases last with
  | none => exact .pure ()
  | some l => exact .ite (fun _ => .pure ()) fun _ => .record (by simp [Complaint.misplacedSection])

theorem nextSection_cut (inner : ∀ r, Cut (n - 1) blk blk' r) (d : Declared) (r : List Token) :
    Cut n (nextSection cx blk d) (nextSection cx blk' d) r := by
  apply Cut.acceptAs_bind
  · intro t s ts _
    apply (checkOrder_cut d.last s t ts).bind
    intro _ r'
    cases s with
    | const => exact (declarations_cut constDecl_cut _ _ r').bind fun _ _ => .pure _
    | var => exact (declarations_cut varDecl_cut _ _ r').bind fun _ _ => .pure _
    | procedure => exact (procedure_cut inner t r').bind fun _ _ => .pure _
  · exact .pure none

theorem blockBody_cut (inner : ∀ r, Cut (n - 1) blk blk' r) (innerStmt : ∀ r, Cut n stmt stmt' r)
    (r : List Token) : Cut n (blockBody cx blk stmt) (blockBody cx blk' stmt') r := by
  apply Cut.here_bind
  apply (Cut.repeatedly (nextSection_cut inner) {} r).bind
  intro d r'
  exact (innerStmt r').bind fun _ _ => .pure _

end Blocks

theorem block_cut (cx : Context) (nesting : Int) (le : room ≤ room') (r : List Token) :
    Cut (room' - 1) (block cx room) (block (cx.withNesting nesting) room') r := by
  induction room' generalizing room r with
  | zero =>
    obtain rfl : room = 0 := by omega
    exact .tooDeep (Nat.zero_le _)
  | succ room' ih =>
    have body : ∀ {room}, room ≤ room' →
        Cut room' (block cx (room + 1)) (block (cx.withNesting nesting) (room' + 1)) r := by
      intro room le
      apply Cut.deeper
      exact blockBody_cut (ih le) (statement_cut cx nesting le) r
    cases room with
    | zero => exact (body (Nat.zero_le room')).giveUp
    | succ room => exact body (Nat.le_of_succ_le_succ le)

theorem closedBlock_cut (cx : Context) (nesting : Int) (le : room ≤ room') (r : List Token) :
    Cut (room' - 1) (closedBlock cx room) (closedBlock (cx.withNesting nesting) room') r := by
  apply (block_cut cx nesting le r).bind
  intro b r'
  exact Cut.require.bind fun _ _ => .pure b

end Parser

end PlZero

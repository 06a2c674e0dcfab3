import PlZero.Parser.Expression

/-! # Statements

    statement := identifier ':=' expression
               | 'call' identifier
               | 'begin' statement {';' statement} 'end'
               | 'if' condition 'then' statement ['else' statement]
               | 'while' condition 'do' statement
               | 'read' identifier
               | 'write' identifier
               | nothing

The word `else` is an identifier to everything but this grammar.  Each layer takes the parsers of
the expressions and statements inside as parameters, and `statement` closes the circle by recursion
on the levels of nesting that are still allowed.
-/

namespace PlZero

namespace Parser

/-! ## Which tokens matter -/

/-- Whether a token is a name that a statement can start with. -/
def startsAssignment (t : Token) : Bool := t.kind = .identifier && t.lexeme ≠ "else"

/-- Whether a token can start a statement. -/
def startsStatement (t : Token) : Bool :=
  startsAssignment t || t.isKeyword "call" || t.isKeyword "begin" || t.isKeyword "if" ||
    t.isKeyword "while" || t.isKeyword "read" || t.isKeyword "write"

/-- Whether a token can follow a statement, and so also one that is not there. -/
def followsStatement (t : Token) : Bool :=
  t.isElse || t.isDelimiter ";" || t.isDelimiter "." || t.isKeyword "end"

/-! ## Statements of one level -/

/-- The value of an assignment to `name`, which starts at `loc`. -/
def assigned (expr : Parser Expr) (name : String) (loc : Location) : Parser Stmt := do
  return .assign name (← expr) loc

/-- An assignment to the name `t`.  An equals sign is taken for the assignment sign, and before an
expression the sign may be missing. -/
def assignment (cx : Context) (expr : Parser Expr) (t : Token) : Parser Stmt := do
  advance
  match ← accept (·.isOperator ":=") with
  | some _ => assigned expr t.lexeme t.loc
  | none =>
    let wanted : Wanted := .symbol ":="
    let place : Place := .assignment t.lexeme
    match ← peek with
    | some next =>
      if next.isOperator "=" then
        report cx wanted place .substituted
        advance
        assigned expr t.lexeme t.loc
      else if startsExpression next then
        report cx wanted place .assumedPresent
        assigned expr t.lexeme t.loc
      else
        report cx wanted place .placeholder
        return .empty t.loc
    | none =>
      report cx wanted place .placeholder
      return .empty t.loc

/-- A statement made of the keyword `t` and a name. -/
def named (cx : Context) (build : String → Location → Stmt) (t : Token) : Parser Stmt := do
  advance
  match ← accept (·.kind = .identifier) with
  | some name => return build name.lexeme t.loc
  | none =>
    report cx .identifier (.after t.lexeme) .placeholder
    return .empty t.loc

/-- One more statement between `begin` and `end`, if there is one.  Before the start of a statement
the semicolon may be missing. -/
def nextStatement (cx : Context) (stmt : Parser Stmt) (before : List Stmt) :
    Parser (Option (List Stmt)) := do
  match ← accept (·.isDelimiter ";") with
  | some _ => return some (before ++ [← stmt])
  | none =>
    match ← peek with
    | some t =>
      if startsStatement t then
        report cx (.symbol ";") .betweenStatements .assumedPresent
        return some (before ++ [← stmt])
      else
        return none
    | none => return none

/-- Statements between `begin`, which is the token `t`, and `end`. -/
def compound (cx : Context) (stmt : Parser Stmt) (t : Token) : Parser Stmt := do
  advance
  let first ← stmt
  let all ← repeatedly (nextStatement cx stmt) [first]
  requireKeyword cx "end" (.closing "begin" t.loc)
  return .compound all t.loc

/-- A branch that starts with the keyword `t`. -/
def branch (cx : Context) (expr : Parser Expr) (stmt : Parser Stmt) (t : Token) :
    Parser Stmt := do
  advance
  let c ← condition cx expr
  requireKeyword cx "then" (.afterCondition "if")
  let yes ← stmt
  match ← accept Token.isElse with
  | some _ => return .branch c yes (some (← stmt)) t.loc
  | none => return .branch c yes none t.loc

/-- A loop that starts with the keyword `t`. -/
def loop (cx : Context) (expr : Parser Expr) (stmt : Parser Stmt) (t : Token) : Parser Stmt := do
  advance
  let c ← condition cx expr
  requireKeyword cx "do" (.afterCondition "while")
  return .loop c (← stmt) t.loc

/-- A statement, given the parsers of the expressions and statements inside.  A token that neither
starts nor follows a statement is skipped. -/
def statementBody (cx : Context) (expr : Parser Expr) (stmt : Parser Stmt) : Parser Stmt := do
  match ← peek with
  | none => return .empty cx.endLoc
  | some t =>
    if startsAssignment t then assignment cx expr t
    else if t.isKeyword "call" then named cx .call t
    else if t.isKeyword "read" then named cx .read t
    else if t.isKeyword "write" then named cx .write t
    else if t.isKeyword "begin" then compound cx stmt t
    else if t.isKeyword "if" then branch cx expr stmt t
    else if t.isKeyword "while" then loop cx expr stmt t
    else if followsStatement t then return .empty t.loc
    else
      report cx .statement .anywhere .skipped
      advance
      return .empty t.loc

/-! ## Statements -/

/-- A statement that has `room` levels of nesting left, itself counted. -/
def statement (cx : Context) : Nat → Parser Stmt
  | 0 => tooDeep cx
  | room + 1 => deeper (statementBody cx (expression cx room) (statement cx room))

end Parser

end PlZero

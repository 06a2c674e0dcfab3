import PlZero.Node.Written
import PlZero.Parser.Basic

/-! # Expressions and conditions

    condition  := 'odd' expression | expression relation expression
    expression := ['+' | '-'] term {('+' | '-') term}
    term       := factor {('*' | '/') factor}
    factor     := identifier | number | '(' expression ')'

Operators group to the left, and a sign belongs to the first term alone.  An operand that is not
there is marked in the tree.  Parentheses are the one way for an expression to hold another, so the
layers below take the parser of a parenthesised expression as a parameter, and `expression` closes
the circle by recursion on the levels of nesting that are still allowed.
-/

namespace PlZero

/-! ## Operators -/

/-- The sign that a token is. -/
def Sign.ofToken? (t : Token) : Option Sign :=
  if t.isOperator "+" then some .plus
  else if t.isOperator "-" then some .minus
  else none

/-- The operator between terms that a token is. -/
def BinOp.additive? (t : Token) : Option BinOp :=
  if t.isOperator "+" then some .add
  else if t.isOperator "-" then some .sub
  else none

/-- The operator between factors that a token is. -/
def BinOp.multiplicative? (t : Token) : Option BinOp :=
  if t.isOperator "*" then some .mul
  else if t.isOperator "/" then some .div
  else none

/-- The relation that a token is. -/
def RelOp.ofToken? (t : Token) : Option RelOp :=
  if t.isOperator "=" then some .eq
  else if t.isOperator "<>" then some .ne
  else if t.isOperator "<" then some .lt
  else if t.isOperator "<=" then some .le
  else if t.isOperator ">" then some .gt
  else if t.isOperator ">=" then some .ge
  else none

namespace Parser

/-! ## Integers -/

/-- Complains about an integer token that is too great, and cuts it down to the greatest allowed. -/
def saturate (cx : Context) (t : Token) : Parser Quantity := do
  record (Complaint.tooLarge cx.limits.maxInteger t)
  return cx.limits.maxInteger

/-- The value of an integer token, which is cut down to the greatest allowed.  A token that has more
digits than the limit has characters is too great, and is not read at all. -/
def integerValue (cx : Context) (t : Token) : Parser Quantity :=
  let limit := cx.limits.maxInteger
  let digits := Text.stripZeros t.lexeme
  if limit.text.length < digits.length then saturate cx t
  else
    match Text.readInteger digits with
    | .error cause => halt (.unreadable cause)
    | .ok n =>
      match limit.allows? n with
      | some true => return .number n
      | some false => saturate cx t
      | none => halt .blankLimit

/-! ## Expressions -/

/-- Whether a token can start an expression. -/
def startsExpression (t : Token) : Bool :=
  t.kind = .identifier || t.kind = .integer || t.isDelimiter "(" || t.isOperator "+" ||
    t.isOperator "-"

/-- A factor, given the parser of an expression that starts with the parenthesis `t`. -/
def factor (cx : Context) (parenthesised : Token → Parser Expr) : Parser Expr := do
  match ← peek with
  | none =>
    report cx .expression .anywhere .placeholder
    return .missing cx.endLoc
  | some t =>
    if t.kind = .identifier then
      advance
      return .name t.lexeme t.loc
    else if t.kind = .integer then
      advance
      return .integer (← integerValue cx t) t.loc
    else if t.isDelimiter "(" then
      parenthesised t
    else if t.kind = .unknown then
      report cx .expression .anywhere .skipped
      advance
      return .missing t.loc
    else
      report cx .expression .anywhere .placeholder
      return .missing t.loc

/-- One more operator of a chain and its right operand, if the chain goes on. -/
def link (op? : Token → Option BinOp) (operand : Parser Expr) (left : Expr) :
    Parser (Option Expr) := do
  match ← acceptAs op? with
  | some (t, op) => return some (.binary op left (← operand) t.loc)
  | none => return none

/-- A term. -/
def term (cx : Context) (parenthesised : Token → Parser Expr) : Parser Expr := do
  let first ← factor cx parenthesised
  repeatedly (link BinOp.multiplicative? (factor cx parenthesised)) first

/-- A sum of terms, the first of which may have a sign. -/
def sum (cx : Context) (parenthesised : Token → Parser Expr) : Parser Expr := do
  let sign ← acceptAs Sign.ofToken?
  let first ← term cx parenthesised
  let first :=
    match sign with
    | some (t, s) => .signed s first t.loc
    | none => first
  repeatedly (link BinOp.additive? (term cx parenthesised)) first

/-- An expression between parentheses, the first of which is `t`. -/
def parentheses (cx : Context) (inner : Parser Expr) (t : Token) : Parser Expr :=
  deeper do
    advance
    let e ← inner
    requireDelimiter cx ")" (.closing "(" t.loc)
    return .group e t.loc

/-- An expression that has `room` levels of nesting left. -/
def expression (cx : Context) : Nat → Parser Expr
  | 0 => sum cx fun _ => tooDeep cx
  | room + 1 => sum cx (parentheses cx (expression cx room))

/-! ## Conditions -/

/-- A condition, given the parser of expressions.  If the left operand is missing there has been a
complaint already. -/
def condition (cx : Context) (expr : Parser Expr) : Parser Condition := do
  match ← accept (·.isKeyword "odd") with
  | some t => return .odd (← expr) t.loc
  | none =>
    let loc ← here cx
    let left ← expr
    match ← acceptAs RelOp.ofToken? with
    | some (t, op) => return .relation op left (← expr) t.loc
    | none =>
      unless left.isMissing do
        report cx .relation (.after left.written) .placeholder
      return .missing loc

end Parser

end PlZero

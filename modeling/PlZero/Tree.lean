import PlZero.Location
import PlZero.Quantity

/-! # Syntax trees

The trees of programs, one type for each syntactic class.  Every construct carries the location of
the token it is known by: the operator of an operation, the name of an assignment, the keyword of
most statements.  What could not be read is marked by `missing`; a statement may also be absent by
right, which is `Stmt.empty`.
-/

namespace PlZero

/-! ## Operators -/

/-- The sign in front of the first term of an expression. -/
inductive Sign
  | plus
  | minus
deriving DecidableEq, Repr, Inhabited

/-- The arithmetic operators between two operands. -/
inductive BinOp
  | add
  | sub
  | mul
  | div
deriving DecidableEq, Repr, Inhabited

/-- The relations between two expressions. -/
inductive RelOp
  | eq
  | ne
  | lt
  | le
  | gt
  | ge
deriving DecidableEq, Repr, Inhabited

/-- How a sign is written. -/
def Sign.symbol : Sign → String
  | .plus => "+"
  | .minus => "-"

/-- How an arithmetic operator is written. -/
def BinOp.symbol : BinOp → String
  | .add => "+"
  | .sub => "-"
  | .mul => "*"
  | .div => "/"

/-- How a relation is written. -/
def RelOp.symbol : RelOp → String
  | .eq => "="
  | .ne => "<>"
  | .lt => "<"
  | .le => "<="
  | .gt => ">"
  | .ge => ">="

/-! ## Expressions and conditions -/

/-- An arithmetic expression. -/
inductive Expr
  | integer (value : Quantity) (loc : Location)
  | name (id : String) (loc : Location)
  | binary (op : BinOp) (left right : Expr) (loc : Location)
  | signed (sign : Sign) (operand : Expr) (loc : Location)
  /-- An expression between parentheses. -/
  | group (inner : Expr) (loc : Location)
  /-- An operand that could not be read. -/
  | missing (loc : Location)
deriving DecidableEq, Repr, Inhabited

/-- Whether an operand is marked as missing. -/
def Expr.isMissing : Expr → Bool
  | .missing _ => true
  | _ => false

/-- What decides a branch or a loop. -/
inductive Condition
  | odd (operand : Expr) (loc : Location)
  | relation (op : RelOp) (left right : Expr) (loc : Location)
  /-- A condition that could not be read. -/
  | missing (loc : Location)
deriving DecidableEq, Repr, Inhabited

/-! ## Statements -/

/-- A statement. -/
inductive Stmt
  | assign (target : String) (value : Expr) (loc : Location)
  | call (procedure : String) (loc : Location)
  | compound (body : List Stmt) (loc : Location)
  | branch (condition : Condition) (yes : Stmt) (no : Option Stmt) (loc : Location)
  | loop (condition : Condition) (body : Stmt) (loc : Location)
  | read (target : String) (loc : Location)
  | write (source : String) (loc : Location)
  /-- No statement at all, or one that could not be read. -/
  | empty (loc : Location)
deriving Inhabited

/-! ## Declarations, blocks and programs -/

/-- A constant and its value. -/
structure ConstDecl where
  name : String
  value : Quantity
  loc : Location
deriving DecidableEq, Repr, Inhabited

/-- A variable. -/
structure VarDecl where
  name : String
  loc : Location
deriving DecidableEq, Repr, Inhabited

mutual

/-- Declarations, each class in source order, and a body. -/
structure Block where
  consts : List ConstDecl
  vars : List VarDecl
  procedures : List Procedure
  body : Stmt
  loc : Location

/-- A named block. -/
structure Procedure where
  name : String
  block : Block
  loc : Location

end

/-- A program is one block. -/
structure Program where
  block : Block
  loc : Location

/-- A tree of any syntactic class. -/
inductive Tree
  | program (p : Program)
  | block (b : Block)
  | stmt (s : Stmt)
  | condition (c : Condition)
  | expr (e : Expr)
  | const (d : ConstDecl)
  | var (d : VarDecl)

end PlZero

/-! # The constructs of the language

One value for each construct that a syntax tree can hold, and the name under which it appears in
records and messages.
-/

namespace PlZero

/-- A construct of the language. -/
inductive Construct
  | integer
  | name
  | binary
  | signed
  | group
  /-- Marks an operand, a condition or a statement that is not there. -/
  | missing
  | odd
  | relation
  | assign
  | call
  | compound
  | branch
  | loop
  | read
  | write
  | const
  | var
  | procedure
  | block
  | program
deriving DecidableEq, Repr, Inhabited

/-- The name of a construct. -/
def Construct.label : Construct → String
  | .integer => "IntLiteral"
  | .name => "Identifier"
  | .binary => "BinaryOp"
  | .signed => "UnaryOp"
  | .group => "ParenExpr"
  | .missing => "EmptyNode"
  | .odd => "OddConditionNode"
  | .relation => "RelationalConditionNode"
  | .assign => "AssignNode"
  | .call => "CallNode"
  | .compound => "CompoundNode"
  | .branch => "IfNode"
  | .loop => "WhileNode"
  | .read => "ReadNode"
  | .write => "WriteNode"
  | .const => "ConstDeclNode"
  | .var => "VarDeclNode"
  | .procedure => "ProcedureDeclNode"
  | .block => "BlockNode"
  | .program => "ProgramNode"

/-- Whether a construct can stand where an expression is written out. -/
def Construct.isExpression : Construct → Bool
  | .integer | .name | .binary | .signed | .group | .missing => true
  | _ => false

end PlZero

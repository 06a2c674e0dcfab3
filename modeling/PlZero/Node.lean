import PlZero.Construct
import PlZero.Tree

/-! # Loose trees

A `Node` is a syntax tree without locations and without syntactic classes: any node, a piece of
text or nothing at all may stand in any place.  Printing is defined on loose trees, so that it can
say what it does with a tree that no source text has.  The trees of `PlZero.Tree` are loose trees
by forgetting (`Program.toNode` and its companions), and two of them are equal up to locations when
they are the same loose tree.
-/

namespace PlZero

/-- A tree in which anything may stand anywhere. -/
inductive Node
  /-- Nothing. -/
  | absent
  /-- A piece of text in place of a tree. -/
  | text (s : String)
  | integer (value : Quantity)
  | name (id : String)
  | binary (op : String) (left right : Node)
  | signed (sign : String) (operand : Node)
  | group (inner : Node)
  | missing
  | odd (operand : Node)
  | relation (op : String) (left right : Node)
  | assign (target : String) (value : Node)
  | call (procedure : String)
  | compound (body : List Node)
  | branch (condition yes no : Node)
  | loop (condition body : Node)
  | read (target : String)
  | write (source : String)
  | const (name : String) (value : Quantity)
  | var (name : String)
  | procedure (name : String) (block : Node)
  | block (consts : List (String × Quantity)) (vars : List String) (procedures : List Node)
      (body : Node)
  | program (block : Node)
deriving Inhabited

/-- The construct at the root, unless there is none. -/
def Node.construct? : Node → Option Construct
  | .absent => none
  | .text _ => none
  | .integer _ => some .integer
  | .name _ => some .name
  | .binary .. => some .binary
  | .signed .. => some .signed
  | .group _ => some .group
  | .missing => some .missing
  | .odd _ => some .odd
  | .relation .. => some .relation
  | .assign .. => some .assign
  | .call _ => some .call
  | .compound _ => some .compound
  | .branch .. => some .branch
  | .loop .. => some .loop
  | .read _ => some .read
  | .write _ => some .write
  | .const .. => some .const
  | .var _ => some .var
  | .procedure .. => some .procedure
  | .block .. => some .block
  | .program _ => some .program

/-- The name of what stands at the root. -/
def Node.label (n : Node) : String :=
  match n.construct? with
  | some c => c.label
  | none =>
    match n with
    | .text _ => "str"
    | _ => "NoneType"

/-- Whether an expression stands at the root. -/
def Node.isExpression (n : Node) : Bool := n.construct?.any Construct.isExpression

/-! ## Forgetting locations and classes -/

/-- An expression as a loose tree. -/
def Expr.toNode : Expr → Node
  | .integer v _ => .integer v
  | .name id _ => .name id
  | .binary op l r _ => .binary op.symbol l.toNode r.toNode
  | .signed s e _ => .signed s.symbol e.toNode
  | .group e _ => .group e.toNode
  | .missing _ => .missing

/-- A condition as a loose tree. -/
def Condition.toNode : Condition → Node
  | .odd e _ => .odd e.toNode
  | .relation op l r _ => .relation op.symbol l.toNode r.toNode
  | .missing _ => .missing

mutual

/-- A statement as a loose tree. -/
def Stmt.toNode : Stmt → Node
  | .assign t e _ => .assign t e.toNode
  | .call p _ => .call p
  | .compound ss _ => .compound (Stmt.toNodes ss)
  | .branch c y n _ => .branch c.toNode y.toNode (Stmt.toNodeOption n)
  | .loop c s _ => .loop c.toNode s.toNode
  | .read t _ => .read t
  | .write s _ => .write s
  | .empty _ => .missing

/-- Statements as loose trees. -/
def Stmt.toNodes : List Stmt → List Node
  | [] => []
  | s :: ss => s.toNode :: Stmt.toNodes ss

/-- An optional statement as a loose tree. -/
def Stmt.toNodeOption : Option Stmt → Node
  | none => .absent
  | some s => s.toNode

end

/-- The declaration of a constant as a loose tree. -/
def ConstDecl.toNode (d : ConstDecl) : Node := .const d.name d.value

/-- The declaration of a variable as a loose tree. -/
def VarDecl.toNode (d : VarDecl) : Node := .var d.name

mutual

/-- A block as a loose tree. -/
def Block.toNode : Block → Node
  | ⟨cs, vs, ps, s, _⟩ =>
    .block (cs.map fun d => (d.name, d.value)) (vs.map VarDecl.name) (Procedure.toNodes ps) s.toNode

/-- A procedure as a loose tree. -/
def Procedure.toNode : Procedure → Node
  | ⟨n, b, _⟩ => .procedure n b.toNode

/-- Procedures as loose trees. -/
def Procedure.toNodes : List Procedure → List Node
  | [] => []
  | p :: ps => p.toNode :: Procedure.toNodes ps

end

/-- A program as a loose tree. -/
def Program.toNode (p : Program) : Node := .program p.block.toNode

/-- A tree of any class as a loose tree. -/
def Tree.toNode : Tree → Node
  | .program p => p.toNode
  | .block b => b.toNode
  | .stmt s => s.toNode
  | .condition c => c.toNode
  | .expr e => e.toNode
  | .const d => d.toNode
  | .var d => d.toNode

end PlZero

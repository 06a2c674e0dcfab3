import PlZero.Construct
import PlZero.Tree

/-! # Where the constructs of a tree stand

The anchors of a tree are its constructs in preorder, each with its location: a construct comes
before its parts, and the parts come in the order in which they are written down in a record.
-/

namespace PlZero

/-- A construct and where it stands. -/
abbrev Anchor := Construct × Location

/-- The anchors of an expression. -/
def Expr.anchors : Expr → List Anchor
  | .integer _ l => [(.integer, l)]
  | .name _ l => [(.name, l)]
  | .binary _ a b l => (.binary, l) :: (a.anchors ++ b.anchors)
  | .signed _ e l => (.signed, l) :: e.anchors
  | .group e l => (.group, l) :: e.anchors
  | .missing l => [(.missing, l)]

/-- The anchors of a condition. -/
def Condition.anchors : Condition → List Anchor
  | .odd e l => (.odd, l) :: e.anchors
  | .relation _ a b l => (.relation, l) :: (a.anchors ++ b.anchors)
  | .missing l => [(.missing, l)]

mutual

/-- The anchors of a statement. -/
def Stmt.anchors : Stmt → List Anchor
  | .assign _ e l => (.assign, l) :: e.anchors
  | .call _ l => [(.call, l)]
  | .compound ss l => (.compound, l) :: Stmt.anchorsList ss
  | .branch c y n l => (.branch, l) :: (c.anchors ++ y.anchors ++ Stmt.anchorsOption n)
  | .loop c s l => (.loop, l) :: (c.anchors ++ s.anchors)
  | .read _ l => [(.read, l)]
  | .write _ l => [(.write, l)]
  | .empty l => [(.missing, l)]

/-- The anchors of statements in a row. -/
def Stmt.anchorsList : List Stmt → List Anchor
  | [] => []
  | s :: ss => s.anchors ++ Stmt.anchorsList ss

/-- The anchors of an optional statement. -/
def Stmt.anchorsOption : Option Stmt → List Anchor
  | none => []
  | some s => s.anchors

end

/-- The anchor of a constant. -/
def ConstDecl.anchor (d : ConstDecl) : Anchor := (.const, d.loc)

/-- The anchor of a variable. -/
def VarDecl.anchor (d : VarDecl) : Anchor := (.var, d.loc)

mutual

/-- The anchors of a block. -/
def Block.anchors : Block → List Anchor
  | ⟨cs, vs, ps, s, l⟩ =>
    (.block, l) :: (cs.map ConstDecl.anchor ++ vs.map VarDecl.anchor ++ Procedure.anchorsList ps ++
      s.anchors)

/-- The anchors of a procedure. -/
def Procedure.anchors : Procedure → List Anchor
  | ⟨_, b, l⟩ => (.procedure, l) :: b.anchors

/-- The anchors of procedures in a row. -/
def Procedure.anchorsList : List Procedure → List Anchor
  | [] => []
  | p :: ps => p.anchors ++ Procedure.anchorsList ps

end

/-- The anchors of a program. -/
def Program.anchors (p : Program) : List Anchor := (.program, p.loc) :: p.block.anchors

/-- The anchors of a tree of any class. -/
def Tree.anchors : Tree → List Anchor
  | .program p => p.anchors
  | .block b => b.anchors
  | .stmt s => s.anchors
  | .condition c => c.anchors
  | .expr e => e.anchors
  | .const d => [d.anchor]
  | .var d => [d.anchor]

end PlZero

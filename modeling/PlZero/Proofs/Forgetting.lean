import PlZero.Node.Written
import PlZero.Proofs.Grammar

/-! # Loose trees have no locations

A loose tree is made of everything but the locations of a tree, so trees that differ in locations at most
are the same loose tree, and all that is printed of one of them is printed of the other.
-/

namespace PlZero

theorem Expr.toNode_bare (e : Expr) : e.bare.toNode = e.toNode := by
  induction e with
  | integer | name | missing => rfl
  | binary op a b l iha ihb => simp [bare, toNode, iha, ihb]
  | signed s e l ih => simp [bare, toNode, ih]
  | group e l ih => simp [bare, toNode, ih]

theorem Expr.written_eq_of_bare {e e' : Expr} (same : e.bare = e'.bare) : e.written = e'.written := by
  have loose : e.toNode = e'.toNode := by rw [← toNode_bare e, same, toNode_bare]
  have written := written_toNode e
  rw [loose, written_toNode e'] at written
  exact (Except.ok.inj written).symm

theorem Condition.toNode_bare (c : Condition) : c.bare.toNode = c.toNode := by
  cases c with
  | odd e l => simp [bare, toNode, Expr.toNode_bare]
  | relation op a b l => simp [bare, toNode, Expr.toNode_bare]
  | missing l => rfl

mutual

theorem Stmt.toNode_bare : ∀ s : Stmt, s.bare.toNode = s.toNode
  | .assign target e l => by simp [Stmt.bare, Stmt.toNode, Expr.toNode_bare]
  | .call .. | .read .. | .write .. | .empty _ => rfl
  | .compound ss l => by simp [Stmt.bare, Stmt.toNode, Stmt.toNodes_bareList ss]
  | .branch c y n l => by
    simp [Stmt.bare, Stmt.toNode, Condition.toNode_bare, Stmt.toNode_bare y,
      Stmt.toNodeOption_bareOption n]
  | .loop c s l => by simp [Stmt.bare, Stmt.toNode, Condition.toNode_bare, Stmt.toNode_bare s]

theorem Stmt.toNodes_bareList : ∀ ss : List Stmt, Stmt.toNodes (Stmt.bareList ss) = Stmt.toNodes ss
  | [] => rfl
  | s :: ss => by simp [Stmt.bareList, Stmt.toNodes, Stmt.toNode_bare s, Stmt.toNodes_bareList ss]

theorem Stmt.toNodeOption_bareOption : ∀ n : Option Stmt,
    Stmt.toNodeOption (Stmt.bareOption n) = Stmt.toNodeOption n
  | none => rfl
  | some s => by simp [Stmt.bareOption, Stmt.toNodeOption, Stmt.toNode_bare s]

end

mutual

theorem Block.toNode_bare : ∀ b : Block, b.bare.toNode = b.toNode
  | ⟨cs, vs, ps, s, l⟩ => by
    simp [Block.bare, Block.toNode, Procedure.toNodes_bareList ps, Stmt.toNode_bare, ConstDecl.bare,
      VarDecl.bare, Function.comp_def]

theorem Procedure.toNode_bare : ∀ p : Procedure, p.bare.toNode = p.toNode
  | ⟨name, b, l⟩ => by simp [Procedure.bare, Procedure.toNode, Block.toNode_bare b]

theorem Procedure.toNodes_bareList : ∀ ps : List Procedure,
    Procedure.toNodes (Procedure.bareList ps) = Procedure.toNodes ps
  | [] => rfl
  | p :: ps => by
    simp [Procedure.bareList, Procedure.toNodes, Procedure.toNode_bare p, Procedure.toNodes_bareList ps]

end

theorem Program.toNode_bare (p : Program) : p.bare.toNode = p.toNode := by
  simp [bare, toNode, Block.toNode_bare]

theorem Program.toNode_eq_of_bare {p q : Program} (same : p.bare = q.bare) : p.toNode = q.toNode := by
  rw [← toNode_bare p, same, toNode_bare]

end PlZero

import PlZero.Node.Outline

/-! # Expressions as they are written

An expression in the notation of the language.  Parentheses are those of the source, which the tree
keeps, so none have to be added.  Only expressions can be written out; of several misplaced parts
the leftmost is named.
-/

namespace PlZero

/-- The complaint about something that is no expression. -/
def Misplaced.writtenMessage (m : Misplaced) : String :=
  "Cannot render expression type: " ++ m.label

/-- An expression in the notation of the language. -/
def Node.written : Node → Except Misplaced String
  | .integer v => .ok v.text
  | .name id => .ok id
  | .binary op l r => do
    let l ← l.written
    let r ← r.written
    return l ++ " " ++ op ++ " " ++ r
  | .signed s e => do
    let e ← e.written
    return s ++ e
  | .group e => do
    let e ← e.written
    return "(" ++ e ++ ")"
  | .missing => .ok "<missing>"
  | n => .error ⟨n.label⟩

/-- An expression in the notation of the language. -/
def Expr.written : Expr → String
  | .integer v _ => v.text
  | .name id _ => id
  | .binary op l r _ => l.written ++ " " ++ op.symbol ++ " " ++ r.written
  | .signed s e _ => s.symbol ++ e.written
  | .group e _ => "(" ++ e.written ++ ")"
  | .missing _ => "<missing>"

/-- Writing out an expression never fails. -/
theorem Expr.written_toNode (e : Expr) : e.toNode.written = .ok e.written := by
  induction e with
  | integer | name | missing => rfl
  | binary op l r _ ihl ihr =>
    simp only [Expr.toNode, Node.written, ihl, ihr, Expr.written]
    rfl
  | signed s e _ ih =>
    simp only [Expr.toNode, Node.written, ih, Expr.written]
    rfl
  | group e _ ih =>
    simp only [Expr.toNode, Node.written, ih, Expr.written]
    rfl

end PlZero

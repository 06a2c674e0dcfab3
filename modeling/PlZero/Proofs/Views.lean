import PlZero.Proofs.Grammar

/-! # Views of a tree

A view changes the names, the integers and the locations of a tree, each by a function of its own, and
leaves everything else as it is.  To say that two trees differ in their names and locations at most is
to say that they look the same in suitable views.  A tree without locations is one view of it
(`bare_seen`), and a tree with other names is another (`rename`).
-/

namespace PlZero

/-- What is seen of names, integers and locations. -/
structure View where
  name : String → String := id
  value : Quantity → Quantity := id
  loc : Location → Location := id

def Expr.seen (v : View) : Expr → Expr
  | .integer n l => .integer (v.value n) (v.loc l)
  | .name id l => .name (v.name id) (v.loc l)
  | .binary op a b l => .binary op (a.seen v) (b.seen v) (v.loc l)
  | .signed s e l => .signed s (e.seen v) (v.loc l)
  | .group e l => .group (e.seen v) (v.loc l)
  | .missing l => .missing (v.loc l)

def Condition.seen (v : View) : Condition → Condition
  | .odd e l => .odd (e.seen v) (v.loc l)
  | .relation op a b l => .relation op (a.seen v) (b.seen v) (v.loc l)
  | .missing l => .missing (v.loc l)

mutual

def Stmt.seen (v : View) : Stmt → Stmt
  | .assign target e l => .assign (v.name target) (e.seen v) (v.loc l)
  | .call p l => .call (v.name p) (v.loc l)
  | .compound ss l => .compound (Stmt.seenList v ss) (v.loc l)
  | .branch c y n l => .branch (c.seen v) (y.seen v) (Stmt.seenOption v n) (v.loc l)
  | .loop c s l => .loop (c.seen v) (s.seen v) (v.loc l)
  | .read target l => .read (v.name target) (v.loc l)
  | .write source l => .write (v.name source) (v.loc l)
  | .empty l => .empty (v.loc l)

def Stmt.seenList (v : View) : List Stmt → List Stmt
  | [] => []
  | s :: ss => s.seen v :: Stmt.seenList v ss

def Stmt.seenOption (v : View) : Option Stmt → Option Stmt
  | none => none
  | some s => some (s.seen v)

end

def ConstDecl.seen (v : View) (d : ConstDecl) : ConstDecl := ⟨v.name d.name, v.value d.value, v.loc d.loc⟩

def VarDecl.seen (v : View) (d : VarDecl) : VarDecl := ⟨v.name d.name, v.loc d.loc⟩

mutual

def Block.seen (v : View) : Block → Block
  | ⟨cs, vs, ps, s, l⟩ =>
    ⟨cs.map (ConstDecl.seen v), vs.map (VarDecl.seen v), Procedure.seenList v ps, s.seen v, v.loc l⟩

def Procedure.seen (v : View) : Procedure → Procedure
  | ⟨name, b, l⟩ => ⟨v.name name, b.seen v, v.loc l⟩

def Procedure.seenList (v : View) : List Procedure → List Procedure
  | [] => []
  | p :: ps => p.seen v :: Procedure.seenList v ps

end

def Program.seen (v : View) (p : Program) : Program := ⟨p.block.seen v, v.loc p.loc⟩

/-- A program with other names. -/
def Program.rename (f : String → String) (p : Program) : Program := p.seen { name := f }

/-! ## Lists inside trees -/

theorem Stmt.seenList_eq_map (v : View) (ss : List Stmt) : seenList v ss = ss.map (seen v) := by
  induction ss with
  | nil => rfl
  | cons s ss ih => simp [seenList, ih]

theorem Procedure.seenList_eq_map (v : View) (ps : List Procedure) : seenList v ps = ps.map (seen v) := by
  induction ps with
  | nil => rfl
  | cons p ps ih => simp [seenList, ih]

@[simp] theorem Expr.isMissing_seen (v : View) (e : Expr) : (e.seen v).isMissing = e.isMissing := by
  cases e with
  | integer | name | binary | signed | group | missing => rfl

/-! ## The view that changes nothing -/

theorem Expr.seen_self (e : Expr) : e.seen {} = e := by
  induction e with
  | integer | name | missing => rfl
  | binary op a b l iha ihb => simp [seen, iha, ihb]
  | signed s e l ih => simp [seen, ih]
  | group e l ih => simp [seen, ih]

theorem Condition.seen_self (c : Condition) : c.seen {} = c := by
  cases c with
  | odd e l => simp [seen, Expr.seen_self]
  | relation op a b l => simp [seen, Expr.seen_self]
  | missing l => rfl

mutual

theorem Stmt.seen_self : ∀ s : Stmt, s.seen {} = s
  | .assign target e l => by simp [Stmt.seen, Expr.seen_self]
  | .call .. | .read .. | .write .. | .empty _ => rfl
  | .compound ss l => by simp [Stmt.seen, Stmt.seenList_self ss]
  | .branch c y n l => by
    simp [Stmt.seen, Condition.seen_self, Stmt.seen_self y, Stmt.seenOption_self n]
  | .loop c s l => by simp [Stmt.seen, Condition.seen_self, Stmt.seen_self s]

theorem Stmt.seenList_self : ∀ ss : List Stmt, Stmt.seenList {} ss = ss
  | [] => rfl
  | s :: ss => by simp [Stmt.seenList, Stmt.seen_self s, Stmt.seenList_self ss]

theorem Stmt.seenOption_self : ∀ n : Option Stmt, Stmt.seenOption {} n = n
  | none => rfl
  | some s => by simp [Stmt.seenOption, Stmt.seen_self s]

end

theorem ConstDecl.seen_self : ConstDecl.seen {} = id := rfl

theorem VarDecl.seen_self : VarDecl.seen {} = id := rfl

mutual

theorem Block.seen_self : ∀ b : Block, b.seen {} = b
  | ⟨cs, vs, ps, s, l⟩ => by
    simp [Block.seen, ConstDecl.seen_self, VarDecl.seen_self, Procedure.seenList_self ps, Stmt.seen_self]

theorem Procedure.seen_self : ∀ p : Procedure, p.seen {} = p
  | ⟨name, b, l⟩ => by simp [Procedure.seen, Block.seen_self b]

theorem Procedure.seenList_self : ∀ ps : List Procedure, Procedure.seenList {} ps = ps
  | [] => rfl
  | p :: ps => by simp [Procedure.seenList, Procedure.seen_self p, Procedure.seenList_self ps]

end

theorem Program.seen_self (p : Program) : p.seen {} = p := by
  simp [seen, Block.seen_self]

/-! ## Trees without locations -/

namespace View

/-- The same view without locations. -/
def bare (v : View) : View := { v with loc := fun _ => .nowhere }

end View

theorem Expr.bare_seen (v : View) (e : Expr) : (e.seen v).bare = e.seen v.bare := by
  induction e with
  | integer | name | missing => rfl
  | binary op a b l iha ihb => simp [seen, bare, iha, ihb, View.bare]
  | signed s e l ih => simp [seen, bare, ih, View.bare]
  | group e l ih => simp [seen, bare, ih, View.bare]

theorem Condition.bare_seen (v : View) (c : Condition) : (c.seen v).bare = c.seen v.bare := by
  cases c with
  | odd e l => simp [seen, bare, Expr.bare_seen, View.bare]
  | relation op a b l => simp [seen, bare, Expr.bare_seen, View.bare]
  | missing l => rfl

mutual

theorem Stmt.bare_seen (v : View) : ∀ s : Stmt, (s.seen v).bare = s.seen v.bare
  | .assign target e l => by simp [Stmt.seen, Stmt.bare, Expr.bare_seen, View.bare]
  | .call .. | .read .. | .write .. | .empty _ => rfl
  | .compound ss l => by simp [Stmt.seen, Stmt.bare, Stmt.bareList_seenList v ss, View.bare]
  | .branch c y n l => by
    simp [Stmt.seen, Stmt.bare, Condition.bare_seen, Stmt.bare_seen v y,
      Stmt.bareOption_seenOption v n, View.bare]
  | .loop c s l => by simp [Stmt.seen, Stmt.bare, Condition.bare_seen, Stmt.bare_seen v s, View.bare]

theorem Stmt.bareList_seenList (v : View) : ∀ ss : List Stmt,
    Stmt.bareList (Stmt.seenList v ss) = Stmt.seenList v.bare ss
  | [] => rfl
  | s :: ss => by
    simp [Stmt.seenList, Stmt.bareList, Stmt.bare_seen v s, Stmt.bareList_seenList v ss]

theorem Stmt.bareOption_seenOption (v : View) : ∀ n : Option Stmt,
    Stmt.bareOption (Stmt.seenOption v n) = Stmt.seenOption v.bare n
  | none => rfl
  | some s => by simp [Stmt.seenOption, Stmt.bareOption, Stmt.bare_seen v s]

end

theorem ConstDecl.bare_seen (v : View) (d : ConstDecl) : (d.seen v).bare = d.seen v.bare := rfl

theorem VarDecl.bare_seen (v : View) (d : VarDecl) : (d.seen v).bare = d.seen v.bare := rfl

mutual

theorem Block.bare_seen (v : View) : ∀ b : Block, (b.seen v).bare = b.seen v.bare
  | ⟨cs, vs, ps, s, l⟩ => by
    simp [Block.seen, Block.bare, Procedure.bareList_seenList v ps, Stmt.bare_seen,
      ConstDecl.bare_seen, VarDecl.bare_seen, View.bare]

theorem Procedure.bare_seen (v : View) : ∀ p : Procedure, (p.seen v).bare = p.seen v.bare
  | ⟨name, b, l⟩ => by simp [Procedure.seen, Procedure.bare, Block.bare_seen v b, View.bare]

theorem Procedure.bareList_seenList (v : View) : ∀ ps : List Procedure,
    Procedure.bareList (Procedure.seenList v ps) = Procedure.seenList v.bare ps
  | [] => rfl
  | p :: ps => by
    simp [Procedure.seenList, Procedure.bareList, Procedure.bare_seen v p,
      Procedure.bareList_seenList v ps]

end

theorem Program.bare_seen (v : View) (p : Program) : (p.seen v).bare = p.seen v.bare := by
  simp [seen, bare, Block.bare_seen, View.bare]

end PlZero

import PlZero.Tree

/-! # Equality of trees

Trees are compared with all their locations.  Statements and blocks hold lists of their own kind,
so their equality test is written out here, together with the proof that it decides equality.
-/

namespace PlZero

/-! ## Statements -/

mutual

/-- Whether two statements are the same. -/
def Stmt.same : Stmt → Stmt → Bool
  | .assign t v l, .assign t' v' l' => t = t' && v = v' && l = l'
  | .call p l, .call p' l' => p = p' && l = l'
  | .compound ss l, .compound ss' l' => Stmt.sameList ss ss' && l = l'
  | .branch c y n l, .branch c' y' n' l' =>
    c = c' && Stmt.same y y' && Stmt.sameOption n n' && l = l'
  | .loop c b l, .loop c' b' l' => c = c' && Stmt.same b b' && l = l'
  | .read t l, .read t' l' => t = t' && l = l'
  | .write s l, .write s' l' => s = s' && l = l'
  | .empty l, .empty l' => l = l'
  | _, _ => false

/-- Whether two lists of statements are the same. -/
def Stmt.sameList : List Stmt → List Stmt → Bool
  | [], [] => true
  | s :: ss, s' :: ss' => Stmt.same s s' && Stmt.sameList ss ss'
  | _, _ => false

/-- Whether two optional statements are the same. -/
def Stmt.sameOption : Option Stmt → Option Stmt → Bool
  | none, none => true
  | some s, some s' => Stmt.same s s'
  | _, _ => false

end

mutual

theorem Stmt.same_iff : ∀ a b : Stmt, Stmt.same a b = true ↔ a = b
  | .assign .., b => by cases b <;> simp [Stmt.same, and_assoc]
  | .call .., b => by cases b <;> simp [Stmt.same]
  | .compound ss _, b => by cases b <;> simp [Stmt.same, Stmt.sameList_iff ss]
  | .branch _ y n _, b => by
    cases b <;> simp [Stmt.same, Stmt.same_iff y, Stmt.sameOption_iff n, and_assoc]
  | .loop _ s _, b => by cases b <;> simp [Stmt.same, Stmt.same_iff s, and_assoc]
  | .read .., b => by cases b <;> simp [Stmt.same]
  | .write .., b => by cases b <;> simp [Stmt.same]
  | .empty _, b => by cases b <;> simp [Stmt.same]

theorem Stmt.sameList_iff : ∀ a b : List Stmt, Stmt.sameList a b = true ↔ a = b
  | [], b => by cases b <;> simp [Stmt.sameList]
  | s :: ss, b => by cases b <;> simp [Stmt.sameList, Stmt.same_iff s, Stmt.sameList_iff ss]

theorem Stmt.sameOption_iff : ∀ a b : Option Stmt, Stmt.sameOption a b = true ↔ a = b
  | none, b => by cases b <;> simp [Stmt.sameOption]
  | some s, b => by cases b <;> simp [Stmt.sameOption, Stmt.same_iff s]

end

instance : DecidableEq Stmt := fun a b => decidable_of_iff _ (Stmt.same_iff a b)

/-! ## Blocks -/

mutual

/-- Whether two blocks are the same. -/
def Block.same : Block → Block → Bool
  | ⟨cs, vs, ps, s, l⟩, ⟨cs', vs', ps', s', l'⟩ =>
    cs = cs' && vs = vs' && Procedure.sameList ps ps' && s = s' && l = l'

/-- Whether two procedures are the same. -/
def Procedure.same : Procedure → Procedure → Bool
  | ⟨n, b, l⟩, ⟨n', b', l'⟩ => n = n' && Block.same b b' && l = l'

/-- Whether two lists of procedures are the same. -/
def Procedure.sameList : List Procedure → List Procedure → Bool
  | [], [] => true
  | p :: ps, p' :: ps' => Procedure.same p p' && Procedure.sameList ps ps'
  | _, _ => false

end

mutual

theorem Block.same_iff : ∀ a b : Block, Block.same a b = true ↔ a = b
  | ⟨_, _, ps, _, _⟩, b => by cases b; simp [Block.same, Procedure.sameList_iff ps, and_assoc]

theorem Procedure.same_iff : ∀ a b : Procedure, Procedure.same a b = true ↔ a = b
  | ⟨_, b, _⟩, p => by cases p; simp [Procedure.same, Block.same_iff b, and_assoc]

theorem Procedure.sameList_iff : ∀ a b : List Procedure, Procedure.sameList a b = true ↔ a = b
  | [], b => by cases b <;> simp [Procedure.sameList]
  | p :: ps, b => by
    cases b <;> simp [Procedure.sameList, Procedure.same_iff p, Procedure.sameList_iff ps]

end

instance : DecidableEq Block := fun a b => decidable_of_iff _ (Block.same_iff a b)

deriving instance DecidableEq for Program

end PlZero

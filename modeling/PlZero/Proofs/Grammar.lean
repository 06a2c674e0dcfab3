import PlZero.Token
import PlZero.Tree

/-! # The grammar, read from trees

What the grammar says about a tree, without any parser:

* `words` writes a tree out as the words of the language, in order, and `Token.word` is the word
  that a token stands for;
* `Grammatical` says that a tree is shaped as the grammar would shape it, so that writing it out
  loses nothing but locations;
* `depth` counts blocks, statements and parentheses that stand inside each other, and `literals`
  collects the integers;
* `bare` takes the locations out of a tree.
-/

namespace PlZero

/-! ## Words -/

/-- A word of the language: what sort it is and how it is spelled. -/
abbrev Word := Token.Kind × String

namespace Word

def keyword (w : String) : Word := (.keyword, w)

def operator (symbol : String) : Word := (.operator, symbol)

def delimiter (symbol : String) : Word := (.delimiter, symbol)

def identifier (name : String) : Word := (.identifier, name)

/-- A number in decimal. -/
def number (v : Quantity) : Word := (.integer, v.text)

end Word

/-- The word that a token stands for: its kind and lexeme, an integer without leading zeros. -/
def Token.word (t : Token) : Word :=
  (t.kind, if t.kind = .integer then Text.stripZeros t.lexeme else t.lexeme)

/-- Things in a row, with commas between them. -/
def commaWords {α : Type} (words : α → List Word) : List α → List Word
  | [] => []
  | a :: as => words a ++ as.flatMap fun b => .delimiter "," :: words b

/-- A section of declarations, which is there only if something is declared. -/
def sectionWords {α : Type} (keyword : String) (words : α → List Word) : List α → List Word
  | [] => []
  | a :: as => .keyword keyword :: commaWords words (a :: as) ++ [.delimiter ";"]

/-- The words of an expression. -/
def Expr.words : Expr → List Word
  | .integer v _ => [.number v]
  | .name id _ => [.identifier id]
  | .binary op l r _ => l.words ++ .operator op.symbol :: r.words
  | .signed s e _ => .operator s.symbol :: e.words
  | .group e _ => .delimiter "(" :: e.words ++ [.delimiter ")"]
  | .missing _ => []

def Condition.words : Condition → List Word
  | .odd e _ => .keyword "odd" :: e.words
  | .relation op l r _ => l.words ++ .operator op.symbol :: r.words
  | .missing _ => []

mutual

/-- The words of a statement. -/
def Stmt.words : Stmt → List Word
  | .assign target e _ => .identifier target :: .operator ":=" :: e.words
  | .call p _ => [.keyword "call", .identifier p]
  -- no grammatical statement, but every tree has words
  | .compound [] _ => [.keyword "begin", .keyword "end"]
  | .compound (s :: ss) _ =>
    .keyword "begin" :: s.words ++ Stmt.wordsBehind ss ++ [.keyword "end"]
  | .branch c y n _ =>
    .keyword "if" :: c.words ++ .keyword "then" :: y.words ++ Stmt.wordsElse n
  | .loop c s _ => .keyword "while" :: c.words ++ .keyword "do" :: s.words
  | .read target _ => [.keyword "read", .identifier target]
  | .write source _ => [.keyword "write", .identifier source]
  | .empty _ => []

/-- The words of the statements behind the first one, a semicolon before each of them. -/
def Stmt.wordsBehind : List Stmt → List Word
  | [] => []
  | s :: ss => .delimiter ";" :: s.words ++ Stmt.wordsBehind ss

/-- The words of the other branch, if there is one. -/
def Stmt.wordsElse : Option Stmt → List Word
  | none => []
  | some s => .identifier "else" :: s.words

end

/-- The words of the declaration of a constant. -/
def ConstDecl.words (d : ConstDecl) : List Word :=
  [.identifier d.name, .operator "=", .number d.value]

def VarDecl.words (d : VarDecl) : List Word := [.identifier d.name]

mutual

/-- The words of a block. -/
def Block.words : Block → List Word
  | ⟨cs, vs, ps, s, _⟩ =>
    sectionWords "const" ConstDecl.words cs ++ sectionWords "var" VarDecl.words vs ++
      Procedure.wordsList ps ++ s.words

def Procedure.words : Procedure → List Word
  | ⟨name, b, _⟩ =>
    .keyword "procedure" :: .identifier name :: .delimiter ";" :: b.words ++ [.delimiter ";"]

def Procedure.wordsList : List Procedure → List Word
  | [] => []
  | p :: ps => p.words ++ Procedure.wordsList ps

end

/-- The words of a program. -/
def Program.words (p : Program) : List Word := p.block.words ++ [.delimiter "."]

/-! ## Grammatical trees -/

/-- The three layers of expressions, from the loosest to the tightest. -/
inductive Expr.Layer
  | sum
  | term
  | factor
deriving DecidableEq, Repr, Inhabited

/-- The layer whose chains an operator links. -/
def BinOp.layer : BinOp → Expr.Layer
  | .add | .sub => .sum
  | .mul | .div => .term

/-- An expression that the grammar derives in a layer.  Chains lean to the left, and a sign stands
before the first term only. -/
inductive Expr.Grammatical : Expr.Layer → Expr → Prop
  -- a negative number would be written with a sign
  | integer {n : Int} {loc : Location} : 0 ≤ n → Grammatical .factor (.integer (.number n) loc)
  | name {id : String} {loc : Location} : Grammatical .factor (.name id loc)
  | group {e : Expr} {loc : Location} : Grammatical .sum e → Grammatical .factor (.group e loc)
  | ofFactor {e : Expr} : Grammatical .factor e → Grammatical .term e
  | product {op : BinOp} {l r : Expr} {loc : Location} : op.layer = .term →
      Grammatical .term l → Grammatical .factor r → Grammatical .term (.binary op l r loc)
  | ofTerm {e : Expr} : Grammatical .term e → Grammatical .sum e
  | signed {s : Sign} {e : Expr} {loc : Location} :
      Grammatical .term e → Grammatical .sum (.signed s e loc)
  | sum {op : BinOp} {l r : Expr} {loc : Location} : op.layer = .sum →
      Grammatical .sum l → Grammatical .term r → Grammatical .sum (.binary op l r loc)

/-- A condition that the grammar derives. -/
inductive Condition.Grammatical : Condition → Prop
  | odd {e : Expr} {loc : Location} : e.Grammatical .sum → Grammatical (.odd e loc)
  | relation {op : RelOp} {l r : Expr} {loc : Location} :
      l.Grammatical .sum → r.Grammatical .sum → Grammatical (.relation op l r loc)

mutual

/-- Whether a statement ends in a branch without `else`, to which an `else` behind the statement
would belong. -/
def Stmt.endsOpen : Stmt → Bool
  | .branch _ _ n _ => Stmt.endsOpenElse n
  | .loop _ s _ => s.endsOpen
  | _ => false

/-- Whether a branch ends so, given its other branch. -/
def Stmt.endsOpenElse : Option Stmt → Bool
  | none => true
  | some s => s.endsOpen

end

/-- A statement that the grammar derives, every `else` belonging to the nearest branch that can
take it. -/
inductive Stmt.Grammatical : Stmt → Prop
  | assign {target : String} {e : Expr} {loc : Location} :
      target ≠ "else" → e.Grammatical .sum → Grammatical (.assign target e loc)
  | call {p : String} {loc : Location} : Grammatical (.call p loc)
  | compound {s : Stmt} {ss : List Stmt} {loc : Location} :
      Grammatical s → (∀ s' ∈ ss, Grammatical s') → Grammatical (.compound (s :: ss) loc)
  | branch {c : Condition} {y : Stmt} {loc : Location} :
      c.Grammatical → Grammatical y → Grammatical (.branch c y none loc)
  -- an `else` behind an open branch would belong to that one
  | branchElse {c : Condition} {y n : Stmt} {loc : Location} :
      c.Grammatical → Grammatical y → y.endsOpen = false → Grammatical n →
        Grammatical (.branch c y (some n) loc)
  | loop {c : Condition} {s : Stmt} {loc : Location} :
      c.Grammatical → Grammatical s → Grammatical (.loop c s loc)
  | read {target : String} {loc : Location} : Grammatical (.read target loc)
  | write {source : String} {loc : Location} : Grammatical (.write source loc)
  | empty {loc : Location} : Grammatical (.empty loc)

/-- A constant that the grammar derives: its value has no sign. -/
def ConstDecl.Grammatical (d : ConstDecl) : Prop := ∃ n : Int, 0 ≤ n ∧ d.value = .number n

/-- A block that the grammar derives.  The order of its sections is that of the fields. -/
inductive Block.Grammatical : Block → Prop
  -- nothing is asked of variables and of names
  | mk {cs : List ConstDecl} {vs : List VarDecl} {ps : List Procedure} {s : Stmt} {loc : Location} :
      (∀ d ∈ cs, d.Grammatical) → (∀ p ∈ ps, Grammatical p.block) → s.Grammatical →
        Grammatical ⟨cs, vs, ps, s, loc⟩

/-- A program that the grammar derives. -/
def Program.Grammatical (p : Program) : Prop := p.block.Grammatical

/-! ## Depth -/

/-- The parentheses that stand inside each other. -/
def Expr.depth : Expr → Nat
  | .integer _ _ | .name _ _ | .missing _ => 0
  | .binary _ l r _ => max l.depth r.depth
  | .signed _ e _ => e.depth
  | .group e _ => e.depth + 1

def Condition.depth : Condition → Nat
  | .odd e _ => e.depth
  | .relation _ l r _ => max l.depth r.depth
  | .missing _ => 0

mutual

/-- The statements and parentheses that stand inside each other, the statement itself counted. -/
def Stmt.depth : Stmt → Nat
  | .assign _ e _ => e.depth + 1
  | .compound ss _ => Stmt.depthList ss + 1
  | .branch c y n _ => max c.depth (max y.depth (Stmt.depthOption n)) + 1
  | .loop c s _ => max c.depth s.depth + 1
  | .call _ _ | .read _ _ | .write _ _ | .empty _ => 1

def Stmt.depthList : List Stmt → Nat
  | [] => 0
  | s :: ss => max s.depth (Stmt.depthList ss)

def Stmt.depthOption : Option Stmt → Nat
  | none => 0
  | some s => s.depth

end

mutual

/-- The blocks, statements and parentheses that stand inside each other, the block itself
counted. -/
def Block.depth : Block → Nat
  | ⟨_, _, ps, s, _⟩ => max (Procedure.depthList ps) s.depth + 1

def Procedure.depth : Procedure → Nat
  | ⟨_, b, _⟩ => b.depth

def Procedure.depthList : List Procedure → Nat
  | [] => 0
  | p :: ps => max p.depth (Procedure.depthList ps)

end

/-- How deep blocks, statements and parentheses nest in a program, all counted together. -/
def Program.depth (p : Program) : Nat := p.block.depth

theorem Block.depth_pos (b : Block) : 0 < b.depth := by
  cases b
  simp [Block.depth]

/-! ## Literals -/

/-- Whether a quantity is a number that is at most the limit. -/
def Quantity.AtMost (limit : Int) : Quantity → Prop
  | .number n => n ≤ limit
  | .blank => False

/-- The integers of an expression. -/
def Expr.literals : Expr → List Quantity
  | .integer v _ => [v]
  | .name _ _ | .missing _ => []
  | .binary _ l r _ => l.literals ++ r.literals
  | .signed _ e _ | .group e _ => e.literals

def Condition.literals : Condition → List Quantity
  | .odd e _ => e.literals
  | .relation _ l r _ => l.literals ++ r.literals
  | .missing _ => []

mutual

/-- The integers of a statement. -/
def Stmt.literals : Stmt → List Quantity
  | .assign _ e _ => e.literals
  | .compound ss _ => Stmt.literalsList ss
  | .branch c y n _ => c.literals ++ y.literals ++ Stmt.literalsOption n
  | .loop c s _ => c.literals ++ s.literals
  | .call _ _ | .read _ _ | .write _ _ | .empty _ => []

def Stmt.literalsList : List Stmt → List Quantity
  | [] => []
  | s :: ss => s.literals ++ Stmt.literalsList ss

def Stmt.literalsOption : Option Stmt → List Quantity
  | none => []
  | some s => s.literals

end

mutual

/-- The integers of a block, with the values of its constants. -/
def Block.literals : Block → List Quantity
  | ⟨cs, _, ps, s, _⟩ => cs.map ConstDecl.value ++ Procedure.literalsList ps ++ s.literals

def Procedure.literals : Procedure → List Quantity
  | ⟨_, b, _⟩ => b.literals

def Procedure.literalsList : List Procedure → List Quantity
  | [] => []
  | p :: ps => p.literals ++ Procedure.literalsList ps

end

def Program.literals (p : Program) : List Quantity := p.block.literals

/-! ## Trees without locations -/

/-- What stands for the location of something whose location does not matter. -/
def Location.nowhere : Location := ⟨"", 0, 0, none, none, none⟩

/-- An expression without its locations. -/
def Expr.bare : Expr → Expr
  | .integer v _ => .integer v .nowhere
  | .name id _ => .name id .nowhere
  | .binary op l r _ => .binary op l.bare r.bare .nowhere
  | .signed s e _ => .signed s e.bare .nowhere
  | .group e _ => .group e.bare .nowhere
  | .missing _ => .missing .nowhere

def Condition.bare : Condition → Condition
  | .odd e _ => .odd e.bare .nowhere
  | .relation op l r _ => .relation op l.bare r.bare .nowhere
  | .missing _ => .missing .nowhere

mutual

def Stmt.bare : Stmt → Stmt
  | .assign target e _ => .assign target e.bare .nowhere
  | .call p _ => .call p .nowhere
  | .compound ss _ => .compound (Stmt.bareList ss) .nowhere
  | .branch c y n _ => .branch c.bare y.bare (Stmt.bareOption n) .nowhere
  | .loop c s _ => .loop c.bare s.bare .nowhere
  | .read target _ => .read target .nowhere
  | .write source _ => .write source .nowhere
  | .empty _ => .empty .nowhere

def Stmt.bareList : List Stmt → List Stmt
  | [] => []
  | s :: ss => s.bare :: Stmt.bareList ss

def Stmt.bareOption : Option Stmt → Option Stmt
  | none => none
  | some s => some s.bare

end

def ConstDecl.bare (d : ConstDecl) : ConstDecl := { d with loc := .nowhere }

def VarDecl.bare (d : VarDecl) : VarDecl := { d with loc := .nowhere }

mutual

def Block.bare : Block → Block
  | ⟨cs, vs, ps, s, _⟩ =>
    ⟨cs.map ConstDecl.bare, vs.map VarDecl.bare, Procedure.bareList ps, s.bare, .nowhere⟩

def Procedure.bare : Procedure → Procedure
  | ⟨name, b, _⟩ => ⟨name, b.bare, .nowhere⟩

def Procedure.bareList : List Procedure → List Procedure
  | [] => []
  | p :: ps => p.bare :: Procedure.bareList ps

end

def Program.bare (p : Program) : Program := ⟨p.block.bare, .nowhere⟩

/-! ## Lists inside trees -/

namespace Stmt

@[simp] theorem wordsBehind_append (ss ss' : List Stmt) :
    wordsBehind (ss ++ ss') = wordsBehind ss ++ wordsBehind ss' := by
  induction ss with
  | nil => simp [wordsBehind]
  | cons s ss ih => simp [wordsBehind, ih]

theorem depthList_le_iff {ss : List Stmt} {n : Nat} : depthList ss ≤ n ↔ ∀ s ∈ ss, s.depth ≤ n := by
  induction ss with
  | nil => simp [depthList]
  | cons s ss ih => simp only [depthList, Nat.max_le, ih, List.forall_mem_cons]

theorem bareList_eq_map (ss : List Stmt) : bareList ss = ss.map bare := by
  induction ss with
  | nil => rfl
  | cons s ss ih => simp [bareList, ih]

theorem mem_literalsList {ss : List Stmt} {v : Quantity} :
    v ∈ literalsList ss ↔ ∃ s ∈ ss, v ∈ s.literals := by
  induction ss with
  | nil => simp [literalsList]
  | cons s ss ih => simp [literalsList, ih]

end Stmt

@[simp] theorem sectionWords_nil {α : Type} (keyword : String) (words : α → List Word) :
    sectionWords keyword words [] = [] := rfl

namespace Procedure

theorem depth_eq (p : Procedure) : p.depth = p.block.depth := by
  cases p
  rfl

theorem bare_eq (p : Procedure) : p.bare = ⟨p.name, p.block.bare, .nowhere⟩ := by
  cases p
  rfl

theorem words_eq (p : Procedure) : p.words = .keyword "procedure" :: .identifier p.name ::
    .delimiter ";" :: (p.block.words ++ [.delimiter ";"]) := by
  cases p
  simp [words]

theorem literals_eq (p : Procedure) : p.literals = p.block.literals := by
  cases p
  rfl

@[simp] theorem wordsList_append (ps ps' : List Procedure) :
    wordsList (ps ++ ps') = wordsList ps ++ wordsList ps' := by
  induction ps with
  | nil => simp [wordsList]
  | cons p ps ih => simp [wordsList, ih]

theorem depthList_le_iff {ps : List Procedure} {n : Nat} :
    depthList ps ≤ n ↔ ∀ p ∈ ps, p.depth ≤ n := by
  induction ps with
  | nil => simp [depthList]
  | cons p ps ih => simp only [depthList, Nat.max_le, ih, List.forall_mem_cons]

theorem bareList_eq_map (ps : List Procedure) : bareList ps = ps.map bare := by
  induction ps with
  | nil => rfl
  | cons p ps ih => simp [bareList, ih]

theorem mem_literalsList {ps : List Procedure} {v : Quantity} :
    v ∈ literalsList ps ↔ ∃ p ∈ ps, v ∈ p.literals := by
  induction ps with
  | nil => simp [literalsList]
  | cons p ps ih => simp [literalsList, ih]

end Procedure

/-! ## What locations do not change -/

theorem Expr.depth_bare (e : Expr) : e.bare.depth = e.depth := by
  induction e with
  | integer | name | missing => rfl
  | binary op l r loc ihl ihr => simp [Expr.bare, Expr.depth, ihl, ihr]
  | signed s e loc ih => simp [Expr.bare, Expr.depth, ih]
  | group e loc ih => simp [Expr.bare, Expr.depth, ih]

theorem Condition.depth_bare (c : Condition) : c.bare.depth = c.depth := by
  cases c <;> simp [Condition.bare, Condition.depth, Expr.depth_bare]

mutual

theorem Stmt.depth_bare : ∀ s : Stmt, s.bare.depth = s.depth
  | .assign _ e _ => by simp [Stmt.bare, Stmt.depth, Expr.depth_bare]
  | .compound ss _ => by simp [Stmt.bare, Stmt.depth, Stmt.depthList_bareList ss]
  | .branch c y n _ => by
    simp [Stmt.bare, Stmt.depth, Condition.depth_bare, Stmt.depth_bare y,
      Stmt.depthOption_bareOption n]
  | .loop c s _ => by simp [Stmt.bare, Stmt.depth, Condition.depth_bare, Stmt.depth_bare s]
  | .call _ _ | .read _ _ | .write _ _ | .empty _ => rfl

theorem Stmt.depthList_bareList : ∀ ss : List Stmt,
    Stmt.depthList (Stmt.bareList ss) = Stmt.depthList ss
  | [] => rfl
  | s :: ss => by
    simp [Stmt.bareList, Stmt.depthList, Stmt.depth_bare s, Stmt.depthList_bareList ss]

theorem Stmt.depthOption_bareOption : ∀ n : Option Stmt,
    Stmt.depthOption (Stmt.bareOption n) = Stmt.depthOption n
  | none => rfl
  | some s => by simp [Stmt.bareOption, Stmt.depthOption, Stmt.depth_bare s]

end

mutual

theorem Block.depth_bare : ∀ b : Block, b.bare.depth = b.depth
  | ⟨_, _, ps, s, _⟩ => by
    simp [Block.bare, Block.depth, Procedure.depthList_bareList ps, Stmt.depth_bare s]

theorem Procedure.depth_bare : ∀ p : Procedure, p.bare.depth = p.depth
  | ⟨_, b, _⟩ => by simp [Procedure.bare, Procedure.depth, Block.depth_bare b]

theorem Procedure.depthList_bareList : ∀ ps : List Procedure,
    Procedure.depthList (Procedure.bareList ps) = Procedure.depthList ps
  | [] => rfl
  | p :: ps => by
    simp [Procedure.bareList, Procedure.depthList, Procedure.depth_bare p,
      Procedure.depthList_bareList ps]

end

end PlZero

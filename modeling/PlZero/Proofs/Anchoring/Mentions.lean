import Mathlib.Data.List.Forall2
import Mathlib.Data.List.Perm.Subperm
import PlZero.Proofs.Words
import PlZero.Tree.Anchors

/-! # The tokens that a tree speaks of

A construct is known by one token of the source, and some constructs speak of a second one: the name
behind `call`, the number behind the name of a constant.  The mentions of a tree are what it says about
these tokens, in the order in which the grammar puts them: an operator stands between its operands, and
every other construct before its parts.

* `Mention.Fits` says that a token is one that is spoken of so, and `Grounded` that some tokens of a list
  are, in the order of the mentions;
* `Block.Grounded` says the same of the declarations and the body of a block, whose sections need not
  come in the order of the tree, but never share a token.
-/

namespace PlZero

/-! ## Mentions -/

/-- What is said about a token. -/
inductive Peg
  | word (w : Word)
  /-- It is an integer with this value, unless the value was cut down to the limit. -/
  | integer (v : Quantity)

/-- A token that a tree speaks of, and the construct that stands where the token does, if there is
one. -/
structure Mention where
  peg : Peg
  anchor? : Option Anchor := none

/-- Whether a token is the one that is meant. -/
def Peg.Is (limit : Int) (t : Token) : Peg → Prop
  | .word w => (t.kind, t.lexeme) = w
  | .integer v => t.kind = .integer ∧ ∃ n : Int, t.value = .ok (.number n) ∧ v = .number (min n limit)

/-- Whether a token is the one that is meant, and stands where the construct does. -/
structure Mention.Fits (limit : Int) (m : Mention) (t : Token) : Prop where
  peg : m.peg.Is limit t
  loc : ∀ a ∈ m.anchor?, t.loc = a.2

def Expr.mentions : Expr → List Mention
  | .integer v l => [⟨.integer v, some (.integer, l)⟩]
  | .name id l => [⟨.word (.identifier id), some (.name, l)⟩]
  | .binary op a b l => a.mentions ++ ⟨.word (.operator op.symbol), some (.binary, l)⟩ :: b.mentions
  | .signed s e l => ⟨.word (.operator s.symbol), some (.signed, l)⟩ :: e.mentions
  | .group e l => ⟨.word (.delimiter "("), some (.group, l)⟩ :: e.mentions
  | .missing _ => []

def Condition.mentions : Condition → List Mention
  | .odd e l => ⟨.word (.keyword "odd"), some (.odd, l)⟩ :: e.mentions
  | .relation op a b l => a.mentions ++ ⟨.word (.operator op.symbol), some (.relation, l)⟩ :: b.mentions
  | .missing _ => []

mutual

def Stmt.mentions : Stmt → List Mention
  | .assign target e l => ⟨.word (.identifier target), some (.assign, l)⟩ :: e.mentions
  | .call p l => [⟨.word (.keyword "call"), some (.call, l)⟩, ⟨.word (.identifier p), none⟩]
  | .compound ss l => ⟨.word (.keyword "begin"), some (.compound, l)⟩ :: Stmt.mentionsList ss
  | .branch c y n l => ⟨.word (.keyword "if"), some (.branch, l)⟩ ::
      (c.mentions ++ y.mentions ++ Stmt.mentionsOption n)
  | .loop c s l => ⟨.word (.keyword "while"), some (.loop, l)⟩ :: (c.mentions ++ s.mentions)
  | .read target l => [⟨.word (.keyword "read"), some (.read, l)⟩, ⟨.word (.identifier target), none⟩]
  | .write source l => [⟨.word (.keyword "write"), some (.write, l)⟩, ⟨.word (.identifier source), none⟩]
  | .empty _ => []

def Stmt.mentionsList : List Stmt → List Mention
  | [] => []
  | s :: ss => s.mentions ++ Stmt.mentionsList ss

def Stmt.mentionsOption : Option Stmt → List Mention
  | none => []
  | some s => s.mentions

end

def ConstDecl.mentions (d : ConstDecl) : List Mention :=
  [⟨.word (.identifier d.name), some d.anchor⟩, ⟨.integer d.value, none⟩]

def VarDecl.mentions (d : VarDecl) : List Mention := [⟨.word (.identifier d.name), some d.anchor⟩]

mutual

def Block.mentions : Block → List Mention
  | ⟨cs, vs, ps, s, _⟩ => cs.flatMap ConstDecl.mentions ++ vs.flatMap VarDecl.mentions ++
      Procedure.mentionsList ps ++ s.mentions

def Procedure.mentions : Procedure → List Mention
  | ⟨name, b, l⟩ => ⟨.word (.keyword "procedure"), some (.procedure, l)⟩ ::
      ⟨.word (.identifier name), none⟩ :: b.mentions

def Procedure.mentionsList : List Procedure → List Mention
  | [] => []
  | p :: ps => p.mentions ++ Procedure.mentionsList ps

end

def Program.mentions (p : Program) : List Mention := p.block.mentions

theorem Stmt.mentionsList_append (ss ss' : List Stmt) :
    mentionsList (ss ++ ss') = mentionsList ss ++ mentionsList ss' := by
  induction ss with
  | nil => rfl
  | cons s ss ih => simp [mentionsList, ih]

/-! ## Tokens in the order of mentions -/

/-- Some of the tokens are the ones that are spoken of, one for each mention and in the same order. -/
def Grounded (limit : Int) (ms : List Mention) (ts : List Token) : Prop :=
  List.SublistForall₂ (Mention.Fits limit) ms ts

namespace Grounded

variable {limit : Int} {ms ms' : List Mention} {m : Mention} {ts ts' : List Token} {t : Token}

theorem nil : Grounded limit [] ts := List.SublistForall₂.nil

theorem cons (fits : m.Fits limit t) (behind : Grounded limit ms ts) :
    Grounded limit (m :: ms) (t :: ts) := List.SublistForall₂.cons fits behind

theorem single (fits : m.Fits limit t) : Grounded limit [m] [t] := cons fits nil

theorem skip (grounded : Grounded limit ms ts) : Grounded limit ms (t :: ts) :=
  List.SublistForall₂.cons_right grounded

theorem skips (taken : List Token) (grounded : Grounded limit ms ts) : Grounded limit ms (taken ++ ts) := by
  induction taken with
  | nil => exact grounded
  | cons t taken ih => exact skip ih

theorem append (first : Grounded limit ms ts) (second : Grounded limit ms' ts') :
    Grounded limit (ms ++ ms') (ts ++ ts') := by
  obtain ⟨own, fits, inside⟩ := List.sublistForall₂_iff.mp first
  obtain ⟨own', fits', inside'⟩ := List.sublistForall₂_iff.mp second
  exact List.sublistForall₂_iff.mpr ⟨own ++ own', List.rel_append fits fits', inside.append inside'⟩

/-- Tokens behind the last one that is spoken of. -/
theorem extend (grounded : Grounded limit ms ts) (more : List Token) : Grounded limit ms (ts ++ more) := by
  have both : Grounded limit (ms ++ []) (ts ++ more) := append grounded nil
  rwa [List.append_nil] at both

end Grounded

/-! ## Tokens of blocks -/

/-- Tokens for three classes of things, each class in its own order.  No token serves twice. -/
def Apart (P Q R : List Token → Prop) (ts : List Token) : Prop :=
  ∃ ps qs rs, (ps ++ qs ++ rs).Subperm ts ∧ (ps.Sublist ts ∧ P ps) ∧ (qs.Sublist ts ∧ Q qs) ∧
    rs.Sublist ts ∧ R rs

/-- New tokens for each class come behind those that it has. -/
theorem Apart.grow {P Q R P' Q' R' : List Token → Prop} {ts more : List Token}
    (ps qs rs : List Token) (apart : Apart P Q R ts) (inside : (ps ++ qs ++ rs).Sublist more)
    (onward : ∀ own, P own → P' (own ++ ps)) (onward' : ∀ own, Q own → Q' (own ++ qs))
    (onward'' : ∀ own, R own → R' (own ++ rs)) : Apart P' Q' R' (ts ++ more) := by
  obtain ⟨ps', qs', rs', all, ⟨ordered, holds⟩, ⟨ordered', holds'⟩, ordered'', holds''⟩ := apart
  have inside' : ps.Sublist more := List.Sublist.trans (by simp) inside
  have inside'' : qs.Sublist more := List.Sublist.trans (by simp) inside
  have inside''' : rs.Sublist more := List.Sublist.trans (by simp) inside
  -- the new tokens are put in between, so the classes keep their order but not the whole list
  have mixed : (ps' ++ ps ++ (qs' ++ qs) ++ (rs' ++ rs)).Perm
      (ps' ++ qs' ++ rs' ++ (ps ++ qs ++ rs)) := by
    rw [List.perm_iff_count]
    intro t
    simp only [List.count_append]
    omega
  exact ⟨_, _, _, mixed.subperm.trans (all.append inside.subperm),
    ⟨ordered.append inside', onward _ holds⟩, ⟨ordered'.append inside'', onward' _ holds'⟩,
    ordered''.append inside''', onward'' _ holds''⟩

mutual

/-- Tokens for a block: its declarations come before its body. -/
def Block.Grounded (limit : Int) : Block → List Token → Prop
  | ⟨cs, vs, ps, s, _⟩, ts => ∃ ds bs, ts = ds ++ bs ∧
      Apart (List.Forall₂ (Mention.Fits limit) (cs.flatMap ConstDecl.mentions))
        (List.Forall₂ (Mention.Fits limit) (vs.flatMap VarDecl.mentions))
        (Procedure.GroundedList limit ps) ds ∧
      PlZero.Grounded limit s.mentions bs

/-- Tokens for a procedure: its keyword, its name and its block. -/
def Procedure.Grounded (limit : Int) : Procedure → List Token → Prop
  | ⟨name, b, l⟩, ts => ∃ t t' bs, ts = t :: t' :: bs ∧
      Mention.Fits limit ⟨.word (.keyword "procedure"), some (.procedure, l)⟩ t ∧
      Mention.Fits limit ⟨.word (.identifier name), none⟩ t' ∧ Block.Grounded limit b bs

/-- Tokens for procedures in a row, one behind the other. -/
def Procedure.GroundedList (limit : Int) : List Procedure → List Token → Prop
  | [], ts => ts = []
  | p :: ps, ts => ∃ own own', ts = own ++ own' ∧ Procedure.Grounded limit p own ∧
      Procedure.GroundedList limit ps own'

end

theorem Procedure.GroundedList.append {limit : Int} {ps ps' : List Procedure} {ts ts' : List Token}
    (first : GroundedList limit ps ts) (second : GroundedList limit ps' ts') :
    GroundedList limit (ps ++ ps') (ts ++ ts') := by
  induction ps generalizing ts with
  | nil =>
    obtain rfl : ts = [] := by simpa only [GroundedList] using first
    exact second
  | cons p ps ih =>
    simp only [List.cons_append, GroundedList] at first ⊢
    obtain ⟨own, own', rfl, grounded, behind⟩ := first
    exact ⟨own, own' ++ ts', by rw [List.append_assoc], grounded, ih behind⟩

theorem Procedure.groundedList_single {limit : Int} {p : Procedure} {ts : List Token}
    (grounded : p.Grounded limit ts) : GroundedList limit [p] ts := by
  simp only [GroundedList]
  exact ⟨ts, [], by simp, grounded, rfl⟩

end PlZero

import PlZero.Proofs.Anchoring.Mentions
import PlZero.Proofs.Lexing.Vocabulary
import PlZero.Proofs.Printing.Forms

/-! # The S-expression of a tree

Every tree has an S-expression, which its outline shows (`Program.outline_shows`), provided that its names
are names and its integers numbers: then they are written as words of their own.
-/

namespace PlZero

/-! ## Forms of trees -/

def Expr.form : Expr → Form
  | .integer v _ => .atom v.text
  | .name id _ => .atom id
  | .binary op a b _ => .list [.atom op.symbol, a.form, b.form]
  | .signed s e _ => .list [.atom s.symbol, e.form]
  | .group e _ => .list [.atom "group", e.form]
  | .missing _ => .list [.atom "empty"]

def Condition.form : Condition → Form
  | .odd e _ => .list [.atom "odd", e.form]
  | .relation op a b _ => .list [.atom op.symbol, a.form, b.form]
  | .missing _ => .list [.atom "empty"]

mutual

def Stmt.form : Stmt → Form
  | .assign target e _ => .list [.atom "assign", .atom target, e.form]
  | .call p _ => .list [.atom "call", .atom p]
  | .compound ss _ => .list (.atom "begin" :: Stmt.forms ss)
  | .branch c y n _ => .list (.atom "if" :: c.form :: y.form :: Stmt.elseForms n)
  | .loop c s _ => .list [.atom "while", c.form, s.form]
  | .read target _ => .list [.atom "read", .atom target]
  | .write source _ => .list [.atom "write", .atom source]
  | .empty _ => .list [.atom "empty"]

def Stmt.forms : List Stmt → List Form
  | [] => []
  | s :: ss => s.form :: Stmt.forms ss

def Stmt.elseForms : Option Stmt → List Form
  | none => []
  | some s => [.list [.atom "else", s.form]]

end

def ConstDecl.form (d : ConstDecl) : Form := .list [.atom d.name, .atom d.value.text]

def VarDecl.form (d : VarDecl) : Form := .atom d.name

/-- The list of what a section declares, which is there only if there is anything. -/
def sectionForms (word : String) (items : List Form) : List Form :=
  if items.isEmpty then [] else [.list (.atom word :: items)]

mutual

def Block.form : Block → Form
  | ⟨cs, vs, ps, s, _⟩ =>
    .list (.atom "block" :: (sectionForms "const" (cs.map ConstDecl.form) ++
      sectionForms "var" (vs.map VarDecl.form) ++ Procedure.forms ps ++ [s.form]))

def Procedure.form : Procedure → Form
  | ⟨name, b, _⟩ => .list [.atom "procedure", .atom name, b.form]

def Procedure.forms : List Procedure → List Form
  | [] => []
  | p :: ps => p.form :: Procedure.forms ps

end

def Program.form (p : Program) : Form := .list [.atom "program", p.block.form]

/-! ## Legible trees -/

/-- Whether something can be told from what is written of it. -/
def Peg.Legible : Peg → Prop
  | .word w => w.1 = .identifier → Vocabulary .identifier w.2.toList
  | .integer v => ∃ n, v = .number n

/-- All names and integers of a tree can be told from what is written of them. -/
def Legible (ms : List Mention) : Prop := ∀ m ∈ ms, m.peg.Legible

@[simp] theorem legible_nil : Legible [] := by simp [Legible]

@[simp] theorem legible_cons {m : Mention} {ms : List Mention} :
    Legible (m :: ms) ↔ m.peg.Legible ∧ Legible ms := List.forall_mem_cons

@[simp] theorem legible_append {ms ms' : List Mention} :
    Legible (ms ++ ms') ↔ Legible ms ∧ Legible ms' := List.forall_mem_append

theorem isAtom_of_chars {s : String} (nonempty : s.toList ≠ [])
    (plain : ∀ c ∈ s.toList, Text.isLetter c = true ∨ Text.isDigit c = true ∨ c = '-') : IsAtom s := by
  refine ⟨nonempty, fun c member => ?_⟩
  have other : ∀ d : Char, Text.isLetter d = false → Text.isDigit d = false → d ≠ '-' → c ≠ d := by
    rintro d noLetter noDigit noMinus rfl
    simpa [noLetter, noDigit, noMinus] using plain c member
  have blank := other ' ' (Text.isLetter_eq_false_of_lt (by decide)) (by decide) (by decide)
  have feed := other '\n' (Text.isLetter_eq_false_of_lt (by decide)) (by decide) (by decide)
  exact ⟨other ')' (Text.isLetter_eq_false_of_lt (by decide)) (by decide) (by decide),
    other '(' (Text.isLetter_eq_false_of_lt (by decide)) (by decide) (by decide),
    by simp [Reader.isGap, blank, feed]⟩

theorem isAtom_of_vocabulary {s : String} (name : Vocabulary .identifier s.toList) : IsAtom s := by
  cases chars : s.toList with
  | nil =>
    rw [chars] at name
    cases name
  | cons c cs =>
    rw [chars] at name
    cases name with
    | identifier letter letters _ =>
      apply isAtom_of_chars (by simp [chars])
      rw [chars]
      intro d member
      cases member with
      | head => exact .inl letter
      | tail _ behind =>
        cases letters d behind with
        | inl letter => exact .inl letter
        | inr digit => exact .inr (.inl digit)

theorem text_negSucc (m : Nat) :
    (Quantity.number (.negSucc m)).text.toList = '-' :: (m + 1).repr.toList := by
  show ("-" ++ (m + 1).repr).toList = _
  simp

/-- A number is written with digits, and maybe a minus sign. -/
theorem mem_text_number {n : Int} {c : Char} (member : c ∈ (Quantity.number n).text.toList) :
    Text.isDigit c = true ∨ c = '-' := by
  cases n with
  | ofNat m => exact .inl (Text.isDigits_repr m c member)
  | negSucc m =>
    rw [text_negSucc] at member
    cases member with
    | head => exact .inr rfl
    | tail _ behind => exact .inl (Text.isDigits_repr (m + 1) c behind)

theorem isAtom_number (n : Int) : IsAtom (Quantity.number n).text := by
  apply isAtom_of_chars
  · cases n with
    | ofNat m => exact Text.toList_repr_ne_nil m
    | negSucc m => simp [text_negSucc]
  · intro c member
    exact .inr (mem_text_number member)

theorem shows_name {id : String} (legible : Peg.Legible (.word (.identifier id))) : Shows id [.atom id] :=
  .atom (isAtom_of_vocabulary (legible rfl))

theorem shows_value {v : Quantity} (legible : Peg.Legible (.integer v)) : Shows v.text [.atom v.text] := by
  obtain ⟨n, rfl⟩ := legible
  exact .atom (isAtom_number n)

theorem shows_missing : Shows "(empty)" [.list [.atom "empty"]] := by
  have parts : "(empty)" = "(" ++ "empty" ++ ")" := rfl
  have word : IsAtom "empty" := by decide
  rw [parts]
  exact (Opens.head (.atom word)).close

/-! ## Expressions and conditions -/

theorem Expr.inline_shows (e : Expr) (legible : Legible e.mentions) :
    ∃ s, e.toNode.inline = .ok s ∧ Shows s [e.form] := by
  induction e with
  | integer v l =>
    simp only [mentions, legible_cons] at legible
    exact ⟨_, rfl, shows_value legible.1⟩
  | name id l =>
    simp only [mentions, legible_cons] at legible
    exact ⟨_, rfl, shows_name legible.1⟩
  | binary op a b l iha ihb =>
    simp only [mentions, legible_append, legible_cons] at legible
    obtain ⟨s, inline, shows⟩ := iha legible.1
    obtain ⟨s', inline', shows'⟩ := ihb legible.2.2
    have symbol : IsAtom op.symbol := by cases op <;> decide
    refine ⟨"(" ++ op.symbol ++ " " ++ s ++ " " ++ s' ++ ")", ?_, ?_⟩
    · rw [toNode, Node.inline, inline, inline']
      rfl
    · exact ((Opens.head (.atom symbol)).space shows |>.space shows').close
  | signed sign e l ih =>
    simp only [mentions, legible_cons] at legible
    obtain ⟨s, inline, shows⟩ := ih legible.2
    have symbol : IsAtom sign.symbol := by cases sign <;> decide
    refine ⟨"(" ++ sign.symbol ++ " " ++ s ++ ")", ?_, ?_⟩
    · rw [toNode, Node.inline, inline]
      rfl
    · exact ((Opens.head (.atom symbol)).space shows).close
  | group e l ih =>
    simp only [mentions, legible_cons] at legible
    obtain ⟨s, inline, shows⟩ := ih legible.2
    refine ⟨"(group " ++ s ++ ")", ?_, ?_⟩
    · rw [toNode, Node.inline, inline]
      rfl
    · exact (Opens.literal "group" rfl (by decide) shows).close
  | missing l => exact ⟨_, rfl, shows_missing⟩

theorem Condition.inline_shows (c : Condition) (legible : Legible c.mentions) :
    ∃ s, c.toNode.inline = .ok s ∧ Shows s [c.form] := by
  cases c with
  | odd e l =>
    simp only [mentions, legible_cons] at legible
    obtain ⟨s, inline, shows⟩ := e.inline_shows legible.2
    refine ⟨"(odd " ++ s ++ ")", ?_, ?_⟩
    · rw [toNode, Node.inline, inline]
      rfl
    · exact (Opens.literal "odd" rfl (by decide) shows).close
  | relation op a b l =>
    simp only [mentions, legible_append, legible_cons] at legible
    obtain ⟨s, inline, shows⟩ := a.inline_shows legible.1
    obtain ⟨s', inline', shows'⟩ := b.inline_shows legible.2.2
    have symbol : IsAtom op.symbol := by cases op <;> decide
    refine ⟨"(" ++ op.symbol ++ " " ++ s ++ " " ++ s' ++ ")", ?_, ?_⟩
    · rw [toNode, Node.inline, inline, inline']
      rfl
    · exact ((Opens.head (.atom symbol)).space shows |>.space shows').close
  | missing l => exact ⟨_, rfl, shows_missing⟩

/-! ## Declarations -/

theorem constLine_shows {cs : List ConstDecl} (legible : Legible (cs.flatMap ConstDecl.mentions)) :
    ShowsLines (Outline.constLine (cs.map fun d => (d.name, d.value))).flatten
      (sectionForms "const" (cs.map ConstDecl.form)) := by
  cases cs with
  | nil => exact .nil
  | cons c cs =>
    have item : ∀ d ∈ c :: cs, Shows ("(" ++ d.name ++ " " ++ d.value.text ++ ")") [d.form] := by
      intro d member
      have known : Legible d.mentions := fun m mentioned =>
        legible m (List.mem_flatMap.mpr ⟨d, member, mentioned⟩)
      simp only [ConstDecl.mentions, legible_cons] at known
      exact ((Opens.head (shows_name known.1)).space (shows_value known.2.1)).close
    have word : IsAtom "const" := by decide
    have line := ((Opens.head (.atom word)).spaces item (by simp)).close
    have text : (Outline.constLine ((c :: cs).map fun d => (d.name, d.value))).flatten =
        ["(" ++ "const" ++ " " ++ " ".intercalate (((c :: cs).map fun d => (d.name, d.value)).map
          fun d => "(" ++ d.1 ++ " " ++ Quantity.text d.2 ++ ")") ++ ")"] := rfl
    rw [text, List.map_map]
    exact .single line

theorem varLine_shows {vs : List VarDecl} (legible : Legible (vs.flatMap VarDecl.mentions)) :
    ShowsLines (Outline.varLine (vs.map VarDecl.name)).flatten
      (sectionForms "var" (vs.map VarDecl.form)) := by
  cases vs with
  | nil => exact .nil
  | cons v vs =>
    have item : ∀ d ∈ v :: vs, Shows (VarDecl.name d) [d.form] := by
      intro d member
      have known : Legible d.mentions := fun m mentioned =>
        legible m (List.mem_flatMap.mpr ⟨d, member, mentioned⟩)
      simp only [VarDecl.mentions, legible_cons] at known
      exact shows_name known.1
    have word : IsAtom "var" := by decide
    exact .single ((Opens.head (.atom word)).spaces item (by simp)).close

/-! ## Statements -/

theorem Stmt.toNode_ne_absent (s : Stmt) : s.toNode ≠ .absent := by
  cases s <;> simp [Stmt.toNode]

variable {indent : String}

mutual

theorem Stmt.lines_show (blank : Reader.Blank indent) : ∀ s : Stmt, Legible s.mentions →
    ∃ ls, s.toNode.lines indent = .ok ls ∧ ShowsLines ls [s.form]
  | .assign target e l, legible => by
    simp only [Stmt.mentions, legible_cons] at legible
    obtain ⟨s, inline, shows⟩ := e.inline_shows legible.2
    refine ⟨["(assign " ++ target ++ " " ++ s ++ ")"], ?_, .single ?_⟩
    · rw [Stmt.toNode, Node.lines, inline]
      rfl
    · exact ((Opens.literal "assign" rfl (by decide) (shows_name legible.1)).space shows).close
  | .call p l, legible => by
    simp only [Stmt.mentions, legible_cons] at legible
    exact ⟨_, rfl, .single (Opens.literal "call" rfl (by decide) (shows_name legible.2.1)).close⟩
  | .read target l, legible => by
    simp only [Stmt.mentions, legible_cons] at legible
    exact ⟨_, rfl, .single (Opens.literal "read" rfl (by decide) (shows_name legible.2.1)).close⟩
  | .write source l, legible => by
    simp only [Stmt.mentions, legible_cons] at legible
    exact ⟨_, rfl, .single (Opens.literal "write" rfl (by decide) (shows_name legible.2.1)).close⟩
  | .compound ss l, legible => by
    simp only [Stmt.mentions, legible_cons] at legible
    obtain ⟨parts, lines, shows⟩ := Stmt.linesOfAll_show blank ss legible.2
    refine ⟨Outline.wrap indent "begin" parts, ?_, ?_⟩
    · rw [Stmt.toNode, Node.lines, lines]
      rfl
    · exact .wrapWord blank (by decide) shows
  | .branch c y none l, legible => by
    simp only [Stmt.mentions, legible_cons, legible_append] at legible
    obtain ⟨s, inline, shows⟩ := c.inline_shows legible.2.1.1
    obtain ⟨yes, lines, shows'⟩ := Stmt.lines_show blank y legible.2.1.2
    refine ⟨Outline.wrap indent "if" [[s], yes], ?_, ?_⟩
    · rw [Stmt.toNode, Stmt.toNodeOption, Node.lines, inline, lines]
      rfl
    · exact .wrapWord blank (by decide) ((ShowsLines.single shows).append (shows'.append .nil))
  | .branch c y (some n) l, legible => by
    simp only [Stmt.mentions, legible_cons, legible_append] at legible
    obtain ⟨s, inline, shows⟩ := c.inline_shows legible.2.1.1
    obtain ⟨yes, lines, shows'⟩ := Stmt.lines_show blank y legible.2.1.2
    obtain ⟨no, lines', shows''⟩ := Stmt.lines_show blank n legible.2.2
    refine ⟨Outline.wrap indent "if" [[s], yes, Outline.wrap indent "else" [no]], ?_, ?_⟩
    · rw [Stmt.toNode, Stmt.toNodeOption, Node.lines, inline, lines, lines']
      · rfl
      -- only nothing is printed as no branch, and no statement is nothing
      · exact n.toNode_ne_absent
    · have other : ShowsLines (Outline.wrap indent "else" [no]) [.list [.atom "else", n.form]] :=
        .wrapWord blank (by decide) (shows''.append .nil)
      exact .wrapWord blank (by decide)
        ((ShowsLines.single shows).append (shows'.append (other.append .nil)))
  | .loop c s l, legible => by
    simp only [Stmt.mentions, legible_cons, legible_append] at legible
    obtain ⟨t, inline, shows⟩ := c.inline_shows legible.2.1
    obtain ⟨body, lines, shows'⟩ := Stmt.lines_show blank s legible.2.2
    refine ⟨Outline.wrap indent "while" [[t], body], ?_, ?_⟩
    · rw [Stmt.toNode, Node.lines, inline, lines]
      rfl
    · exact .wrapWord blank (by decide) ((ShowsLines.single shows).append (shows'.append .nil))
  | .empty l, _ => ⟨_, rfl, .single shows_missing⟩

theorem Stmt.linesOfAll_show (blank : Reader.Blank indent) :
    ∀ ss : List Stmt, Legible (Stmt.mentionsList ss) →
    ∃ parts, Node.linesOfAll indent (Stmt.toNodes ss) = .ok parts ∧
      ShowsLines parts.flatten (Stmt.forms ss)
  | [], _ => ⟨[], rfl, .nil⟩
  | s :: ss, legible => by
    simp only [Stmt.mentionsList, legible_append] at legible
    obtain ⟨ls, lines, shows⟩ := Stmt.lines_show blank s legible.1
    obtain ⟨parts, rest, shows'⟩ := Stmt.linesOfAll_show blank ss legible.2
    refine ⟨ls :: parts, ?_, shows.append shows'⟩
    rw [Stmt.toNodes, Node.linesOfAll, lines, rest]
    rfl

end

/-! ## Blocks -/

mutual

theorem Block.lines_show (blank : Reader.Blank indent) : ∀ b : Block, Legible b.mentions →
    ∃ ls, b.toNode.lines indent = .ok ls ∧ ShowsLines ls [b.form]
  | ⟨cs, vs, ps, s, l⟩, legible => by
    simp only [Block.mentions, legible_append] at legible
    obtain ⟨⟨⟨consts, vars⟩, procedures⟩, statement⟩ := legible
    obtain ⟨parts, lines, shows⟩ := Procedure.linesOfAll_show blank ps procedures
    obtain ⟨body, lines', shows'⟩ := s.lines_show blank statement
    refine ⟨Outline.wrap indent "block" (Outline.constLine (cs.map fun d => (d.name, d.value)) ++
      Outline.varLine (vs.map VarDecl.name) ++ parts ++ [body]), ?_, ?_⟩
    · rw [Block.toNode, Node.lines, lines, lines']
      rfl
    · apply ShowsLines.wrapWord blank (by decide)
      simp only [List.flatten_append, List.flatten_singleton]
      exact (((constLine_shows consts).append (varLine_shows vars)).append shows).append shows'

theorem Procedure.lines_show (blank : Reader.Blank indent) : ∀ p : Procedure, Legible p.mentions →
    ∃ ls, p.toNode.lines indent = .ok ls ∧ ShowsLines ls [p.form]
  | ⟨name, b, l⟩, legible => by
    simp only [Procedure.mentions, legible_cons] at legible
    obtain ⟨ls, lines, shows⟩ := Block.lines_show blank b legible.2.2
    refine ⟨Outline.wrap indent ("procedure " ++ name) [ls], ?_, ?_⟩
    · rw [Procedure.toNode, Node.lines, lines]
      rfl
    · have word : IsAtom "procedure" := by decide
      have parts : "procedure " = "procedure" ++ " " := rfl
      have head : Shows ("procedure " ++ name) ([.atom "procedure"] ++ [.atom name]) := by
        rw [parts]
        exact Shows.space (.atom word) (shows_name legible.2.1)
      exact .wrap blank (Opens.head head) (shows.append .nil)

theorem Procedure.linesOfAll_show (blank : Reader.Blank indent) :
    ∀ ps : List Procedure, Legible (Procedure.mentionsList ps) →
    ∃ parts, Node.linesOfAll indent (Procedure.toNodes ps) = .ok parts ∧
      ShowsLines parts.flatten (Procedure.forms ps)
  | [], _ => ⟨[], rfl, .nil⟩
  | p :: ps, legible => by
    simp only [Procedure.mentionsList, legible_append] at legible
    obtain ⟨ls, lines, shows⟩ := Procedure.lines_show blank p legible.1
    obtain ⟨parts, rest, shows'⟩ := Procedure.linesOfAll_show blank ps legible.2
    refine ⟨ls :: parts, ?_, shows.append shows'⟩
    rw [Procedure.toNodes, Node.linesOfAll, lines, rest]
    rfl

end

/-- The outline of a legible program shows its S-expression. -/
theorem Program.outline_shows (blank : Reader.Blank indent) {p : Program} (legible : Legible p.mentions) :
    ∃ text, p.toNode.outline indent = .ok text ∧ Shows text [p.form] := by
  obtain ⟨ls, lines, shows⟩ := p.block.lines_show blank legible
  have whole : ShowsLines (Outline.wrap indent "program" [ls]) [p.form] :=
    .wrapWord blank (by decide) (shows.append .nil)
  refine ⟨_, ?_, whole.joined⟩
  rw [Program.toNode, Node.outline, Node.lines, lines]
  rfl

end PlZero

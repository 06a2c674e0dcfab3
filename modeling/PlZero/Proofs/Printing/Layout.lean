import PlZero.Proofs.Printing.Faithful

/-! # How outlines are laid out

The lines of an outline can be read off its parentheses.  Those that are open where a line starts say how
far it is indented, every line opens another one, and the last character of the outline closes the first.

Only parentheses count for this, so texts are compared by their `marks`, which indentation and line breaks
do not change.

* `Inline s` says that a piece of a line closes what it opens, and `Opened s` that it lacks just one closing
  parenthesis at its end;
* `Laid indent ls` says of lines that they are complete forms, one after the other, each line indented by
  what is open before it.  The parts of a form are laid out by themselves and then moved as a whole, which
  is `Laid.wrap`.
-/

namespace PlZero

namespace Outline

/-! ## Parentheses -/

/-- How many parentheses a text opens more than it closes. -/
def height (cs : List Char) : Int := cs.count '(' - cs.count ')'

/-- The parentheses of a text. -/
def marks (cs : List Char) : List Char := cs.filter fun c => c = '(' || c = ')'

/-- No text without parentheses and line breaks gets in the way of the layout. -/
def Plain (s : String) : Prop := ∀ c ∈ s.toList, c ≠ '(' ∧ c ≠ ')' ∧ c ≠ '\n'

instance (s : String) : Decidable (Plain s) :=
  List.decidableBAll (fun c => c ≠ '(' ∧ c ≠ ')' ∧ c ≠ '\n') s.toList

/-- No beginning of a text closes more than it opens, and in the end everything is closed. -/
structure Balanced (cs : List Char) : Prop where
  closed : height cs = 0
  rises : ∀ cs', cs' <+: cs → 0 ≤ height cs'

section Heights

variable {cs cs' : List Char} {s s' indent : String}

@[simp] theorem height_append (cs cs' : List Char) : height (cs ++ cs') = height cs + height cs' := by
  simp only [height, List.count_append]
  omega

theorem height_marks (cs : List Char) : height (marks cs) = height cs := by
  rw [height, marks, List.count_filter rfl, List.count_filter rfl, height]

@[simp] theorem marks_append (cs cs' : List Char) : marks (cs ++ cs') = marks cs ++ marks cs' :=
  List.filter_append cs cs'

theorem Plain.marks (plain : Plain s) : marks s.toList = [] := by
  rw [Outline.marks, List.filter_eq_nil_iff]
  intro c member
  obtain ⟨noOpen, noClose, -⟩ := plain c member
  simp [noOpen, noClose]

theorem balanced_nil : Balanced [] := by
  refine ⟨rfl, fun cs' beginning => ?_⟩
  rw [List.prefix_nil.mp beginning]
  decide

theorem Balanced.append (first : Balanced cs) (second : Balanced cs') : Balanced (cs ++ cs') := by
  refine ⟨by rw [height_append, first.closed, second.closed]; rfl, fun ds beginning => ?_⟩
  -- a beginning of the whole ends in the first part, or has all of it
  obtain ⟨es, whole⟩ := beginning
  rcases List.append_eq_append_iff.mp whole with ⟨fs, front, -⟩ | ⟨fs, rfl, back⟩
  · exact first.rises ds ⟨fs, front.symm⟩
  · have rest := second.rises fs ⟨es, back.symm⟩
    rw [height_append, first.closed]
    omega

/-- Behind an opening parenthesis, a balanced text stays above the ground until the closing one. -/
theorem Balanced.height_pos (balanced : Balanced cs) (beginning : cs' <+: '(' :: cs) (nonempty : cs' ≠ []) :
    0 < height cs' := by
  cases cs' with
  | nil => exact absurd rfl nonempty
  | cons c cs' =>
    obtain ⟨rfl, inside⟩ := List.cons_prefix_cons.mp beginning
    have rises := balanced.rises cs' inside
    have first : height ['('] = 1 := by decide
    rw [← List.singleton_append, height_append, first]
    omega

theorem Balanced.parens (balanced : Balanced cs) : Balanced ('(' :: cs ++ [')']) := by
  have opening : height ['('] = 1 := by decide
  have closing : height [')'] = -1 := by decide
  have whole : height ('(' :: cs ++ [')']) = 0 := by
    rw [← List.singleton_append, height_append, height_append, balanced.closed, opening, closing]
    rfl
  refine ⟨whole, fun cs' beginning => ?_⟩
  rcases List.prefix_concat_iff.mp beginning with rfl | inside
  · exact Int.le_of_eq whole.symm
  · by_cases empty : cs' = []
    · rw [empty]
      decide
    · exact Int.le_of_lt (balanced.height_pos inside empty)

end Heights

/-! ## Pieces of a line -/

/-- The text closes what it opens, and stays on its line. -/
structure Inline (s : String) : Prop where
  balanced : Balanced (marks s.toList)
  unbroken : '\n' ∉ s.toList

/-- The text opens a parenthesis at its start that is not closed, and closes what else it opens. -/
def Opened (s : String) : Prop := ∃ inner, s = "(" ++ inner ∧ Inline inner

section Pieces

variable {s s' : String}

theorem Inline.plain (plain : Plain s) : Inline s := by
  refine ⟨plain.marks ▸ balanced_nil, fun member => ?_⟩
  exact (plain _ member).2.2 rfl

theorem Inline.append (first : Inline s) (second : Inline s') : Inline (s ++ s') := by
  constructor
  · rw [String.toList_append, marks_append]
    exact first.balanced.append second.balanced
  · rw [String.toList_append, List.mem_append]
    exact not_or.mpr ⟨first.unbroken, second.unbroken⟩

theorem Inline.space (first : Inline s) (second : Inline s') : Inline (s ++ " " ++ s') :=
  (first.append (.plain (by decide))).append second

theorem Opened.head (first : Inline s) : Opened ("(" ++ s) := ⟨s, rfl, first⟩

theorem Opened.literal (w : String) {head : String} (whole : head = "(" ++ w) (plain : Plain w)
    (second : Inline s) : Opened (head ++ s) := by
  subst whole
  exact ⟨w ++ s, String.append_assoc, (Inline.plain plain).append second⟩

theorem Opened.space (opened : Opened s) (second : Inline s') : Opened (s ++ " " ++ s') := by
  obtain ⟨inner, rfl, inline⟩ := opened
  exact ⟨inner ++ " " ++ s', by simp [String.append_assoc], inline.space second⟩

theorem Opened.close (opened : Opened s) : Inline (s ++ ")") := by
  obtain ⟨inner, rfl, inline⟩ := opened
  constructor
  · have whole : marks ("(" ++ inner ++ ")").toList = '(' :: marks inner.toList ++ [')'] := by
      simp [marks]
    rw [whole]
    exact inline.balanced.parens
  · simp [inline.unbroken]

theorem Inline.spaces {α : Type} {text : α → String} {xs : List α} (each : ∀ x ∈ xs, Inline (text x)) :
    Inline (" ".intercalate (xs.map text)) := by
  induction xs with
  | nil => exact .plain (s := "") (by decide)
  | cons x xs ih =>
    have behind := ih fun y member => each y (List.mem_cons_of_mem x member)
    cases xs with
    | nil => simpa using each x List.mem_cons_self
    | cons y ys =>
      rw [List.map_cons, List.map_cons, String.intercalate_cons_cons, ← List.map_cons]
      exact (each x List.mem_cons_self).space behind

end Pieces

/-! ## Lines -/

/-- All characters of some lines. -/
def chars (ls : List String) : List Char := ls.flatMap String.toList

/-- With `k` parentheses open before the first of these lines, each line is indented once for every
parenthesis that is open before it, and then opens one. -/
def Aligned (indent : String) : Int → List String → Prop
  | _, [] => True
  | k, l :: ls => (∃ (n : Nat) (body : List Char), k = n ∧
      l.toList = (List.replicate n indent.toList).flatten ++ '(' :: body) ∧
    Aligned indent (k + height l.toList) ls

/-- The lines are complete forms, laid out one after the other. -/
structure Laid (indent : String) (ls : List String) : Prop where
  balanced : Balanced (marks (chars ls))
  aligned : Aligned indent 0 ls
  unbroken : ∀ l ∈ ls, '\n' ∉ l.toList

section Lines

variable {indent head s : String} {ls ls' : List String} {k : Int}

@[simp] theorem chars_cons (l : String) (ls : List String) : chars (l :: ls) = l.toList ++ chars ls :=
  List.flatMap_cons

@[simp] theorem chars_append (ls ls' : List String) : chars (ls ++ ls') = chars ls ++ chars ls' :=
  List.flatMap_append

theorem aligned_append :
    Aligned indent k (ls ++ ls') ↔ Aligned indent k ls ∧ Aligned indent (k + height (chars ls)) ls' := by
  induction ls generalizing k with
  | nil => simp [Aligned, chars, height]
  | cons l ls ih =>
    rw [List.cons_append, Aligned, Aligned, ih, chars_cons, height_append, Int.add_assoc, and_assoc]

/-- Lines that are moved by one indentation fit behind one more open parenthesis. -/
theorem Aligned.indented (plain : Plain indent) (aligned : Aligned indent k ls) :
    Aligned indent (k + 1) (ls.map (indent ++ ·)) := by
  induction ls generalizing k with
  | nil => trivial
  | cons l ls ih =>
    obtain ⟨⟨n, body, rfl, text⟩, behind⟩ := aligned
    have level : height indent.toList = 0 := by
      rw [← height_marks, plain.marks]
      rfl
    refine ⟨⟨n + 1, body, by simp, ?_⟩, ?_⟩
    · rw [String.toList_append, text, List.replicate_succ, List.flatten_cons, List.append_assoc]
    · rw [String.toList_append, height_append, level, Int.zero_add, Int.add_right_comm]
      exact ih behind

/-- A parenthesis at the end of the last line is behind everything that is aligned. -/
theorem Aligned.closeLast (aligned : Aligned indent k ls) : Aligned indent k (closeLast ls) := by
  induction ls generalizing k with
  | nil => trivial
  | cons l ls ih =>
    obtain ⟨⟨n, body, level, text⟩, behind⟩ := aligned
    cases ls with
    | nil =>
      refine ⟨⟨n, body ++ [')'], level, ?_⟩, trivial⟩
      rw [String.toList_append, text, List.append_assoc, List.cons_append]
      rfl
    | cons l' ls => exact ⟨⟨n, body, level, text⟩, ih behind⟩

theorem chars_closeLast (l : String) (ls : List String) :
    chars (closeLast (l :: ls)) = chars (l :: ls) ++ [')'] := by
  induction ls generalizing l with
  | nil => simp [closeLast, chars]
  | cons l' ls ih =>
    show chars (l :: closeLast (l' :: ls)) = _
    rw [chars_cons, ih, chars_cons l, List.append_assoc]

theorem unbroken_closeLast (unbroken : ∀ l ∈ ls, '\n' ∉ l.toList) :
    ∀ l ∈ closeLast ls, '\n' ∉ l.toList := by
  induction ls with
  | nil => exact unbroken
  | cons l ls ih =>
    obtain ⟨first, behind⟩ := List.forall_mem_cons.mp unbroken
    cases ls with
    | nil => simpa [closeLast] using first
    | cons l' ls => exact List.forall_mem_cons.mpr ⟨first, ih behind⟩

theorem marks_chars_indented (plain : Plain indent) (ls : List String) :
    marks (chars (ls.map (indent ++ ·))) = marks (chars ls) := by
  induction ls with
  | nil => rfl
  | cons l ls ih => simp [plain.marks, ih]

theorem Laid.nil : Laid indent [] := ⟨balanced_nil, trivial, by simp⟩

theorem Laid.append (first : Laid indent ls) (second : Laid indent ls') : Laid indent (ls ++ ls') := by
  refine ⟨?_, ?_, List.forall_mem_append.mpr ⟨first.unbroken, second.unbroken⟩⟩
  · rw [chars_append, marks_append]
    exact first.balanced.append second.balanced
  · -- the first lines close all that they open, so the second ones start from nothing again
    have closed : height (chars ls) = 0 := by
      rw [← height_marks, first.balanced.closed]
    rw [aligned_append, closed]
    exact ⟨first.aligned, second.aligned⟩

theorem Laid.line (opened : Opened s) : Laid indent [s ++ ")"] := by
  have inline := opened.close
  obtain ⟨inner, rfl, -⟩ := opened
  refine ⟨?_, ⟨⟨0, (inner ++ ")").toList, rfl, ?_⟩, trivial⟩, ?_⟩
  · simpa [chars] using inline.balanced
  · simp
  · simpa using inline.unbroken

/-- A form is laid out if its parts are. -/
theorem Laid.wrap {parts : List (List String)} (plain : Plain indent) (plainHead : Plain head)
    (laid : Laid indent parts.flatten) : Laid indent (wrap indent head parts) := by
  have first : marks ("(" ++ head).toList = ['('] := by
    rw [String.toList_append, marks_append, plainHead.marks]
    rfl
  refine ⟨?_, ?_, unbroken_closeLast ?_⟩
  · rw [Outline.wrap, chars_closeLast, chars_cons, marks_append, marks_append, first,
      marks_chars_indented plain]
    exact laid.balanced.parens
  · refine Aligned.closeLast ⟨⟨0, head.toList, rfl, by simp⟩, ?_⟩
    have opens : height ("(" ++ head).toList = 1 := by
      rw [← height_marks, first]
      rfl
    rw [opens]
    exact laid.aligned.indented plain
  · refine List.forall_mem_cons.mpr ⟨?_, List.forall_mem_map.mpr fun l member => ?_⟩
    · simp [(Inline.plain plainHead).unbroken]
    · simp [(Inline.plain plain).unbroken, laid.unbroken l member]

/-! ## Texts -/

theorem marks_intercalate (ls : List String) : marks ("\n".intercalate ls).toList = marks (chars ls) := by
  induction ls with
  | nil => rfl
  | cons l ls ih =>
    cases ls with
    | nil => simp [chars]
    | cons l' ls =>
      have feed : marks "\n".toList = [] := rfl
      rw [String.intercalate_cons_cons, String.toList_append, String.toList_append, marks_append,
        marks_append, ih, feed, chars_cons l, marks_append, List.append_nil]

theorem closeLast_ne_nil (l : String) (ls : List String) : closeLast (l :: ls) ≠ [] := by
  cases ls <;> simp [closeLast]

theorem intercalate_closeLast (l : String) (ls : List String) :
    "\n".intercalate (closeLast (l :: ls)) = "\n".intercalate (l :: ls) ++ ")" := by
  induction ls generalizing l with
  | nil => simp [closeLast]
  | cons l' ls ih =>
    show "\n".intercalate (l :: closeLast (l' :: ls)) = _
    rw [String.intercalate_cons_of_ne_nil (closeLast_ne_nil l' ls), ih, String.intercalate_cons_cons,
      ← String.append_assoc]

/-- The text of a form stands between its first and its last character, which belong together. -/
theorem exists_intercalate_wrap {parts : List (List String)} (plain : Plain indent) (plainHead : Plain head)
    (laid : Laid indent parts.flatten) : ∃ inner,
      ("\n".intercalate (wrap indent head parts)).toList = '(' :: inner ++ [')'] ∧
      Balanced (marks inner) := by
  have apart : "\n".intercalate (("(" ++ head) :: parts.flatten.map (indent ++ ·)) =
      "(" ++ "\n".intercalate (head :: parts.flatten.map (indent ++ ·)) := by
    cases parts.flatten with
    | nil => simp
    | cons l ls => simp only [List.map_cons, String.intercalate_cons_cons, String.append_assoc]
  refine ⟨("\n".intercalate (head :: parts.flatten.map (indent ++ ·))).toList, ?_, ?_⟩
  · rw [wrap, intercalate_closeLast, apart, String.toList_append, String.toList_append]
    rfl
  · rw [marks_intercalate, chars_cons, marks_append, plainHead.marks, marks_chars_indented plain]
    exact laid.balanced

section Beginnings

variable {before after : List Char}

theorem Laid.height_text (laid : Laid indent ls) : height ("\n".intercalate ls).toList = 0 := by
  rw [← height_marks, marks_intercalate, laid.balanced.closed]

theorem Laid.height_nonneg (laid : Laid indent ls) (beginning : before <+: ("\n".intercalate ls).toList) :
    0 ≤ height before := by
  rw [← height_marks]
  apply laid.balanced.rises
  rw [← marks_intercalate]
  exact beginning.filter _

/-- Up to the last character of a form its first parenthesis is open. -/
theorem height_pos_of_wrap {parts : List (List String)} (plain : Plain indent) (plainHead : Plain head)
    (laid : Laid indent parts.flatten)
    (divided : ("\n".intercalate (wrap indent head parts)).toList = before ++ after)
    (started : before ≠ []) (unfinished : after ≠ []) : 0 < height before := by
  obtain ⟨inner, text, balanced⟩ := exists_intercalate_wrap plain plainHead laid
  rw [text] at divided
  rcases List.prefix_concat_iff.mp ⟨after, divided.symm⟩ with rfl | short
  · exact absurd (List.append_right_eq_self.mp divided.symm) unfinished
  · -- without the last character, the beginning ends inside the outermost parentheses
    obtain ⟨c, before, rfl⟩ := List.exists_cons_of_ne_nil started
    obtain ⟨rfl, inside⟩ := List.cons_prefix_cons.mp short
    have reach : marks ('(' :: before) <+: '(' :: marks inner :=
      List.cons_prefix_cons.mpr ⟨rfl, inside.filter _⟩
    rw [← height_marks]
    exact balanced.height_pos reach (List.cons_ne_nil '(' (marks before))

end Beginnings

/-- The lines of the text are the lines that were joined, and each of them is indented by the parentheses
that are open before it. -/
theorem Laid.exists_indentation (laid : Laid indent ls) (nonempty : ls ≠ []) {before after : List (List Char)}
    {line : List Char} (divided : ("\n".intercalate ls).toList.splitOn '\n' = before ++ line :: after) :
    ∃ (n : Nat) (body : List Char), height before.flatten = n ∧
      line = (List.replicate n indent.toList).flatten ++ '(' :: body := by
  have joined : ("\n".intercalate ls).toList.splitOn '\n' = ls.map String.toList := by
    rw [String.toList_intercalate]
    apply List.splitOn_intercalate
    · exact List.forall_mem_map.mpr laid.unbroken
    · simpa using nonempty
  rw [joined, List.map_eq_append_iff] at divided
  obtain ⟨front, back, rfl, rfl, behind⟩ := divided
  obtain ⟨l, rest, rfl, rfl, rfl⟩ := List.map_eq_cons_iff.mp behind
  have aligned := (aligned_append.mp laid.aligned).2
  rw [Int.zero_add] at aligned
  exact aligned.1

end Lines

end Outline

/-! ## Trees -/

open Outline

theorem IsAtom.plainText {s : String} (word : IsAtom s) : Plain s := by
  intro c member
  obtain ⟨noClose, noOpen, noGap⟩ := word.plain c member
  refine ⟨noOpen, noClose, ?_⟩
  rintro rfl
  exact absurd noGap (by decide)

theorem inline_name {id : String} (legible : Peg.Legible (.word (.identifier id))) : Inline id :=
  .plain (isAtom_of_vocabulary (legible rfl)).plainText

theorem inline_value {v : Quantity} (legible : Peg.Legible (.integer v)) : Inline v.text := by
  obtain ⟨n, rfl⟩ := legible
  exact .plain (isAtom_number n).plainText

theorem opened_missing : Opened "(empty" := ⟨"empty", rfl, .plain (by decide)⟩

theorem Expr.inline_inline (e : Expr) (legible : Legible e.mentions) :
    ∃ s, e.toNode.inline = .ok s ∧ Inline s := by
  induction e with
  | integer v l =>
    simp only [mentions, legible_cons] at legible
    exact ⟨_, rfl, inline_value legible.1⟩
  | name id l =>
    simp only [mentions, legible_cons] at legible
    exact ⟨_, rfl, inline_name legible.1⟩
  | binary op a b l iha ihb =>
    simp only [mentions, legible_append, legible_cons] at legible
    obtain ⟨s, inline, first⟩ := iha legible.1
    obtain ⟨s', inline', second⟩ := ihb legible.2.2
    have symbol : Plain op.symbol := by cases op <;> decide
    refine ⟨"(" ++ op.symbol ++ " " ++ s ++ " " ++ s' ++ ")", ?_, ?_⟩
    · rw [toNode, Node.inline, inline, inline']
      rfl
    · exact ((Opened.head (.plain symbol)).space first |>.space second).close
  | signed sign e l ih =>
    simp only [mentions, legible_cons] at legible
    obtain ⟨s, inline, first⟩ := ih legible.2
    have symbol : Plain sign.symbol := by cases sign <;> decide
    refine ⟨"(" ++ sign.symbol ++ " " ++ s ++ ")", ?_, ?_⟩
    · rw [toNode, Node.inline, inline]
      rfl
    · exact ((Opened.head (.plain symbol)).space first).close
  | group e l ih =>
    simp only [mentions, legible_cons] at legible
    obtain ⟨s, inline, first⟩ := ih legible.2
    refine ⟨"(group " ++ s ++ ")", ?_, ?_⟩
    · rw [toNode, Node.inline, inline]
      rfl
    · exact (Opened.literal "group " rfl (by decide) first).close
  | missing l => exact ⟨_, rfl, opened_missing.close⟩

/-- A condition takes a line of its own. -/
theorem Condition.inline_laid (indent : String) (c : Condition) (legible : Legible c.mentions) :
    ∃ s, c.toNode.inline = .ok s ∧ Laid indent [s] := by
  cases c with
  | odd e l =>
    simp only [mentions, legible_cons] at legible
    obtain ⟨s, inline, first⟩ := e.inline_inline legible.2
    refine ⟨"(odd " ++ s ++ ")", ?_, ?_⟩
    · rw [toNode, Node.inline, inline]
      rfl
    · exact .line (Opened.literal "odd " rfl (by decide) first)
  | relation op a b l =>
    simp only [mentions, legible_append, legible_cons] at legible
    obtain ⟨s, inline, first⟩ := a.inline_inline legible.1
    obtain ⟨s', inline', second⟩ := b.inline_inline legible.2.2
    have symbol : Plain op.symbol := by cases op <;> decide
    refine ⟨"(" ++ op.symbol ++ " " ++ s ++ " " ++ s' ++ ")", ?_, ?_⟩
    · rw [toNode, Node.inline, inline, inline']
      rfl
    · exact .line ((Opened.head (.plain symbol)).space first |>.space second)
  | missing l => exact ⟨_, rfl, .line opened_missing⟩

theorem constLine_laid {indent : String} {cs : List ConstDecl}
    (legible : Legible (cs.flatMap ConstDecl.mentions)) :
    Laid indent (constLine (cs.map fun d => (d.name, d.value))).flatten := by
  cases cs with
  | nil => exact .nil
  | cons c cs =>
    have item : ∀ d ∈ c :: cs, Inline ("(" ++ d.name ++ " " ++ d.value.text ++ ")") := by
      intro d member
      have known : Legible d.mentions := fun m mentioned =>
        legible m (List.mem_flatMap.mpr ⟨d, member, mentioned⟩)
      simp only [ConstDecl.mentions, legible_cons] at known
      exact ((Opened.head (inline_name known.1)).space (inline_value known.2.1)).close
    have text : (constLine ((c :: cs).map fun d => (d.name, d.value))).flatten =
        ["(const " ++ " ".intercalate (((c :: cs).map fun d => (d.name, d.value)).map
          fun d => "(" ++ d.1 ++ " " ++ Quantity.text d.2 ++ ")") ++ ")"] := rfl
    rw [text, List.map_map]
    exact .line (Opened.literal "const " rfl (by decide) (.spaces item))

theorem varLine_laid {indent : String} {vs : List VarDecl} (legible : Legible (vs.flatMap VarDecl.mentions)) :
    Laid indent (varLine (vs.map VarDecl.name)).flatten := by
  cases vs with
  | nil => exact .nil
  | cons v vs =>
    have item : ∀ d ∈ v :: vs, Inline (VarDecl.name d) := by
      intro d member
      have known : Legible d.mentions := fun m mentioned =>
        legible m (List.mem_flatMap.mpr ⟨d, member, mentioned⟩)
      simp only [VarDecl.mentions, legible_cons] at known
      exact inline_name known.1
    exact .line (Opened.literal "var " rfl (by decide) (.spaces item))

section Statements

variable {indent : String}

mutual

theorem Stmt.lines_laid (plain : Plain indent) : ∀ s : Stmt, Legible s.mentions →
    ∃ ls, s.toNode.lines indent = .ok ls ∧ Laid indent ls
  | .assign target e l, legible => by
    simp only [Stmt.mentions, legible_cons] at legible
    obtain ⟨s, inline, value⟩ := e.inline_inline legible.2
    refine ⟨["(assign " ++ target ++ " " ++ s ++ ")"], ?_, ?_⟩
    · rw [Stmt.toNode, Node.lines, inline]
      rfl
    · exact .line ((Opened.literal "assign " rfl (by decide) (inline_name legible.1)).space value)
  | .call p l, legible => by
    simp only [Stmt.mentions, legible_cons] at legible
    exact ⟨_, rfl, .line (Opened.literal "call " rfl (by decide) (inline_name legible.2.1))⟩
  | .read target l, legible => by
    simp only [Stmt.mentions, legible_cons] at legible
    exact ⟨_, rfl, .line (Opened.literal "read " rfl (by decide) (inline_name legible.2.1))⟩
  | .write source l, legible => by
    simp only [Stmt.mentions, legible_cons] at legible
    exact ⟨_, rfl, .line (Opened.literal "write " rfl (by decide) (inline_name legible.2.1))⟩
  | .compound ss l, legible => by
    simp only [Stmt.mentions, legible_cons] at legible
    obtain ⟨parts, lines, laid⟩ := Stmt.linesOfAll_laid plain ss legible.2
    refine ⟨wrap indent "begin" parts, ?_, .wrap plain (by decide) laid⟩
    rw [Stmt.toNode, Node.lines, lines]
    rfl
  | .branch c y none l, legible => by
    simp only [Stmt.mentions, legible_cons, legible_append] at legible
    obtain ⟨s, inline, first⟩ := c.inline_laid indent legible.2.1.1
    obtain ⟨yes, lines, second⟩ := Stmt.lines_laid plain y legible.2.1.2
    refine ⟨wrap indent "if" [[s], yes], ?_, .wrap plain (by decide) (first.append (second.append .nil))⟩
    rw [Stmt.toNode, Stmt.toNodeOption, Node.lines, inline, lines]
    rfl
  | .branch c y (some n) l, legible => by
    simp only [Stmt.mentions, legible_cons, legible_append] at legible
    obtain ⟨s, inline, first⟩ := c.inline_laid indent legible.2.1.1
    obtain ⟨yes, lines, second⟩ := Stmt.lines_laid plain y legible.2.1.2
    obtain ⟨no, lines', third⟩ := Stmt.lines_laid plain n legible.2.2
    have other : Laid indent (wrap indent "else" [no]) := .wrap plain (by decide) (third.append .nil)
    refine ⟨wrap indent "if" [[s], yes, wrap indent "else" [no]], ?_,
      .wrap plain (by decide) (first.append (second.append (other.append .nil)))⟩
    rw [Stmt.toNode, Stmt.toNodeOption, Node.lines, inline, lines, lines']
    · rfl
    · exact n.toNode_ne_absent
  | .loop c s l, legible => by
    simp only [Stmt.mentions, legible_cons, legible_append] at legible
    obtain ⟨t, inline, first⟩ := c.inline_laid indent legible.2.1
    obtain ⟨body, lines, second⟩ := Stmt.lines_laid plain s legible.2.2
    refine ⟨wrap indent "while" [[t], body], ?_,
      .wrap plain (by decide) (first.append (second.append .nil))⟩
    rw [Stmt.toNode, Node.lines, inline, lines]
    rfl
  | .empty l, _ => ⟨_, rfl, .line opened_missing⟩

theorem Stmt.linesOfAll_laid (plain : Plain indent) :
    ∀ ss : List Stmt, Legible (Stmt.mentionsList ss) →
    ∃ parts, Node.linesOfAll indent (Stmt.toNodes ss) = .ok parts ∧ Laid indent parts.flatten
  | [], _ => ⟨[], rfl, .nil⟩
  | s :: ss, legible => by
    simp only [Stmt.mentionsList, legible_append] at legible
    obtain ⟨ls, lines, laid⟩ := Stmt.lines_laid plain s legible.1
    obtain ⟨parts, rest, behind⟩ := Stmt.linesOfAll_laid plain ss legible.2
    refine ⟨ls :: parts, ?_, laid.append behind⟩
    rw [Stmt.toNodes, Node.linesOfAll, lines, rest]
    rfl

end

mutual

theorem Block.lines_laid (plain : Plain indent) : ∀ b : Block, Legible b.mentions →
    ∃ ls, b.toNode.lines indent = .ok ls ∧ Laid indent ls
  | ⟨cs, vs, ps, s, l⟩, legible => by
    simp only [Block.mentions, legible_append] at legible
    obtain ⟨⟨⟨consts, vars⟩, procedures⟩, statement⟩ := legible
    obtain ⟨parts, lines, laid⟩ := Procedure.linesOfAll_laid plain ps procedures
    obtain ⟨body, lines', last⟩ := s.lines_laid plain statement
    refine ⟨wrap indent "block" (constLine (cs.map fun d => (d.name, d.value)) ++
      varLine (vs.map VarDecl.name) ++ parts ++ [body]), ?_, .wrap plain (by decide) ?_⟩
    · rw [Block.toNode, Node.lines, lines, lines']
      rfl
    · simp only [List.flatten_append, List.flatten_singleton]
      exact (((constLine_laid consts).append (varLine_laid vars)).append laid).append last

theorem Procedure.lines_laid (plain : Plain indent) : ∀ p : Procedure, Legible p.mentions →
    ∃ ls, p.toNode.lines indent = .ok ls ∧ Laid indent ls
  | ⟨name, b, l⟩, legible => by
    simp only [Procedure.mentions, legible_cons] at legible
    obtain ⟨ls, lines, laid⟩ := Block.lines_laid plain b legible.2.2
    have head : Plain ("procedure " ++ name) := by
      intro c member
      rw [String.toList_append, List.mem_append] at member
      rcases member with keyword | named
      · exact (by decide : Plain "procedure ") c keyword
      · exact (isAtom_of_vocabulary (legible.2.1 rfl)).plainText c named
    refine ⟨wrap indent ("procedure " ++ name) [ls], ?_, .wrap plain head (laid.append .nil)⟩
    rw [Procedure.toNode, Node.lines, lines]
    rfl

theorem Procedure.linesOfAll_laid (plain : Plain indent) :
    ∀ ps : List Procedure, Legible (Procedure.mentionsList ps) →
    ∃ parts, Node.linesOfAll indent (Procedure.toNodes ps) = .ok parts ∧ Laid indent parts.flatten
  | [], _ => ⟨[], rfl, .nil⟩
  | p :: ps, legible => by
    simp only [Procedure.mentionsList, legible_append] at legible
    obtain ⟨ls, lines, laid⟩ := Procedure.lines_laid plain p legible.1
    obtain ⟨parts, rest, behind⟩ := Procedure.linesOfAll_laid plain ps legible.2
    refine ⟨ls :: parts, ?_, laid.append behind⟩
    rw [Procedure.toNodes, Node.linesOfAll, lines, rest]
    rfl

end

end Statements

/-- The outline of a parsed text, whatever the text.  No beginning of it closes a parenthesis that it has
not opened, the first parenthesis is closed by the last character and not before, and each line is indented
once for every parenthesis that is open at the end of the line before it. -/
theorem outline_laid_out (limit nesting : Int) (file source indent : String) (plain : Plain indent) :
    ∃ p log text, parse ⟨.number limit, nesting⟩ file source = .ok (p, log) ∧
      p.toNode.outline indent = .ok text ∧
      height text.toList = 0 ∧
      (∀ before after, text.toList = before ++ after →
        0 ≤ height before ∧ (before ≠ [] → after ≠ [] → 0 < height before)) ∧
      ∀ before line after, text.toList.splitOn '\n' = before ++ line :: after →
        ∃ (n : Nat) (body : List Char), height before.flatten = n ∧
          line = (List.replicate n indent.toList).flatten ++ '(' :: body := by
  obtain ⟨p, log, parsed, legible⟩ := parse_legible limit nesting file source
  obtain ⟨ls, lines, laid⟩ := p.block.lines_laid plain legible
  have head : Plain "program" := by decide
  have inside : Laid indent [ls].flatten := laid.append .nil
  have whole : Laid indent (wrap indent "program" [ls]) := .wrap plain head inside
  refine ⟨p, log, "\n".intercalate (wrap indent "program" [ls]), parsed, ?_, whole.height_text, ?_, ?_⟩
  · rw [Program.toNode, Node.outline, Node.lines, lines]
    rfl
  · intro before after divided
    exact ⟨whole.height_nonneg ⟨after, divided.symm⟩, height_pos_of_wrap plain head inside divided⟩
  · intro before line after divided
    exact whole.exists_indentation (closeLast_ne_nil _ _) divided

/-- Indentation by a bar, for a text that stops within a loop. -/
theorem outline_laid_out_with_bars :
    Plain "| " ∧ ∃ p log text,
      parse ⟨.number 7, 3⟩ "f" "var x; begin x := (99; while odd x do" = .ok (p, log) ∧
      p.toNode.outline "| " = .ok text ∧
      height text.toList = 0 ∧
      (∀ before after, text.toList = before ++ after →
        0 ≤ height before ∧ (before ≠ [] → after ≠ [] → 0 < height before)) ∧
      ∀ before line after, text.toList.splitOn '\n' = before ++ line :: after →
        ∃ (n : Nat) (body : List Char), height before.flatten = n ∧
          line = (List.replicate n "| ".toList).flatten ++ '(' :: body :=
  ⟨by decide, outline_laid_out 7 3 "f" "var x; begin x := (99; while odd x do" "| " (by decide)⟩

end PlZero

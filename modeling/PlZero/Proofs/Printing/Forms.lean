import PlZero.Node.Outline

/-! # Reading S-expressions

An outline is laid out in lines, but what it says is an S-expression: words and lists in parentheses.  A
`Reader` reads such a text from its end to its start, because then a form is complete as soon as its
opening parenthesis is met.  Line breaks and indentation are blanks like any other, so the forms of a text
do not depend on its layout.

* `Shows s fs` says that the text `s` is read as the forms `fs`, wherever it stands;
* `Opens s fs` says that `s` starts a list with the forms `fs`, which is still to be closed;
* `ShowsLines ls fs` says the same of lines, and the rules for it are those by which an outline is put
  together.
-/

namespace PlZero

/-- An S-expression. -/
inductive Form
  | atom (word : String)
  | list (items : List Form)

/-- What has been read of a text from the right: the word that has not ended, the forms behind it, and
the forms behind each list that is still open. -/
structure Reader where
  word : List Char
  forms : List Form
  outer : List (List Form)

namespace Reader

/-- Ends the word, if there is one. -/
def settle : Reader → Reader
  | ⟨[], forms, outer⟩ => ⟨[], forms, outer⟩
  | ⟨c :: cs, forms, outer⟩ => ⟨[], .atom (String.ofList (c :: cs)) :: forms, outer⟩

/-- Goes into a list, from behind. -/
def enter (r : Reader) : Reader := ⟨[], [], r.forms :: r.outer⟩

/-- Comes out of a list at its front. -/
def leave : Reader → Reader
  | ⟨_, forms, []⟩ => ⟨[], [.list forms], []⟩
  | ⟨_, forms, behind :: outer⟩ => ⟨[], .list forms :: behind, outer⟩

def isGap (c : Char) : Bool := c = ' ' || c = '\n'

/-- Whether there is no word in a text, and no parenthesis. -/
def Blank (s : String) : Prop := ∀ c ∈ s.toList, isGap c = true

/-- Reads one character. -/
def step (c : Char) (r : Reader) : Reader :=
  if c = ')' then r.settle.enter
  else if c = '(' then r.settle.leave
  else if isGap c then r.settle
  else { r with word := c :: r.word }

def readText (s : String) (r : Reader) : Reader := s.toList.foldr step r

/-- Reads lines, the last one first. -/
def readLines (ls : List String) (r : Reader) : Reader := ls.foldr (fun l r => (readText l r).settle) r

variable {forms behind : List Form} {outer : List (List Form)} (r : Reader) (s s' : String)

@[simp] theorem settle_clean : settle ⟨[], forms, outer⟩ = ⟨[], forms, outer⟩ := rfl

@[simp] theorem settle_settle : r.settle.settle = r.settle := by
  obtain ⟨word, forms, outer⟩ := r
  cases word with
  | nil | cons => rfl

@[simp] theorem readText_append : readText (s ++ s') r = readText s (readText s' r) := by
  simp [readText]

@[simp] theorem readText_space : readText " " r = r.settle := rfl

@[simp] theorem readText_newline : readText "\n" r = r.settle := rfl

@[simp] theorem readText_close : readText ")" r = r.settle.enter := rfl

@[simp] theorem readText_open : readText "(" r = r.settle.leave := rfl

/-- Blanks in front of a text change nothing but to end its first word. -/
theorem settle_readText_blanks {indent : String} (blank : Blank indent) :
    (readText indent r).settle = r.settle := by
  rw [readText]
  revert blank
  rw [Blank]
  induction indent.toList with
  | nil => exact fun _ => rfl
  | cons c cs ih =>
    intro blank
    have space : isGap c = true := blank c List.mem_cons_self
    have noClose : c ≠ ')' := by
      rintro rfl
      exact absurd space (by decide)
    have noOpen : c ≠ '(' := by
      rintro rfl
      exact absurd space (by decide)
    rw [List.foldr_cons, step, if_neg noClose, if_neg noOpen, if_pos space, settle_settle]
    exact ih fun d member => blank d (List.mem_cons_of_mem _ member)

end Reader

/-! ## Texts -/

open Reader

/-- Whether a text is one word. -/
structure IsAtom (s : String) : Prop where
  nonempty : s.toList ≠ []
  plain : ∀ c ∈ s.toList, c ≠ ')' ∧ c ≠ '(' ∧ isGap c = false

theorem isAtom_iff {s : String} :
    IsAtom s ↔ s.toList ≠ [] ∧ s.toList.all (fun c => c ≠ ')' && c ≠ '(' && !isGap c) = true := by
  constructor
  · rintro ⟨nonempty, plain⟩
    exact ⟨nonempty, by simpa [and_assoc] using plain⟩
  · rintro ⟨nonempty, plain⟩
    exact ⟨nonempty, by simpa [and_assoc] using plain⟩

instance (s : String) : Decidable (IsAtom s) := decidable_of_iff _ isAtom_iff.symm

/-- The text is read as these forms, in front of whatever was read behind it. -/
def Shows (s : String) (fs : List Form) : Prop :=
  ∀ forms outer, (readText s ⟨[], forms, outer⟩).settle = ⟨[], fs ++ forms, outer⟩

/-- The text is read as the start of a list, in front of the rest of the list. -/
def Opens (s : String) (fs : List Form) : Prop :=
  ∀ forms behind outer, readText s ⟨[], forms, behind :: outer⟩ = ⟨[], .list (fs ++ forms) :: behind, outer⟩

variable {s s' : String} {fs fs' : List Form}

theorem Shows.atom (word : IsAtom s) : Shows s [.atom s] := by
  intro forms outer
  -- nothing ends the word before its first character, so it grows to the whole text
  have gathered : ∀ cs : List Char, (∀ c ∈ cs, c ≠ ')' ∧ c ≠ '(' ∧ isGap c = false) →
      cs.foldr step ⟨[], forms, outer⟩ = ⟨cs, forms, outer⟩ := by
    intro cs plain
    induction cs with
    | nil => rfl
    | cons c cs ih =>
      obtain ⟨noClose, noOpen, noBlank⟩ := plain c List.mem_cons_self
      rw [List.foldr_cons, ih fun d member => plain d (List.mem_cons_of_mem _ member), step,
        if_neg noClose, if_neg noOpen, if_neg (by simp [noBlank])]
  rw [readText, gathered s.toList word.plain]
  cases chars : s.toList with
  | nil => exact absurd chars word.nonempty
  | cons c cs => rw [settle, ← chars, String.ofList_toList]; rfl

theorem Shows.space (first : Shows s fs) (second : Shows s' fs') : Shows (s ++ " " ++ s') (fs ++ fs') := by
  intro forms outer
  rw [readText_append, readText_append, readText_space, second, first, List.append_assoc]

theorem Opens.head (first : Shows s fs) : Opens ("(" ++ s) fs := by
  intro forms behind outer
  rw [readText_append, readText_open, first]
  rfl

theorem Opens.space (first : Opens s fs) (second : Shows s' fs') : Opens (s ++ " " ++ s') (fs ++ fs') := by
  intro forms behind outer
  rw [readText_append, readText_append, readText_space, second, first, List.append_assoc]

theorem Opens.literal (w : String) {head : String} (whole : head = "(" ++ w ++ " ") (word : IsAtom w)
    (second : Shows s fs) : Opens (head ++ s) (.atom w :: fs) := by
  subst whole
  exact space (Opens.head (.atom word)) second

theorem Opens.close (opens : Opens s fs) : Shows (s ++ ")") [.list fs] := by
  intro forms outer
  rw [readText_append, readText_close, settle_clean, enter, opens, List.append_nil]
  rfl

theorem Opens.spaces {α : Type} {text : α → String} {form : α → Form} {xs : List α} (opens : Opens s fs)
    (each : ∀ x ∈ xs, Shows (text x) [form x]) (nonempty : xs ≠ []) :
    Opens (s ++ " " ++ " ".intercalate (xs.map text)) (fs ++ xs.map form) := by
  induction xs generalizing s fs with
  | nil => exact absurd rfl nonempty
  | cons x xs ih =>
    -- the first of them goes to what is open already, and the others follow
    have first := opens.space (each x List.mem_cons_self)
    cases xs with
    | nil => simpa using first
    | cons y ys =>
      have whole := ih first (fun z member => each z (List.mem_cons_of_mem _ member)) (by simp)
      simp only [List.map_cons, String.intercalate_cons_cons]
      simpa [String.append_assoc] using whole

/-! ## Lines -/

/-- The lines are read as these forms. -/
def ShowsLines (ls : List String) (fs : List Form) : Prop :=
  ∀ forms outer, readLines ls ⟨[], forms, outer⟩ = ⟨[], fs ++ forms, outer⟩

namespace ShowsLines

variable {ls ls' : List String}

theorem nil : ShowsLines [] [] := fun _ _ => rfl

theorem single (shows : Shows s fs) : ShowsLines [s] fs := shows

theorem append (first : ShowsLines ls fs) (second : ShowsLines ls' fs') :
    ShowsLines (ls ++ ls') (fs ++ fs') := by
  intro forms outer
  rw [readLines, List.foldr_append]
  show readLines ls (readLines ls' _) = _
  rw [second, first, List.append_assoc]

/-- Indentation is blank, so lines say the same wherever they start. -/
theorem indented {indent : String} (blank : Blank indent)
    (shows : ShowsLines ls fs) : ShowsLines (ls.map (indent ++ ·)) fs := by
  intro forms outer
  have same : ∀ r, readLines (ls.map (indent ++ ·)) r = readLines ls r := by
    intro r
    rw [readLines, List.foldr_map]
    congr
    funext l r
    rw [readText_append, settle_readText_blanks _ blank]
  rw [same, shows]

theorem readLines_closeLast (l : String) (ls : List String) (forms : List Form)
    (outer : List (List Form)) :
    readLines (Outline.closeLast (l :: ls)) ⟨[], forms, outer⟩ =
      readLines (l :: ls) ⟨[], [], forms :: outer⟩ := by
  -- the last line is the first to be read, so the list is entered before all else
  induction ls generalizing l with
  | nil =>
    show (readText (l ++ ")") _).settle = _
    rw [readText_append]
    rfl
  | cons l' ls ih =>
    show (readText l (readLines (Outline.closeLast (l' :: ls)) _)).settle = _
    rw [ih]
    rfl

theorem wrap {indent head : String} {parts : List (List String)}
    (blank : Blank indent) (opens : Opens ("(" ++ head) fs)
    (shows : ShowsLines parts.flatten fs') :
    ShowsLines (Outline.wrap indent head parts) [.list (fs ++ fs')] := by
  intro forms outer
  rw [Outline.wrap, readLines_closeLast]
  show (readText _ (readLines _ _)).settle = _
  rw [shows.indented blank, opens, List.append_nil]
  rfl

/-- A list whose parts stand below the word at its head. -/
theorem wrapWord {indent head : String} {parts : List (List String)}
    (blank : Blank indent) (word : IsAtom head)
    (shows : ShowsLines parts.flatten fs') :
    ShowsLines (Outline.wrap indent head parts) [.list (.atom head :: fs')] :=
  wrap blank (Opens.head (.atom word)) shows

theorem joined (shows : ShowsLines ls fs) : Shows ("\n".intercalate ls) fs := by
  -- a line break ends a word, as does the end of a line
  have same (ls : List String) (r : Reader) :
      (readText ("\n".intercalate ls) r.settle).settle = readLines ls r.settle := by
    induction ls with
    | nil => exact settle_settle r
    | cons l ls ih =>
      cases ls with
      | nil => simp [readLines]
      | cons l' ls =>
        rw [String.intercalate_cons_cons, readText_append, readText_append, readText_newline, ih]
        rfl
  intro forms outer
  have lines := same ls ⟨[], forms, outer⟩
  rw [settle_clean] at lines
  rw [lines, shows]

end ShowsLines

/-- A text has one reading. -/
theorem Shows.unique (first : Shows s fs) (second : Shows s fs') : fs = fs' := by
  have same := (first [] []).symm.trans (second [] [])
  simpa using same

end PlZero

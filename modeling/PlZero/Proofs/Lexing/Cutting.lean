import PlZero.Proofs.Lexing.Spans

/-! # Texts that are cut in two

A text is cut where no token goes across, and its two pieces are read apart.  The tokens of the first
piece are tokens of the whole as they stand, and those of the second become so when they are moved behind
the first piece: all of them by as many characters and lines as that has, and those on the first line also
by as many columns as its last line has.

Both halves of this are about readings.  `Reading.cut` divides one at the boundary of a token, because a
word that is the longest of a text is the longest also if less of the text follows it; `Reading.moved`
puts a reading behind another text.
-/

namespace PlZero

/-! ## Moving tokens -/

/-- Where something stands when the text around it is put behind another one. -/
def Location.moved (front : List Char) (l : Location) : Location :=
  let shift (column : Int) : Int :=
    if l.line = 1 then column + (front.reverse.takeWhile (· ≠ '\n')).length else column
  { l with
    line := l.line + front.count '\n'
    column := shift l.column
    offset := l.offset.map (· + front.length)
    endLine := l.endLine.map (· + front.count '\n')
    endColumn := l.endColumn.map shift }

/-- A token of a text that is put behind another one. -/
def Token.moved (front : List Char) (t : Token) : Token := { t with loc := t.loc.moved front }

namespace Position

theorem line_behind_eq_one_iff {cs : List Char} : (behind cs).line = 1 ↔ '\n' ∉ cs := by
  simp [behind, List.count_eq_zero]

/-- A line feed ends the line of all that is in front of it. -/
theorem takeWhile_reverse_append_of_feed {cs : List Char} (feed : '\n' ∈ cs) (front : List Char) :
    (front ++ cs).reverse.takeWhile (· ≠ '\n') = cs.reverse.takeWhile (· ≠ '\n') := by
  rw [List.reverse_append, List.takeWhile_append, if_neg]
  intro whole
  have line := List.all_eq_true.mp (List.all_takeWhile (l := cs.reverse) (p := (· ≠ '\n'))) '\n'
  rw [(List.takeWhile_sublist _).eq_of_length whole] at line
  simpa using line (List.mem_reverse.mpr feed)

/-- The text in front counts for the column on the first line only. -/
theorem behind_append (front cs : List Char) :
    behind (front ++ cs) = ⟨(behind cs).line + front.count '\n',
      if (behind cs).line = 1 then (behind cs).column + (front.reverse.takeWhile (· ≠ '\n')).length
        else (behind cs).column, (behind cs).offset + front.length⟩ := by
  by_cases feed : '\n' ∈ cs
  · rw [if_neg (mt line_behind_eq_one_iff.mp (not_not_intro feed))]
    simp only [behind, takeWhile_reverse_append_of_feed feed, List.count_append, List.length_append]
    congr 1
    · omega
    · omega
  · have start : (behind cs).column = 1 + cs.length := by
      have alone : behind ([] ++ cs) = ⟨1, 1 + cs.length, 0 + cs.length⟩ := behind_append_of_noFeed feed
      rw [List.nil_append] at alone
      rw [alone]
    rw [if_pos (line_behind_eq_one_iff.mpr feed), behind_append_of_noFeed feed, start,
      line_behind_eq_one_iff.mpr feed]
    simp only [behind]
    congr 1
    · omega
    · omega

end Position

/-- A word moves as a whole, because it stands on one line. -/
theorem Token.moved_standing {file : String} {front before w : List Char} {kind : Token.Kind}
    (noFeed : '\n' ∉ w) :
    (standing file before kind w).moved front = standing file (front ++ before) kind w := by
  have sameLine : (Position.behind (before ++ w)).line = (Position.behind before).line := by
    rw [Position.behind_append_of_noFeed noFeed]
  have first : ((Position.behind before).line : Int) = 1 ↔ (Position.behind before).line = 1 := by omega
  simp only [standing, Token.moved, Location.moved, Location.span, List.append_assoc,
    Position.behind_append front, sameLine, first]
  split
  · simp
  · simp

/-! ## Readings -/

theorem FirstWord.cut {kind : Token.Kind} {w rest rest' : List Char}
    (first : FirstWord kind w (rest ++ rest')) : FirstWord kind w rest := by
  -- what starts the shorter text also starts the longer one
  cases first with
  | known word longest =>
    refine .known word fun kind' w' word' isPrefix => longest kind' w' word' ?_
    rw [← List.append_assoc]
    exact isPrefix.trans (List.prefix_append _ _)
  | @stranger c _ noWord =>
    refine .stranger fun kind' w' word' isPrefix => noWord kind' w' word' ?_
    exact isPrefix.trans (List.prefix_append (c :: rest) rest')

namespace Reading

variable {file : String} {before cs cs' front : List Char} {ts : List Token}

theorem moved (reading : Reading file before cs ts) (front : List Char) :
    Reading file (front ++ before) cs (ts.map (Token.moved front)) := by
  induction reading with
  | done => exact .done
  | blank blank _ ih =>
    rw [← List.append_assoc] at ih
    exact .blank blank ih
  | word noBlank divided first _ ih =>
    rw [← List.append_assoc] at ih
    rw [List.map_cons, Token.moved_standing (first.noFeed noBlank divided)]
    exact .word noBlank divided first ih

/-- A reading is divided at a place where no token goes across. -/
theorem cut {p : Nat} (reading : Reading file before (cs ++ cs') ts) (there : before.length + cs.length = p)
    (boundary : ∀ t ∈ ts, ¬ (t.start < p ∧ p < t.stop)) :
    ∃ us us', ts = us ++ us' ∧ Reading file before cs us ∧ Reading file (before ++ cs) cs' us' := by
  generalize whole : cs ++ cs' = text at reading
  induction reading generalizing cs with
  | done =>
    obtain ⟨rfl, rfl⟩ := List.append_eq_nil_iff.mp whole
    exact ⟨[], [], rfl, .done, .done⟩
  | @blank before text c ts blank reading ih =>
    cases cs with
    | nil =>
      subst whole
      exact ⟨[], ts, rfl, .done, by rw [List.append_nil]; exact .blank blank reading⟩
    | cons c' cs =>
      obtain ⟨rfl, rfl⟩ := List.cons.inj whole
      have there' : (before ++ [c']).length + cs.length = p := by
        simp only [List.length_append, List.length_cons, List.length_nil] at there ⊢
        omega
      obtain ⟨us, us', rfl, first, second⟩ := ih there' boundary rfl
      rw [List.append_assoc] at second
      exact ⟨us, us', rfl, .blank blank first, second⟩
  | @word before text w rest c kind ts noBlank divided first reading ih =>
    by_cases empty : cs = []
    · subst empty whole
      exact ⟨[], _, rfl, .done, by rw [List.append_nil]; exact .word noBlank divided first reading⟩
    -- the first token starts before the cut, so it ends there or before
    have ended := boundary _ List.mem_cons_self
    rw [Token.start_standing, Token.stop_standing] at ended
    have nonempty := List.length_pos_iff.mpr empty
    have short : w.length ≤ cs.length := by omega
    rw [divided] at whole
    obtain ⟨cs, rfl⟩ : w <+: cs := List.prefix_of_prefix_length_le ⟨rest, rfl⟩ ⟨cs', whole⟩ short
    rw [List.append_assoc] at whole
    obtain rfl := List.append_cancel_left whole
    have there' : (before ++ w).length + cs.length = p := by
      rw [List.length_append] at there ⊢
      omega
    obtain ⟨us, us', rfl, front, behind⟩ :=
      ih there' (fun t member => boundary t (List.mem_cons_of_mem _ member)) rfl
    rw [List.append_assoc] at behind
    refine ⟨.standing file before kind w :: us, us', rfl, ?_, behind⟩
    obtain ⟨d, ds, rfl⟩ := List.exists_cons_of_ne_nil first.ne_nil
    obtain ⟨rfl, _⟩ := List.cons.inj divided
    exact .word noBlank rfl first.cut front

end Reading

/-- The tokens of a text are those of its two pieces, the second ones moved behind the first piece,
wherever the text is cut without cutting a token. -/
theorem tokenize_cut (source file : String) (p : Nat) (inside : p ≤ source.length)
    (boundary : ∀ t ∈ tokenize source file, ¬ (t.start < p ∧ p < t.stop)) :
    tokenize source file = tokenize (String.ofList (source.toList.take p)) file ++
      (tokenize (String.ofList (source.toList.drop p)) file).map (Token.moved (source.toList.take p)) := by
  have reading := tokenize_reading source file
  have there : ([] : List Char).length + (source.toList.take p).length = p := by
    rw [List.length_nil, List.length_take, String.length_toList]
    omega
  rw [← List.take_append_drop p source.toList] at reading
  obtain ⟨us, us', divided, first, second⟩ := reading.cut there boundary
  have front := tokenize_reading (String.ofList (source.toList.take p)) file
  have back := (tokenize_reading (String.ofList (source.toList.drop p)) file).moved (source.toList.take p)
  rw [String.toList_ofList] at front back
  rw [List.append_nil] at back
  rw [divided, front.unique first, back.unique second]

/-- The cut touches two tokens, and the second of them moves by the line feed and the two columns in front
of it. -/
theorem tokenize_cut_touching :
    let source := "x:=\n12<=y\nz"
    let front := source.toList.take 6
    let back := source.toList.drop 6
    6 ≤ source.length ∧ (∀ t ∈ tokenize source "", ¬ (t.start < 6 ∧ 6 < t.stop)) ∧
      tokenize source "" =
        tokenize (String.ofList front) "" ++ (tokenize (String.ofList back) "").map (Token.moved front) ∧
      (tokenize (String.ofList back) "").map (fun t => (t.loc.line, t.loc.column)) =
        [(1, 1), (1, 3), (2, 1)] ∧
      ((tokenize source "").drop 3).map (fun t => (t.loc.line, t.loc.column)) =
        [(2, 3), (2, 5), (3, 1)] := by
  intro source front back
  have inside : 6 ≤ source.length := by decide
  have boundary : ∀ t ∈ tokenize source "", ¬ (t.start < 6 ∧ 6 < t.stop) := by decide
  exact ⟨inside, boundary, tokenize_cut source "" 6 inside boundary, by decide, by decide⟩

end PlZero

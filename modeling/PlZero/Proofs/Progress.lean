import PlZero.Parser.Session
import PlZero.Proofs.Complete.Expression
import PlZero.Proofs.Nesting.Productions
import PlZero.Proofs.Parser.Loops
import PlZero.Proofs.Steady.Productions

/-! # Progress

Some productions leave a token that they cannot use, because an enclosing one may know it.  A loop around
such a production must not come to it again and again.  That none does is shown here:

* a statement and an expression that take nothing have come to the end or to a token that is left to others;
* every turn of a loop that is followed by another has taken a token, for each loop of the grammar
  (`GrammarLoop.productive`), so all of them end by themselves;
* every level of nesting has a token of its own, but for two (`not_overflow_of_le`), so the recursion of the
  productions ends as well, whatever the limit on it.

The loop over the declarations of a section is run in other pieces than it is told.  A turn of it is a
declaration and the separator behind it, but the parser takes a separator with the declaration that follows
(`nextDeclaration`); `entry` is the turn, and `section_productive` shows that the two make the same loop.
-/

namespace PlZero

namespace Parser

variable {α : Type} {cx : Context}

/-! ## Sections -/

/-- Whether one more declaration comes.  A comma before it is taken, and before a name it may be missing. -/
def separator (cx : Context) (between : Place) : Parser Bool := do
  match ← accept (·.isDelimiter ",") with
  | some _ => return true
  | none =>
    match ← peek with
    | some t =>
      if t.kind = .identifier then
        report cx (.symbol ",") between .assumedPresent
        return true
      else
        return false
    | none => return false

/-- A turn of a section: a declaration, and what separates it from the next. -/
def entry (cx : Context) (decl : Parser α) (between : Place) (before : List α) :
    Parser (ForInStep (List α)) := do
  let all ← declaration decl before
  if ← separator cx between then return .yield all else return .done all

theorem nextDeclaration_eq (decl : Parser α) (between : Place) (before : List α) :
    nextDeclaration cx decl between before = (do
      if ← separator cx between then return some (← declaration decl before) else return none) := by
  rw [nextDeclaration, separator, bind_assoc]
  refine bind_congr fun comma => ?_
  cases comma with
  | some _ => rfl
  | none =>
    rw [bind_assoc]
    refine bind_congr fun next => ?_
    cases next with
    | none => rfl
    | some t => by_cases identifier : t.kind = .identifier <;> simp [identifier]

/-- A separator is a comma, or there is a name behind it. -/
theorem separator_steady (between : Place) (r : List Token) :
    Steady r (separator cx between) r fun more r' => more = true →
      r'.length < r.length ∨ r' = r ∧ ∃ t ∈ r.head?, decide (t.kind = .identifier) = true := by
  apply Steady.loosen
  apply Steady.accept_bind
  · rintro t ts rfl _
    exact .pure fun _ => .inl (Nat.lt_succ_self _)
  intro _
  apply Steady.peek_bind
  · intro _
    exact .pure nofun
  rintro t ts rfl
  apply Steady.ite
  · intro identifier
    apply Steady.report_bind
    exact .pure fun _ => .inr ⟨rfl, t, rfl, decide_eq_true identifier⟩
  · intro _
    exact .pure nofun

/-- A section that goes on without a comma has come to a name, and so to another token than before: a
declaration that starts at a name takes it. -/
theorem entry_steady {decl : Parser α}
    (inner : ∀ r, Steady (past (·.kind = .identifier) r) decl r fun _ _ => True)
    (between : Place) (before : List α) (r : List Token) :
    Steady r (entry cx decl between before) r fun next r' =>
      ∀ all, next = .yield all → r'.length < r.length := by
  apply (declaration_steady (inner r) before).reach.bind
  intro all r' left taken
  apply (separator_steady between r').bind
  intro more r'' left' separated
  cases more with
  | false => exact .pure nofun
  | true =>
    apply Steady.pure
    intro _ _
    have shorter := left.length_le
    rcases separated rfl with comma | ⟨rfl, named⟩
    · omega
    · by_contra same
      -- nothing was taken, so the name at which the section goes on was there from the start
      obtain rfl := left.eq_of_length (by omega)
      have stuck := taken.length_le
      have moved := length_past_lt named
      omega

theorem section_productive {decl : Parser α}
    (inner : ∀ r, Steady (past (·.kind = .identifier) r) decl r fun _ _ => True) (between : Place) :
    Productive (entry cx decl between) fun before =>
      declaration decl before >>= repeatedly (nextDeclaration cx decl between) where
  unfolds before := by
    rw [entry, bind_assoc]
    refine bind_congr fun all => ?_
    rw [repeatedly_eq (Steady.progress (nextDeclaration_steady inner between)) (fun _ _ _ => rfl),
      nextDeclaration_eq, bind_assoc, bind_assoc]
    refine bind_congr fun more => ?_
    cases more with
    | true | false => simp
  advances := by
    rintro before all ⟨r, depth, log⟩ s' result
    obtain ⟨left, shorter⟩ := (entry_steady inner between before r).of_ok result
    exact .of_suffix left (shorter all rfl)

/-- A turn of the search for a landmark. -/
def skip (skips : Token → Bool) (_ : Unit) : Parser (ForInStep Unit) := do
  match ← accept skips with
  | some _ => return .yield ()
  | none => return .done ()

theorem skip_productive (skips : Token → Bool) :
    Productive (skip skips) fun _ => skipWhile skips where
  unfolds _ := by
    funext ⟨r, depth, log⟩
    cases r with
    | nil => simp [skip]
    | cons t ts =>
      cases skipped : skips t with
      | true => simp [skip, accept_cons_of_pos skipped, skipped]
      | false => simp [skip, accept_cons_of_neg skipped, skipped]
  advances := by
    rintro _ _ ⟨r, depth, log⟩ s' result
    cases r with
    | nil => simp [skip] at result
    | cons t ts =>
      cases skipped : skips t with
      | true =>
        obtain rfl : _ = s' := by simpa [skip, accept_cons_of_pos skipped] using result
        exact ⟨t, ts, rfl, List.suffix_refl ts⟩
      | false => simp [skip, accept_cons_of_neg skipped] at result

/-! ## Loops -/

/-- One more term of an expression that has `room` levels of nesting left. -/
abbrev nextTerm (cx : Context) (room : Nat) : Expr → Parser (Option Expr) :=
  link BinOp.additive? (term cx (parenthesised cx room))

/-- One more factor of a term that has `room` levels of nesting left. -/
abbrev nextFactor (cx : Context) (room : Nat) : Expr → Parser (Option Expr) :=
  link BinOp.multiplicative? (factor cx (parenthesised cx room))

/-- The loops of the grammar, each with its turn and the parser that repeats it. -/
inductive GrammarLoop (cx : Context) :
    {α : Type} → (α → Parser (ForInStep α)) → (α → Parser α) → Prop
  /-- The terms of an expression. -/
  | terms (room : Nat) :
      GrammarLoop cx (turnOf (nextTerm cx room)) (repeatedly (nextTerm cx room))
  /-- The factors of a term. -/
  | factors (room : Nat) :
      GrammarLoop cx (turnOf (nextFactor cx room)) (repeatedly (nextFactor cx room))
  /-- The statements between `begin` and `end`. -/
  | statements (room : Nat) :
      GrammarLoop cx (turnOf (nextStatement cx (statement cx room)))
        (repeatedly (nextStatement cx (statement cx room)))
  /-- The sections of a block. -/
  | sections (room : Nat) :
      GrammarLoop cx (turnOf (nextSection cx (block cx room)))
        (repeatedly (nextSection cx (block cx room)))
  /-- The constants of a section. -/
  | consts :
      GrammarLoop cx (entry cx (constDecl cx) .betweenConstants) fun before =>
        declaration (constDecl cx) before >>= repeatedly (nextDeclaration cx (constDecl cx) .betweenConstants)
  /-- The variables of a section. -/
  | vars :
      GrammarLoop cx (entry cx (varDecl cx) .betweenVariables) fun before =>
        declaration (varDecl cx) before >>= repeatedly (nextDeclaration cx (varDecl cx) .betweenVariables)
  /-- The search for a landmark behind a declaration that cannot be read. -/
  | landmarks :
      GrammarLoop cx (skip (!isLandmark ·)) fun _ => skipWhile (!isLandmark ·)

theorem parenthesised_steady (cx : Context) (room : Nat) (t : Token) (ts : List Token) :
    Steady (t :: ts) (parenthesised cx room t) (t :: ts) fun _ r' => r' <:+ ts := by
  cases room with
  | zero => exact .tooDeep
  | succ room => exact (parentheses_steady (expression_shortsighted cx room) t ts).reach

theorem GrammarLoop.productive {turn : α → Parser (ForInStep α)} {whole : α → Parser α}
    (loop : GrammarLoop cx turn whole) : Productive turn whole := by
  cases loop with
  | terms room =>
    refine .ofStep (link_steady fun r => ?_) fun _ _ _ => rfl
    exact (term_steady (parenthesised_steady cx room) r).forget
  | factors room =>
    refine .ofStep (link_steady fun r => ?_) fun _ _ _ => rfl
    exact (factor_steady (parenthesised_steady cx room) r).forget
  | statements room => exact .ofStep (nextStatement_steady (statement_steady cx room)) fun _ _ _ => rfl
  | sections room => exact .ofStep (nextSection_steady (block_steady cx room)) fun _ _ _ => rfl
  | consts => exact section_productive constDecl_steady .betweenConstants
  | vars => exact section_productive varDecl_steady .betweenVariables
  | landmarks => exact skip_productive _

/-! ## Levels of nesting -/

theorem not_overflow_of_cut {β : Type} {n : Nat} {p : Parser α} {r : List Token} (cut : Cut n p p r)
    (fits : r.length < n) (f : α → β) (depth : Nat) (log : Log) :
    ¬ Overflow ((f <$> p) ⟨r, depth, log⟩) := by
  have within := (cut depth log).fits fits
  rw [map_apply]
  cases run : p ⟨r, depth, log⟩ with
  | ok | error =>
    rw [run] at within
    exact within

/-- A program never ends because of nesting: if its block does, that is caught. -/
theorem not_overflow_program (cx : Context) (room : Nat) (s : State) :
    ¬ Overflow ((Tree.program <$> program cx room) s) := by
  obtain ⟨r, depth, log⟩ := s
  rw [map_apply, program_apply]
  cases closedBlock cx room ⟨r, depth, log⟩ with
  | ok b s => exact id
  | error h s =>
    cases h with
    | malformed | tooDeep | unreadable | blankLimit => exact id

/-- Every level has a token of its own, but for two: those of a block and of its statement. -/
theorem not_overflow_of_le (cx : Context) (p : Production) {room : Nat} {s : State}
    (enough : s.rest.length + 2 ≤ room) : ¬ Overflow (p.parser cx room s) := by
  obtain ⟨r, depth, log⟩ := s
  change r.length + 2 ≤ room at enough
  -- a production is compared with itself, so the context keeps its limit
  have expressions : ∀ r, Cut (room + 1) (expression cx room) (expression cx room) r :=
    expression_cut cx cx.limits.maxNesting (Nat.le_refl room)
  have statements : Cut room (statement cx room) (statement cx room) r :=
    statement_cut cx cx.limits.maxNesting (Nat.le_refl room) r
  have blocks : Cut (room - 1) (block cx room) (block cx room) r :=
    block_cut cx cx.limits.maxNesting (Nat.le_refl room) r
  cases p with
  | program => exact not_overflow_program cx room _
  | block => exact not_overflow_of_cut blocks (by omega) _ depth log
  | statement => exact not_overflow_of_cut statements (by omega) _ depth log
  | condition => exact not_overflow_of_cut (condition_cut expressions r) (by omega) _ depth log
  | expression => exact not_overflow_of_cut (expressions r) (by omega) _ depth log
  | constDecl => exact not_overflow_of_cut (constDecl_cut r) (Nat.lt_succ_self _) _ depth log
  | varDecl => exact not_overflow_of_cut (varDecl_cut r) (Nat.lt_succ_self _) _ depth log

/-! ## Progress -/

/-- A statement and an expression that are read take nothing if and only if the input is at its end or the
first token is of the sort that is left to others.  Every turn of a loop that goes on has taken a token,
and so the loop ends by itself after no more turns than there are tokens, as it does with the bound on its
turns.  With room for two levels more than there are tokens no production ends because of nesting, so none
of them calls itself without end. -/
theorem progress_throughout (cx : Context) :
    (∀ room s e s', statement cx room s = .ok e s' → s'.rest <:+ s.rest ∧
      (s'.rest = s.rest ↔ ∀ t ∈ s.rest.head?,
        t.isDelimiter ";" ∨ t.isDelimiter "." ∨ t.isKeyword "end" ∨ t.isElse)) ∧
    (∀ room s e s', expression cx room s = .ok e s' → s'.rest <:+ s.rest ∧
      (s'.rest = s.rest ↔ ∀ t ∈ s.rest.head?,
        ¬ (t.kind = .identifier ∨ t.kind = .integer ∨ t.kind = .unknown ∨ t.isDelimiter "(" ∨
          t.isOperator "+" ∨ t.isOperator "-" ∨ t.isOperator "*" ∨ t.isOperator "/"))) ∧
    (∀ (α : Type) (turn : α → Parser (ForInStep α)) (whole : α → Parser α), GrammarLoop cx turn whole →
      ∀ a s, (∀ b s', turn a s = .ok (.yield b) s' → Advances s.rest s'.rest) ∧
        ∃ turns ≤ s.rest.length, LoopEnds turn a s turns (whole a s)) ∧
    ∀ (p : Production) room s, s.rest.length + 2 ≤ room → ¬ Overflow (p.parser cx room s) := by
  refine ⟨?_, ?_, ?_, fun p _ _ enough => not_overflow_of_le cx p enough⟩
  · intro room s e s' result
    obtain ⟨left, consumes⟩ := (statement_steady cx room s.rest).of_ok result
    refine ⟨left, consumes.eq_iff.trans ?_⟩
    grind [followsStatement]
  · intro room s e s' result
    obtain ⟨left, consumes⟩ := (expression_steady cx room s.rest).of_ok result
    refine ⟨left, consumes.eq_iff.trans ?_⟩
    grind [entersExpression, entersFactor]
  · intro α turn whole loop a s
    exact ⟨fun b s' => loop.productive.advances a b s s', loop.productive.ends a s⟩

/-- A statement leaves the word `else`, an expression takes an operator that has nothing on its left, and a
row of variables goes on where a comma is missing. -/
theorem progress_throughout_at_hard_tokens :
    let cx : Context := ⟨{}, .nowhere⟩
    let other : State := { rest := [⟨.identifier, "else", .nowhere⟩] }
    let star : State := { rest := [⟨.operator, "*", .nowhere⟩, ⟨.keyword, "end", .nowhere⟩] }
    let row : State := { rest := [⟨.identifier, "x", .nowhere⟩, ⟨.identifier, "y", .nowhere⟩] }
    (∃ e s', statement cx 1 other = .ok e s' ∧ s'.rest = other.rest) ∧
      (∃ e s', expression cx 0 star = .ok e s' ∧ s'.rest ≠ star.rest) ∧
      ∃ b s', entry cx (varDecl cx) .betweenVariables [] row = .ok (.yield b) s' ∧
        Advances row.rest s'.rest := by
  intro cx other star row
  obtain ⟨statements, expressions, loops, -⟩ := progress_throughout cx
  refine ⟨⟨_, _, rfl, ?_⟩, ⟨_, _, rfl, ?_⟩, ⟨_, _, rfl, ?_⟩⟩
  · exact (statements 1 other _ _ rfl).2.mpr (by simp [other, Token.isElse])
  · intro same
    have left := (expressions 0 star _ _ rfl).2.mp same
    simp [star, Token.isOperator] at left
  · exact (loops _ _ _ .vars [] row).1 _ _ rfl

end Parser

end PlZero

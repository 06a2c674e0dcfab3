import PlZero.Proofs.Nesting.Cutoff
import PlZero.Proofs.Parser.Outcome

/-! # Complaints are paid for with tokens

A complaint need not take a token, and several can be made at one place: all that is open there may want to
be closed.  But every construct that can complain has taken a token of its own before, so the number of
complaints is at most a multiple of the number of tokens taken, and a constant.  `Within rate extra` is that
bound, and each production has a rate and an extra of its own:

* an expression and a declaration complain once for each token, and once more if there is nothing to read;
* a condition can complain twice for each token, because of the relation that may be missing;
* a statement complains up to three times for each token, but never if it takes none, and always one time
  less than that.  So the semicolon that may be missing before it is paid for as well;
* a block has a rate of three.
-/

namespace PlZero

namespace Parser

variable {α β : Type} {T : Token → Prop} {cx : Context} {r ts : List Token} {t : Token}

/-! ## Bounds -/

/-- At most `rate` complaints for each token taken, and `extra` besides. -/
def Within (rate extra : Nat) : Outcome α := fun _ taken ds => ds.length ≤ rate * taken.length + extra

namespace Ends

variable {p : Parser α} {rate extra c : Nat}

theorem within_mono {rate' : Nat} (ends : Ends T p r (Within rate c)) (rates : rate ≤ rate')
    (extras : c ≤ extra) : Ends T p r (Within rate' extra) := by
  refine ends.mono fun o taken ds within => ?_
  have dearer := Nat.mul_le_mul_right taken.length rates
  simp only [Within] at within ⊢
  omega

/-- A token that is taken pays for what comes next. -/
theorem within_cons (ends : Ends T p ts (Within rate (rate + extra))) :
    Ends T p ts fun o more ds => Within rate extra o (t :: more) ds := by
  refine ends.mono fun o more ds within => ?_
  simp only [Within, List.length_cons, Nat.mul_succ] at within ⊢
  omega

/-- A complaint has to be paid for. -/
theorem within_report_bind {wanted : Wanted} {place : Place} {recovery : Recovery} {f : Unit → Parser α}
    (ends : Ends T (f ()) r (Within rate extra)) :
    Ends T (Parser.report cx wanted place recovery >>= f) r (Within rate (extra + 1)) := by
  refine report_bind (ends.mono fun o more ds within => ?_)
  simp only [Within, List.length_cons] at within ⊢
  omega

/-- The second parser can spend what the first one leaves. -/
theorem within_bind {f : α → Parser β} (first : Ends T p r (Within rate c)) (le : c ≤ extra)
    (second : ∀ a r', Ends T (f a) r' (Within rate (extra - c))) :
    Ends T (p >>= f) r (Within rate extra) := by
  apply first.bind
  · intro taken ds within
    simp only [Within] at within ⊢
    omega
  · intro a taken ds r' within
    refine (second a r').mono fun o more es within' => ?_
    simp only [Within, List.length_append, Nat.mul_add] at within within' ⊢
    omega

theorem within_map {f : α → β} (ends : Ends T p r (Within rate c)) :
    Ends T (do return f (← p)) r (Within rate c) := ends.map fun _ _ _ => id

theorem within_pure {a : α} : Ends T (pure a) r (Within rate extra) := .pure (Nat.zero_le _)

/-- In a loop every turn pays for itself. -/
theorem within_repeatedly {step : α → Parser (Option α)}
    (turn : ∀ a r, Ends T (step a) r (Turned (Within rate 0) [] [])) (a : α) (r : List Token) :
    Ends T (Parser.repeatedly step a) r (Within rate 0) := by
  have paid : ∀ a before ds r, Within rate 0 (some a) before ds →
      Ends T (step a) r (Turned (Within rate 0) before ds) := by
    intro a before ds r known
    refine (turn a r).mono fun o more es turned => ?_
    match o with
    | some none => exact turned
    | some (some b) | none =>
      simp only [Turned, Within, List.length_append, List.nil_append, Nat.mul_add] at known turned ⊢
      omega
  have begun : Within rate 0 (some a) [] [] := Nat.zero_le _
  exact repeatedly paid begun r

theorem within_require {accepts : Token → Bool} {symbol : String} {place : Place} :
    Ends T (Parser.require cx accepts symbol place) r (Within rate 1) := by
  refine require.mono ?_
  rintro o taken ds ⟨_, ⟨t, rfl, rfl⟩ | ⟨rfl, rfl⟩⟩
  · exact Nat.zero_le _
  · simp [Within]

theorem within_integerValue : Ends T (Parser.integerValue cx t) r (Within rate 1) := by
  refine integerValue.mono ?_
  rintro o taken ds ⟨rfl, ⟨rfl, _⟩ | ⟨rfl, _⟩⟩
  · exact Nat.zero_le _
  · simp [Within]

end Ends

/-! ## Expressions -/

/-- An expression that has taken nothing is missing, with one complaint, and otherwise there is at most one
complaint for each token and one more. -/
def Operand : Outcome Expr := fun o taken ds =>
  Within 1 1 o taken ds ∧ ∀ e ∈ o, taken = [] → e.isMissing = true

section Expressions

variable {expr : Parser Expr} {parenthesised : Token → Parser Expr}

theorem operand_within (inner : ∀ r, Ends T expr r Operand) (r : List Token) :
    Ends T expr r (Within 1 1) := (inner r).mono fun _ _ _ => And.left

/-- What has taken a token is no missing operand. -/
theorem operand_cons {p : Parser Expr} (ends : Ends T p ts (Within 1 2)) :
    Ends T p ts fun o more ds => Operand o (t :: more) ds := by
  have paid : Ends T p ts fun o more ds => Within 1 1 o (t :: more) ds := ends.within_cons
  exact paid.mono fun o more ds within => ⟨within, fun e _ nothing => by cases nothing⟩

theorem factor_within (inner : ∀ t ts, Ends T (parenthesised t) (t :: ts) Operand) (r : List Token) :
    Ends T (factor cx parenthesised) r Operand := by
  apply Ends.peek_bind
  · intro _
    exact .report_bind (.pure ⟨Nat.le_refl 1, by simp [Expr.isMissing]⟩)
  intro t ts _ _
  apply Ends.ite
  · intro _
    exact .advance_bind (operand_cons .within_pure)
  intro _
  apply Ends.ite
  · intro _
    have value : Ends T (do return Expr.integer (← integerValue cx t) t.loc) ts (Within 1 1) :=
      Ends.within_integerValue.within_map
    exact .advance_bind (operand_cons (value.within_mono (Nat.le_refl 1) (Nat.le_succ 1)))
  intro _
  apply Ends.ite
  · intro _
    exact inner t ts
  intro _
  apply Ends.ite
  · intro _
    exact .report_bind (.advance_bind (.pure ⟨by simp [Within], by simp⟩))
  · intro _
    exact .report_bind (.pure ⟨Nat.le_refl 1, by simp [Expr.isMissing]⟩)

/-- A token in front, such as a sign, makes the bound no worse. -/
theorem Operand.behind {o o' : Option Expr} {taken : List Token} {ds : List Diagnostic}
    (known : Operand o taken ds) (t : Token) : Operand o' (t :: taken) ds := by
  refine ⟨?_, fun e _ nothing => by cases nothing⟩
  have within := known.1
  simp only [Within, List.length_cons] at within ⊢
  omega

/-- A further operand is paid for with its operator. -/
theorem Operand.further {o o' o'' : Option Expr} {before more : List Token} {ds es : List Diagnostic}
    (left : Operand o before ds) (right : Operand o' more es) (t : Token) :
    Operand o'' (before ++ t :: more) (ds ++ es) := by
  refine ⟨?_, fun e _ nothing => by simp at nothing⟩
  have first := left.1
  have second := right.1
  simp only [Within, List.length_append, List.length_cons] at first second ⊢
  omega

theorem link_within (op? : Token → Option BinOp) (operand : ∀ r, Ends T expr r Operand) (left : Expr)
    (before : List Token) (ds : List Diagnostic) (r : List Token) (known : Operand (some left) before ds) :
    Ends T (link op? expr left) r (Ends.Turned Operand before ds) := by
  apply Ends.acceptAs_bind
  · intro t op ts _ _ _
    refine (operand ts).map fun o more es right => ?_
    cases o with
    | none | some => exact known.further right t
  · intro _
    exact .pure ⟨rfl, rfl⟩

theorem term_within (inner : ∀ t ts, Ends T (parenthesised t) (t :: ts) Operand) (r : List Token) :
    Ends T (term cx parenthesised) r Operand := by
  apply (factor_within inner r).bind
  · intro taken ds stopped
    exact stopped
  · intro first taken ds r' known
    exact .repeatedly (link_within _ (factor_within inner)) known r'

theorem sum_within (inner : ∀ t ts, Ends T (parenthesised t) (t :: ts) Operand) (r : List Token) :
    Ends T (sum cx parenthesised) r Operand := by
  apply Ends.acceptAs_bind
  · intro t sign ts _ _ _
    apply (term_within inner ts).bind
    · intro taken ds stopped
      exact stopped.behind t
    · intro first taken ds r' known
      exact .repeatedly (link_within _ (term_within inner)) (known.behind t) r'
  · intro _
    apply (term_within inner r).bind
    · intro taken ds stopped
      exact stopped
    · intro first taken ds r' known
      exact .repeatedly (link_within _ (term_within inner)) known r'

theorem parentheses_within (inner : ∀ r, Ends T expr r Operand) (t : Token) (ts : List Token) :
    Ends T (parentheses cx expr t) (t :: ts) Operand := by
  apply Ends.deeper
  apply Ends.advance_bind
  apply operand_cons
  apply (operand_within inner ts).within_bind (Nat.le_succ 1)
  intro e r'
  exact Ends.within_require.within_bind (Nat.le_refl 1) fun _ _ => .within_pure

/-- The missing relation is complained about only behind an operand that is there, so it is paid for with a
token of that operand. -/
theorem condition_within (inner : ∀ r, Ends T expr r Operand) (r : List Token) :
    Ends T (condition cx expr) r (Within 2 1) := by
  have operand : ∀ r, Ends T expr r (Within 2 1) := fun r =>
    (operand_within inner r).within_mono (Nat.le_succ 1) (Nat.le_refl 1)
  apply Ends.accept_bind
  · intro t ts _ _ _
    exact ((operand ts).within_map.within_mono (Nat.le_refl 2) (by decide)).within_cons
  intro _
  apply Ends.here_bind
  apply (inner r).bind
  · intro taken ds stopped
    have within := stopped.1
    simp only [Within] at within ⊢
    omega
  intro left taken ds r' known
  have within := known.1
  apply Ends.acceptAs_bind
  · intro t op ts _ _ _
    refine (operand ts).within_map.mono fun o more es within' => ?_
    simp only [Within, List.length_append, List.length_cons] at within within' ⊢
    omega
  intro _
  cases missing : left.isMissing with
  | true =>
    refine .pure ?_
    simp only [Within, List.append_nil] at within ⊢
    omega
  | false =>
    have nonempty : taken ≠ [] := by
      intro nothing
      rw [known.2 left rfl nothing] at missing
      cases missing
    have positive := List.length_pos_iff.mpr nonempty
    refine .report_bind (.pure ?_)
    simp only [Within, List.append_nil, List.length_append, List.length_singleton] at within ⊢
    omega

end Expressions

theorem expression_within (room : Nat) (r : List Token) : Ends T (expression cx room) r Operand := by
  induction room generalizing r with
  | zero => exact sum_within (fun t ts => .tooDeep ⟨Nat.zero_le _, nofun⟩) r
  | succ room ih => exact sum_within (parentheses_within ih) r

/-! ## Statements -/

/-- A statement at the tokens `r` complains less than three times for each of its tokens, and not at all
without tokens.  If the first token can start a statement, it takes that. -/
def Sentence (r : List Token) : Outcome Stmt := fun o taken ds =>
  ds.length ≤ 3 * taken.length - 1 ∧ ∀ t ∈ r.head?, startsStatement t = true → o.isSome → taken ≠ []

/-- Statements in a row.  A complaint about a semicolon is not paid for until the statement behind it is
read, and it is left over if that is given up at once. -/
def Sentences : Outcome (List Stmt)
  | some _, taken, ds => ds.length ≤ 3 * taken.length
  | none, taken, ds => ds.length ≤ 3 * taken.length + 1

section Statements

variable {expr : Parser Expr} {stmt : Parser Stmt}

/-- The first token of a statement pays for two complaints. -/
theorem sentence_cons {p : Parser Stmt} (ends : Ends T p ts (Within 3 2)) :
    Ends T p ts fun o more ds => Sentence (t :: ts) o (t :: more) ds := by
  refine ends.mono fun o more ds within => ⟨?_, fun _ _ _ _ => List.cons_ne_nil t more⟩
  simp only [Within, List.length_cons] at within ⊢
  omega

theorem sentence_within (inner : ∀ r, Ends T stmt r (Sentence r)) (r : List Token) :
    Ends T stmt r (Within 3 0) := by
  refine (inner r).mono fun o taken ds sentence => ?_
  have less := sentence.1
  simp only [Within]
  omega

theorem assigned_within (inner : ∀ r, Ends T expr r Operand) (name : String) (loc : Location)
    (r : List Token) : Ends T (assigned expr name loc) r (Within 3 1) :=
  (operand_within inner r).within_map.within_mono (by decide) (Nat.le_refl 1)

theorem assignment_within (inner : ∀ r, Ends T expr r Operand) (t : Token) (ts : List Token) :
    Ends T (assignment cx expr t) (t :: ts) (Sentence (t :: ts)) := by
  have value := assigned_within inner t.lexeme t.loc
  apply Ends.advance_bind
  apply sentence_cons
  apply Ends.accept_bind
  · intro sign ts' _ _ _
    exact ((value ts').within_mono (Nat.le_refl 3) (by decide)).within_cons
  intro _
  apply Ends.peek_bind
  · intro _
    exact .within_report_bind .within_pure
  intro next ts' _ _
  apply Ends.ite
  · intro _
    apply Ends.within_report_bind
    exact .advance_bind ((value ts').within_mono (Nat.le_refl 3) (by decide)).within_cons
  intro _
  apply Ends.ite
  · intro _
    exact (value (next :: ts')).within_report_bind
  · intro _
    exact .within_report_bind .within_pure

theorem named_within (build : String → Location → Stmt) (t : Token) (ts : List Token) :
    Ends T (named cx build t) (t :: ts) (Sentence (t :: ts)) := by
  apply Ends.advance_bind
  apply sentence_cons
  apply Ends.accept_bind
  · intro name ts' _ _ _
    exact Ends.within_pure.within_cons
  · intro _
    exact .within_report_bind .within_pure

theorem nextStatement_within (inner : ∀ r, Ends T stmt r (Sentence r)) (all : List Stmt)
    (before : List Token) (ds : List Diagnostic) (r : List Token)
    (known : Sentences (some all) before ds) :
    Ends T (nextStatement cx stmt all) r (Ends.Turned Sentences before ds) := by
  have paid : ds.length ≤ 3 * before.length := known
  apply Ends.accept_bind
  · intro t ts _ _ _
    refine (inner ts).map fun o more es sentence => ?_
    have less := sentence.1
    cases o with
    | none | some =>
      simp only [Option.map, Ends.Turned, Sentences, List.length_append, List.length_cons]
      omega
  intro _
  apply Ends.peek_bind
  · intro _
    exact .pure ⟨rfl, rfl⟩
  intro t ts _ _
  apply Ends.ite
  · intro starts
    apply Ends.report_bind
    refine (inner (t :: ts)).map fun o more es sentence => ?_
    have less := sentence.1
    cases o with
    | none =>
      simp only [Option.map, Ends.Turned, Sentences, List.length_append, List.length_cons]
      omega
    | some s =>
      -- the statement takes its first token, which pays for the semicolon
      have positive := List.length_pos_iff.mpr (sentence.2 t rfl starts rfl)
      simp only [Option.map, Ends.Turned, Sentences, List.length_append, List.length_cons]
      omega
  · intro _
    exact .pure ⟨rfl, rfl⟩

theorem compound_within (inner : ∀ r, Ends T stmt r (Sentence r)) (t : Token) (ts : List Token) :
    Ends T (compound cx stmt t) (t :: ts) (Sentence (t :: ts)) := by
  apply Ends.advance_bind
  apply sentence_cons
  apply (inner ts).bind
  · intro taken ds sentence
    have less := sentence.1
    simp only [Within]
    omega
  intro first taken ds r sentence
  have begun : Sentences (some [first]) taken ds := by
    have less := sentence.1
    simp only [Sentences]
    omega
  -- `begin` pays for a semicolon that is left over, and otherwise for an `end` that is missing
  apply (Ends.repeatedly (nextStatement_within inner) begun r).bind
  · intro more es stopped
    simp only [Sentences] at stopped
    simp only [Within]
    omega
  intro all more es r' known
  have closed : Ends T (do requireKeyword cx "end" (.closing "begin" t.loc); return Stmt.compound all t.loc)
      r' (Within 3 1) := Ends.within_require.within_map
  refine closed.mono fun o last fs within => ?_
  simp only [Sentences] at known
  simp only [Within, List.length_append] at known within ⊢
  omega

theorem branch_within (inner : ∀ r, Ends T expr r Operand) (innerStmt : ∀ r, Ends T stmt r (Sentence r))
    (t : Token) (ts : List Token) : Ends T (branch cx expr stmt t) (t :: ts) (Sentence (t :: ts)) := by
  have inside := sentence_within innerStmt
  apply Ends.advance_bind
  apply sentence_cons
  apply ((condition_within inner ts).within_mono (Nat.le_succ 2) (Nat.le_refl 1)).within_bind (Nat.le_succ 1)
  intro c r
  apply Ends.within_require.within_bind (Nat.le_refl 1)
  intro _ r'
  apply (inside r').within_bind (Nat.le_refl 0)
  intro yes r''
  apply Ends.accept_bind
  · intro word rest _ _ _
    exact ((inside rest).within_map.within_mono (Nat.le_refl 3) (Nat.zero_le 3)).within_cons
  · intro _
    exact .within_pure

theorem loop_within (inner : ∀ r, Ends T expr r Operand) (innerStmt : ∀ r, Ends T stmt r (Sentence r))
    (t : Token) (ts : List Token) : Ends T (loop cx expr stmt t) (t :: ts) (Sentence (t :: ts)) := by
  have inside := sentence_within innerStmt
  apply Ends.advance_bind
  apply sentence_cons
  apply ((condition_within inner ts).within_mono (Nat.le_succ 2) (Nat.le_refl 1)).within_bind (Nat.le_succ 1)
  intro c r
  apply Ends.within_require.within_bind (Nat.le_refl 1)
  intro _ r'
  exact (inside r').within_map

theorem statementBody_within (inner : ∀ r, Ends T expr r Operand)
    (innerStmt : ∀ r, Ends T stmt r (Sentence r)) (r : List Token) :
    Ends T (statementBody cx expr stmt) r (Sentence r) := by
  apply Ends.peek_bind
  · rintro rfl
    exact .pure ⟨Nat.le_refl 0, nofun⟩
  rintro t ts rfl _
  apply Ends.ite (fun _ => assignment_within inner t ts)
  intro noName
  apply Ends.ite (fun _ => named_within _ t ts)
  intro noCall
  apply Ends.ite (fun _ => named_within _ t ts)
  intro noRead
  apply Ends.ite (fun _ => named_within _ t ts)
  intro noWrite
  apply Ends.ite (fun _ => compound_within innerStmt t ts)
  intro noBegin
  apply Ends.ite (fun _ => branch_within inner innerStmt t ts)
  intro noIf
  apply Ends.ite (fun _ => loop_within inner innerStmt t ts)
  intro noWhile
  apply Ends.ite
  · intro _
    have elsewhere : startsStatement t = false := by simp_all [startsStatement]
    exact .pure ⟨Nat.le_refl 0, by simp [elsewhere]⟩
  · intro _
    exact .report_bind (.advance_bind (.pure ⟨by simp, by simp⟩))

end Statements

theorem statement_within (room : Nat) (r : List Token) : Ends T (statement cx room) r (Sentence r) := by
  induction room generalizing r with
  | zero => exact .tooDeep ⟨Nat.le_refl 0, fun _ _ _ given => by cases given⟩
  | succ room ih => exact .deeper (statementBody_within (expression_within room) ih r)

/-! ## Declarations -/

/-- A declaration complains once for each token, or once if there is nothing to read.  If a name comes
first, it takes that. -/
def Entry (r : List Token) : Outcome α := fun _ taken ds =>
  ds.length ≤ max 1 taken.length ∧ ∀ t ∈ r.head?, t.kind = .identifier → taken ≠ []

section Declarations

variable {decl : Parser α}

theorem entry_cons {p : Parser α} (ends : Ends T p ts (Within 1 1)) :
    Ends T p ts fun o more ds => Entry (t :: ts) o (t :: more) ds := by
  refine ends.mono fun o more ds within => ⟨?_, fun _ _ _ => List.cons_ne_nil t more⟩
  simp only [Within, List.length_cons] at within ⊢
  omega

/-- Without a name there is one complaint, and nothing is taken. -/
theorem entry_malformed {wanted : Wanted} {place : Place}
    (missing : ∀ t ∈ r.head?, decide (t.kind = .identifier) = false) :
    Ends T (malformed cx wanted place : Parser α) r (Entry r) := by
  refine .malformed ⟨Nat.le_refl 1, ?_⟩
  intro t first identifier
  simpa [identifier] using missing t first

theorem constSign_within (name : String) (r : List Token) :
    Ends T (constSign cx name) r fun o taken ds => ds.length ≤ 1 ∧ (o.isSome → taken ≠ []) := by
  apply Ends.accept_bind
  · intro t ts _ _ _
    exact .pure ⟨Nat.zero_le 1, fun _ => List.cons_ne_nil t []⟩
  intro _
  apply Ends.peek_bind
  · intro _
    exact .malformed ⟨Nat.le_refl 1, nofun⟩
  intro t ts _ _
  apply Ends.ite
  · intro _
    apply Ends.report_bind
    exact .take (fun _ _ => rfl) (Ends.pure ⟨Nat.le_refl 1, fun _ => List.cons_ne_nil t []⟩)
  · intro _
    exact .malformed ⟨Nat.le_refl 1, nofun⟩

/-- A sign and a number pay for the complaints about them. -/
theorem constDecl_within (r : List Token) : Ends T (constDecl cx) r (Entry r) := by
  apply Ends.accept_bind
  · rintro name ts rfl _ _
    apply entry_cons
    apply (constSign_within name.lexeme ts).bind
    · intro taken ds sign
      have once := sign.1
      simp only [Within]
      omega
    intro _ taken ds r' sign
    have once := sign.1
    have positive := List.length_pos_iff.mpr (sign.2 rfl)
    apply Ends.accept_bind
    · intro number ts' _ _ _
      have value : Ends T (do return (⟨name.lexeme, ← integerValue cx number, name.loc⟩ : ConstDecl)) ts'
        (Within 1 1) := Ends.within_integerValue.within_map
      refine value.mono fun o more es within => ?_
      simp only [Within, List.length_append, List.length_cons] at within ⊢
      omega
    · intro _
      refine .malformed ?_
      simp only [Within, List.length_append, List.length_nil, List.length_singleton]
      omega
  · exact entry_malformed

theorem varDecl_within (r : List Token) : Ends T (varDecl cx) r (Entry r) := by
  apply Ends.accept_bind
  · rintro name ts rfl _ _
    exact entry_cons .within_pure
  · exact entry_malformed

theorem declaration_within (inner : ∀ r, Ends T decl r (Entry r)) (before : List α) (r : List Token) :
    Ends T (declaration decl before) r (Entry r) := by
  apply (inner r).declaration
  · intro a taken ds entry
    exact entry
  · intro taken ds entry
    refine ⟨entry, fun skipped => ⟨?_, fun t first identifier => ?_⟩⟩
    · have bound := entry.1
      simp only [List.length_append]
      omega
    · exact List.append_ne_nil_of_left_ne_nil (entry.2 t first identifier) skipped

/-- The name before which a comma is missing pays for it. -/
theorem nextDeclaration_within (inner : ∀ r, Ends T decl r (Entry r)) (between : Place) (all : List α)
    (r : List Token) :
    Ends T (nextDeclaration cx decl between all) r (Ends.Turned (Within 2 0) [] []) := by
  have next := declaration_within inner all
  apply Ends.accept_bind
  · intro t ts _ _ _
    refine (next ts).map fun o more es entry => ?_
    have bound := entry.1
    cases o with
    | none | some =>
      simp only [Option.map, Ends.Turned, Within, List.nil_append, List.length_cons]
      omega
  intro _
  apply Ends.peek_bind
  · intro _
    exact .pure ⟨rfl, rfl⟩
  intro t ts _ _
  apply Ends.ite
  · intro identifier
    apply Ends.report_bind
    refine (next (t :: ts)).map fun o more es entry => ?_
    have bound := entry.1
    have positive := List.length_pos_iff.mpr (entry.2 t rfl identifier)
    cases o with
    | none | some =>
      simp only [Option.map, Ends.Turned, Within, List.nil_append, List.length_cons]
      omega
  · intro _
    exact .pure ⟨rfl, rfl⟩

theorem declarations_within (inner : ∀ r, Ends T decl r (Entry r)) (between behind : Place)
    (r : List Token) : Ends T (declarations cx decl between behind) r (Within 2 2) := by
  have first : Ends T (declaration decl []) r (Within 2 1) := by
    refine (declaration_within inner [] r).mono fun o taken ds entry => ?_
    have bound := entry.1
    simp only [Within]
    omega
  apply first.within_bind (Nat.le_succ 1)
  intro all r'
  apply (Ends.within_repeatedly (nextDeclaration_within inner between) all r').within_bind (Nat.zero_le 1)
  intro all r''
  exact Ends.within_require.within_map

end Declarations

/-! ## Blocks -/

section Blocks

variable {block : Parser Block} {stmt : Parser Stmt}

/-- A procedure behind its name, where two semicolons can be missing. -/
theorem procedureBody_within (inner : ∀ r, Ends T block r (Within 3 0)) (f : Block → List Procedure)
    (r : List Token) :
    Ends T (do
      requireDelimiter cx ";" .afterProcedureHeader
      let b ← block
      requireDelimiter cx ";" .afterProcedureBody
      return f b) r (Within 3 2) := by
  apply Ends.within_require.within_bind (Nat.le_succ 1)
  intro _ r'
  apply (inner r').within_bind (Nat.zero_le 1)
  intro b r''
  exact Ends.within_require.within_map

theorem procedure_within (inner : ∀ r, Ends T block r (Within 3 0)) (t : Token) (r : List Token) :
    Ends T (procedure cx block t) r (Within 3 3) := by
  apply Ends.accept_bind
  · intro name ts _ _ _
    apply Ends.within_cons
    apply Ends.within_mono _ (Nat.le_refl 3) (show 2 ≤ 3 + 3 by decide)
    exact procedureBody_within inner (fun b => [⟨name.lexeme, b, t.loc⟩]) ts
  · intro _
    exact (procedureBody_within inner (fun _ => []) r).within_report_bind

/-- Only a section that is no procedure can be out of order. -/
theorem checkOrder_within (last : Option Section) (s : Section) (t : Token) (r : List Token) :
    Ends T (checkOrder last s t) r fun o taken ds =>
      o.isSome ∧ taken = [] ∧ ds.length ≤ if s = .procedure then 0 else 1 := by
  cases last with
  | none => exact .pure ⟨rfl, rfl, Nat.zero_le _⟩
  | some l =>
    apply Ends.ite
    · intro _
      exact .pure ⟨rfl, rfl, Nat.zero_le _⟩
    · intro unordered
      have noProcedure : s ≠ .procedure := by
        rintro rfl
        simp at unordered
      exact .record ⟨rfl, rfl, by simp [noProcedure]⟩

/-- A section is paid for with its keyword. -/
theorem nextSection_within (inner : ∀ r, Ends T block r (Within 3 0)) (d : Declared) (r : List Token) :
    Ends T (nextSection cx block d) r (Ends.Turned (Within 3 0) [] []) := by
  -- what is read behind the keyword `t`, with the complaints `ds` about the order
  have turned : ∀ {β : Type} {p : Parser β} {f : β → Declared} {rate extra : Nat} {ds : List Diagnostic}
      (t : Token) {r}, rate ≤ 3 → ds.length + extra ≤ 3 → Ends T p r (Within rate extra) →
      Ends T (do return some (f (← p))) r fun o more es =>
        Ends.Turned (Within 3 0) [] [] o (t :: ([] ++ more)) (ds ++ es) := by
    intro β p f rate extra ds t r rates extras ends
    refine (ends.within_mono rates (Nat.le_refl extra)).map fun o more es within => ?_
    cases o with
    | none | some =>
      simp only [Option.map, Ends.Turned, Within, List.nil_append, List.length_append,
        List.length_cons] at within ⊢
      omega
  apply Ends.acceptAs_bind
  · intro t s ts _ _ _
    apply (checkOrder_within d.last s t ts).bind
    · rintro taken ds ⟨impossible, _⟩
      cases impossible
    rintro _ taken ds r' ⟨_, rfl, order⟩
    cases s with
    | const =>
      have once : ds.length ≤ 1 := order
      exact turned t (by decide) (by omega) (declarations_within constDecl_within _ _ r')
    | var =>
      have once : ds.length ≤ 1 := order
      exact turned t (by decide) (by omega) (declarations_within varDecl_within _ _ r')
    | procedure =>
      have never : ds.length ≤ 0 := order
      exact turned t (by decide) (by omega) (procedure_within inner t r')
  · intro _
    exact .pure ⟨rfl, rfl⟩

theorem blockBody_within (inner : ∀ r, Ends T block r (Within 3 0))
    (innerStmt : ∀ r, Ends T stmt r (Sentence r)) (r : List Token) :
    Ends T (blockBody cx block stmt) r (Within 3 0) := by
  have inside := sentence_within innerStmt
  apply Ends.here_bind
  apply (Ends.within_repeatedly (nextSection_within inner) {} r).within_bind (Nat.le_refl 0)
  intro d r'
  exact (inside r').within_map

end Blocks

theorem block_within (room : Nat) (r : List Token) : Ends T (block cx room) r (Within 3 0) := by
  induction room generalizing r with
  | zero => exact .tooDeep (Nat.zero_le _)
  | succ room ih => exact .deeper (blockBody_within ih (statement_within room) r)

/-! ## Programs -/

/-- The period is asked for only behind a block that was not given up. -/
theorem closedBlock_within (cx : Context) (room : Nat) (r : List Token) :
    Ends T (closedBlock cx room) r fun o taken ds =>
      ds.length ≤ 3 * taken.length + if o.isSome then 1 else 0 := by
  apply (block_within room r).bind
  · intro taken ds within
    exact within
  intro b taken ds r' within
  apply Ends.require.bind_pure
  · rintro more es ⟨impossible, _⟩
    cases impossible
  rintro _ more es ⟨_, ⟨t, rfl, rfl⟩ | ⟨rfl, rfl⟩⟩
  · simp only [Within, List.length_append, List.length_singleton, List.length_nil] at within ⊢
    omega
  · simpa [Within] using within

theorem length_trailing_le_length (left : List Token) : (trailing left).length ≤ left.length := by
  cases left with
  | nil => exact Nat.le_refl 0
  | cons t ts => exact Nat.le_add_left 1 ts.length

end Parser

open PlZero.Parser in
/-- Whatever tokens there are, and whether or not the program is given up, there are at most three
diagnostics for each token and one more. -/
theorem length_diagnostics_le (limit nesting : Int) (file : String) (ts : List Token)
    (readable : ∀ t ∈ ts, t.Readable) :
    ∃ p log, parseTokens ⟨.number limit, nesting⟩ file ts = .ok (p, log) ∧
      log.entries.length ≤ 3 * ts.length + 1 := by
  have ends := closedBlock_within (.ofTokens ⟨.number limit, nesting⟩ file ts) nesting.toNat ts readable 0 {}
  obtain ⟨b, s, run, _, parsed⟩ | ⟨s, run, _, parsed⟩ :=
    blockRun_cases limit nesting file readable rfl
  · rw [blockRun] at run
    rw [run] at ends
    obtain ⟨taken, ds, split, added, within⟩ := ends
    change ts = taken ++ s.rest at split
    change s.log.entries = [] ++ ds at added
    change ds.length ≤ 3 * taken.length + 1 at within
    -- what is left behind the program pays for the warning about it
    have behind := length_trailing_le_length s.rest
    refine ⟨_, _, parsed, ?_⟩
    rw [split, List.length_append, List.length_append, added, List.nil_append]
    omega
  · rw [blockRun] at run
    rw [run] at ends
    obtain ⟨taken, ds, split, added, within⟩ := ends
    change ts = taken ++ s.rest at split
    change s.log.entries = [] ++ ds at added
    change ds.length ≤ 3 * taken.length at within
    refine ⟨_, _, parsed, ?_⟩
    rw [split, List.length_append, Log.entries_add, List.length_append, added, List.nil_append,
      List.length_singleton]
    omega

/-- Two keywords of procedures without names, and nothing behind them.  Each of the two lacks a name, a
semicolon behind the header and one behind the body, and at the end the period is missing: no tokens come
to more. -/
theorem length_diagnostics_le_attained :
    let ts : List Token := [⟨.keyword, "procedure", .nowhere⟩, ⟨.keyword, "procedure", .nowhere⟩]
    (∀ t ∈ ts, t.Readable) ∧
      (∃ p log, parseTokens ⟨.number 9, 5⟩ "" ts = .ok (p, log) ∧
        log.entries.length ≤ 3 * ts.length + 1) ∧
      (parseTokens ⟨.number 9, 5⟩ "" ts).toOption.map (·.2.entries.length) = some (3 * ts.length + 1) := by
  intro ts
  have readable : ∀ t ∈ ts, t.Readable := by simp [ts, Token.Readable]
  exact ⟨readable, length_diagnostics_le 9 5 "" ts readable, by decide +kernel⟩

end PlZero

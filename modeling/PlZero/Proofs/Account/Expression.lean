import PlZero.Proofs.Parser.Trail
import PlZero.Proofs.Words

/-! # Accounts of expressions and conditions

Where all complaints are repairs, the parser of expressions gives a tree that the grammar derives,
whose words are those it has read, and which stays within the limits.  `Expr.Spelled` puts these
four facts together.  Chains of operators need no more than that: every turn of their loop keeps the
tree so far spelled.
-/

namespace PlZero

/-! ## Spelled trees -/

/-- An expression of a layer whose words are `ws` and which stays within the limits. -/
structure Expr.Spelled (limit : Int) (room : Nat) (layer : Expr.Layer) (e : Expr)
    (ws : List Word) : Prop where
  grammatical : e.Grammatical layer
  words : e.words = ws
  depth : e.depth ≤ room
  literals : ∀ v ∈ e.literals, v.AtMost limit

/-- A condition whose words are `ws` and which stays within the limits. -/
structure Condition.Spelled (limit : Int) (room : Nat) (c : Condition) (ws : List Word) : Prop where
  grammatical : c.Grammatical
  words : c.words = ws
  depth : c.depth ≤ room
  literals : ∀ v ∈ c.literals, v.AtMost limit

namespace Expr.Spelled

variable {limit : Int} {room : Nat} {l r e : Expr} {ws ws' : List Word}

theorem ofFactor (spelled : e.Spelled limit room .factor ws) : e.Spelled limit room .term ws :=
  { spelled with grammatical := .ofFactor spelled.grammatical }

theorem ofTerm (spelled : e.Spelled limit room .term ws) : e.Spelled limit room .sum ws :=
  { spelled with grammatical := .ofTerm spelled.grammatical }

/-- Two operands with an operator between them, if the grammar joins them so. -/
theorem binary {layer left right : Expr.Layer} (op : BinOp) (loc : Location)
    (joined : (Expr.binary op l r loc).Grammatical layer) (first : l.Spelled limit room left ws)
    (second : r.Spelled limit room right ws') :
    (Expr.binary op l r loc).Spelled limit room layer (ws ++ .operator op.symbol :: ws') where
  grammatical := joined
  words := by simp [Expr.words, first.words, second.words]
  depth := Nat.max_le.mpr ⟨first.depth, second.depth⟩
  literals := by
    intro v member
    rcases List.mem_append.mp member with inLeft | inRight
    · exact first.literals v inLeft
    · exact second.literals v inRight

theorem signed (s : Sign) (loc : Location) (spelled : e.Spelled limit room .term ws) :
    (Expr.signed s e loc).Spelled limit room .sum (.operator s.symbol :: ws) where
  grammatical := .signed spelled.grammatical
  words := by simp [Expr.words, spelled.words]
  depth := spelled.depth
  literals := spelled.literals

theorem group (loc : Location) (spelled : e.Spelled limit room .sum ws) :
    (Expr.group e loc).Spelled limit (room + 1) .factor
      (.delimiter "(" :: ws ++ [.delimiter ")"]) where
  grammatical := .group spelled.grammatical
  words := by simp [Expr.words, spelled.words]
  depth := Nat.succ_le_succ spelled.depth
  literals := spelled.literals

theorem not_isMissing {layer : Expr.Layer} (spelled : e.Spelled limit room layer ws) :
    e.isMissing = false := by
  cases e with
  | missing loc =>
    have grammatical := spelled.grammatical
    cases grammatical with
    | ofFactor factor => cases factor
    | ofTerm term =>
      cases term with
      | ofFactor factor => cases factor
  | _ => rfl

end Expr.Spelled

namespace Parser

variable {cx : Context} {limit : Int} {room : Nat}

/-! ## Expressions -/

/-- An integer token that is taken and read. -/
theorem Accounts.takeInteger {α : Type} {allowed : Halt → Prop} {p : Parser α} {t : Token}
    {ts : List Token} {f : Quantity → Parser α} {Q : α → List Word → List Token → Prop}
    (limited : cx.limits.maxInteger = .number limit) (integer : t.kind = .integer)
    (run : ∀ depth log, p ⟨t :: ts, depth, log⟩ = (integerValue cx t >>= f) ⟨ts, depth, log⟩)
    (account : ∀ v, Accounts cx allowed (f v) ts fun a ws r =>
      (∃ n : Nat, v = .number n ∧ (n : Int) ≤ limit ∧ t.word = .number v) → Q a (t.word :: ws) r) :
    Accounts cx allowed p (t :: ts) Q := by
  intro readable
  obtain ⟨n, _, text⟩ := Text.readInteger_stripZeros (readable t (by simp) integer)
  have value := integerValue_of_repr limited text.symm
  revert readable
  -- within the limit the token stands for its number; beyond it, it is taken under protest
  by_cases le : (n : Int) ≤ limit
  · have word : t.word = .number (.number n) := by
      simp [Token.word, integer, ← text, Word.number, Quantity.text_natCast]
    refine Accounts.take (q := f (.number n)) (fun depth log => ?_)
      ((account (.number n)).mono fun a ws r holds => holds ⟨n, rfl, le, word⟩)
    rw [run, value, if_pos le]
    rfl
  · refine Accounts.fault (q := f cx.limits.maxInteger) (fun depth log => ?_) .tooLarge
      (by simp [Diagnostic.Mendable, Complaint.tooLarge]) ((account _).mono fun _ _ _ _ => trivial)
    rw [run, value, if_neg le]
    rfl

theorem factor_accounts (limited : cx.limits.maxInteger = .number limit)
    {parenthesised : Token → Parser Expr}
    (inner : ∀ t ts, t.isDelimiter "(" = true →
      Accounts cx Halt.IsTooDeep (parenthesised t) (t :: ts) fun e ws _ =>
        e.Spelled limit room .factor ws)
    (r : List Token) : Accounts cx Halt.IsTooDeep (factor cx parenthesised) r fun e ws _ =>
      e.Spelled limit room .factor ws := by
  -- the cases are those of the parser, in its order
  cases r with
  | nil =>
    exact .lose .expression .anywhere .placeholder (fun _ _ => by simp [factor]) (by simp)
      (List.suffix_refl _) (.pure (a := Expr.missing cx.endLoc) trivial)
  | cons t ts =>
    by_cases identifier : t.kind = .identifier
    · refine .take (q := pure (Expr.name t.lexeme t.loc)) (fun _ _ => by simp [factor, identifier])
        (.pure ?_)
      rw [Token.word_eq_identifier_iff.mpr ⟨identifier, rfl⟩]
      exact ⟨.name, rfl, Nat.zero_le _, by simp [Expr.literals]⟩
    by_cases integer : t.kind = .integer
    · refine .takeInteger limited integer (f := fun v => pure (Expr.integer v t.loc))
        (fun _ _ => by simp [factor, integer]) fun v => .pure ?_
      rintro ⟨n, rfl, le, word⟩
      rw [word]
      exact ⟨.integer (Int.natCast_nonneg n), rfl, Nat.zero_le _,
        by simpa [Expr.literals, Quantity.AtMost] using le⟩
    by_cases opening : t.isDelimiter "(" = true
    · exact .same (fun _ _ => by simp [factor, identifier, integer, opening]) (inner t ts opening)
    by_cases unknown : t.kind = .unknown
    · exact .lose .expression .anywhere .skipped
        (fun _ _ => by simp [factor, unknown, opening]) (by simp)
        (List.suffix_cons _ _) (.pure (a := Expr.missing t.loc) trivial)
    · exact .lose .expression .anywhere .placeholder
        (fun _ _ => by simp [factor, identifier, integer, unknown, opening]) (by simp)
        (List.suffix_refl _) (.pure (a := Expr.missing t.loc) trivial)

/-- One more link of a chain of operators of `layer`, whose right operands are of `right`. -/
theorem link_accounts {layer right : Expr.Layer} {op? : Token → Option BinOp} {operand : Parser Expr}
    (operator : ∀ t op, op? t = some op → op.layer = layer ∧ t.isOperator op.symbol = true)
    (joined : ∀ op l r loc, op.layer = layer → l.Grammatical layer → r.Grammatical right →
      (Expr.binary op l r loc).Grammatical layer)
    (account : ∀ r, Accounts cx Halt.IsTooDeep operand r fun e ws _ => e.Spelled limit room right ws)
    (left : Expr) (r : List Token) :
    Accounts cx Halt.IsTooDeep (link op? operand left) r fun o ws _ =>
      Accounts.Extends (Expr.Spelled limit room layer) left o ws := by
  refine .acceptAs_bind (fun t op ts _ reading => ?_) fun _ => .pure rfl
  obtain ⟨linking, symbol⟩ := operator t op reading
  refine (account ts).bind fun e r' => .pure fun ws spelled before first => ?_
  rw [Token.word_eq_operator_iff.mpr symbol, List.append_nil]
  exact .binary op t.loc (joined op left e t.loc linking first.grammatical spelled.grammatical) first
    spelled

theorem term_accounts {parenthesised : Token → Parser Expr}
    (account : ∀ r, Accounts cx Halt.IsTooDeep (factor cx parenthesised) r fun e ws _ =>
      e.Spelled limit room .factor ws)
    (r : List Token) : Accounts cx Halt.IsTooDeep (term cx parenthesised) r fun e ws _ =>
      e.Spelled limit room .term ws := by
  refine (account r).bind fun first r' => ?_
  refine (Accounts.repeatedly (link_accounts (fun _ _ => BinOp.multiplicative?_eq_some_iff.mp)
    (fun _ _ _ _ => .product) account) first r').mono ?_
  intro e ws r'' onwards before spelled
  exact onwards before spelled.ofFactor

theorem sum_accounts {parenthesised : Token → Parser Expr}
    (account : ∀ r, Accounts cx Halt.IsTooDeep (factor cx parenthesised) r fun e ws _ =>
      e.Spelled limit room .factor ws)
    (r : List Token) : Accounts cx Halt.IsTooDeep (sum cx parenthesised) r fun e ws _ =>
      e.Spelled limit room .sum ws := by
  -- the loop keeps any spelled sum spelled, be its first term signed or not
  have links := Accounts.repeatedly (link_accounts (fun _ _ => BinOp.additive?_eq_some_iff.mp)
    (fun _ _ _ _ => .sum) (term_accounts account))
  refine .acceptAs_bind (fun t s ts _ reading => ?_) fun _ => ?_
  · refine (term_accounts account ts).bind fun first r' => (links _ r').mono ?_
    intro e ws r'' onwards before spelled
    rw [Token.word_eq_operator_iff.mpr (Sign.ofToken?_eq_some_iff.mp reading)]
    exact onwards _ (spelled.signed s t.loc)
  · refine (term_accounts account r).bind fun first r' => (links _ r').mono ?_
    intro e ws r'' onwards before spelled
    exact onwards before spelled.ofTerm

theorem parentheses_accounts {inner : Parser Expr}
    (account : ∀ r, Accounts cx Halt.IsTooDeep inner r fun e ws _ => e.Spelled limit room .sum ws)
    {t : Token} (opening : t.isDelimiter "(" = true) (ts : List Token) :
    Accounts cx Halt.IsTooDeep (parentheses cx inner t) (t :: ts) fun e ws _ =>
      e.Spelled limit (room + 1) .factor ws := by
  refine .deeper (.advance_bind ((account ts).bind fun e r => ?_))
  refine (Accounts.requireDelimiter ")" (by decide)).bind fun _ r' => .pure ?_
  rintro _ rfl ws spelled
  rw [Token.word_eq_delimiter_iff.mpr opening]
  exact spelled.group t.loc

theorem expression_accounts (limited : cx.limits.maxInteger = .number limit) (room : Nat)
    (r : List Token) : Accounts cx Halt.IsTooDeep (expression cx room) r fun e ws _ =>
      e.Spelled limit room .sum ws := by
  induction room generalizing r with
  | zero => exact sum_accounts (factor_accounts limited fun _ _ _ => .tooDeep) r
  | succ room ih =>
    exact sum_accounts (factor_accounts limited fun t ts opening =>
      parentheses_accounts ih opening ts) r

/-! ## Conditions -/

theorem condition_accounts {expr : Parser Expr}
    (account : ∀ r, Accounts cx Halt.IsTooDeep expr r fun e ws _ => e.Spelled limit room .sum ws)
    (r : List Token) : Accounts cx Halt.IsTooDeep (condition cx expr) r fun c ws _ =>
      c.Spelled limit room ws := by
  refine .accept_bind (fun t ts _ odd => ?_) fun _ => ?_
  · refine (account ts).bind fun e r' => .pure fun ws spelled => ?_
    rw [Token.word_eq_keyword_iff.mpr odd, List.append_nil]
    exact ⟨.odd spelled.grammatical, by simp [Condition.words, spelled.words], spelled.depth,
      spelled.literals⟩
  · refine .here_bind ((account r).bind fun left r' => ?_)
    refine .acceptAs_bind (fun t op ts _ reading => ?_) fun _ => ?_
    · refine (account ts).bind fun right r'' => .pure fun ws second before first => ?_
      rw [Token.word_eq_operator_iff.mpr (RelOp.ofToken?_eq_some_iff.mp reading), List.append_nil]
      refine ⟨.relation first.grammatical second.grammatical,
        by simp [Condition.words, first.words, second.words],
        Nat.max_le.mpr ⟨first.depth, second.depth⟩, fun v member => ?_⟩
      rcases List.mem_append.mp member with inLeft | inRight
      · exact first.literals v inLeft
      · exact second.literals v inRight
    · cases missing : left.isMissing with
      | true =>
        -- no complaint is made here, but there has been one about the operand
        refine .same (q := pure (Condition.missing (cx.front r))) (fun _ _ => by simp) (.pure ?_)
        intro ws spelled
        rw [spelled.not_isMissing] at missing
        cases missing
      | false =>
        exact .lose .relation (.after left.written) .placeholder (fun _ _ => by simp) (by simp)
          (List.suffix_refl _) (.pure (a := Condition.missing (cx.front r)) trivial)

end Parser

end PlZero

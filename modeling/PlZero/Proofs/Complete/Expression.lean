import PlZero.Proofs.Numerals
import PlZero.Proofs.Parser.Reads
import PlZero.Proofs.Words

/-! # Grammatical expressions are read back

Tokens that stand for the words of a grammatical expression are read as that expression, whatever
their locations, if the token behind them is no operator that would go on with a chain.  The
induction is on the derivation, layer by layer: a factor is read by itself, a term is a chain of
factors and a sum a chain of terms, and both chains grow at their end.
-/

namespace PlZero

/-- The first word of an expression is no keyword, and no operator unless the expression may have
a sign. -/
theorem Expr.Grammatical.head {layer : Expr.Layer} {e : Expr} (grammatical : e.Grammatical layer) :
    ∃ w ws, e.words = w :: ws ∧ w.1 ≠ .keyword ∧ (layer ≠ .sum → w.1 ≠ .operator) := by
  induction grammatical with
  | integer | name | group => exact ⟨_, _, rfl, by rintro ⟨⟩, fun _ => by rintro ⟨⟩⟩
  | ofFactor _ ih =>
    obtain ⟨w, ws, words, noKeyword, noOperator⟩ := ih
    exact ⟨w, ws, words, noKeyword, fun _ => noOperator (by decide)⟩
  | product _ _ _ ih =>
    obtain ⟨w, ws, words, noKeyword, noOperator⟩ := ih
    exact ⟨w, _, by rw [Expr.words, words]; rfl, noKeyword, fun _ => noOperator (by decide)⟩
  | ofTerm _ ih =>
    obtain ⟨w, ws, words, noKeyword, _⟩ := ih
    exact ⟨w, ws, words, noKeyword, fun otherLayer => absurd rfl otherLayer⟩
  | signed => exact ⟨_, _, rfl, by rintro ⟨⟩, fun otherLayer => absurd rfl otherLayer⟩
  | sum _ _ _ ih =>
    obtain ⟨w, ws, words, noKeyword, _⟩ := ih
    exact ⟨w, _, by rw [Expr.words, words]; rfl, noKeyword, fun otherLayer => absurd rfl otherLayer⟩

namespace Parser

variable {cx : Context} {limit : Int} {fits : Prop}

/-! ## The ends of chains -/

/-- Whether the next token is none of the operators. -/
def NoOperator (op? : Token → Option BinOp) (tail : List Token) : Prop :=
  ∀ t ∈ tail.head?, op? t = none

theorem noOperator_cons {op? : Token → Option BinOp} {t : Token} {ts : List Token} :
    NoOperator op? (t :: ts) ↔ op? t = none := by
  simp [NoOperator]

theorem link_declined {op? : Token → Option BinOp} {tail : List Token} (stops : NoOperator op? tail)
    (operand : Parser Expr) (left : Expr) (depth : Nat) (log : Log) :
    link op? operand left ⟨tail, depth, log⟩ = .ok none ⟨tail, depth, log⟩ := by
  cases tail with
  | nil => simp [link]
  | cons t ts => simp [link, acceptAs_cons_of_none (noOperator_cons.mp stops)]

/-- An operator and its right operand are one more link. -/
theorem link_reads {op? : Token → Option BinOp} {operand : Parser Expr} {left l r : Expr}
    {op : BinOp} {t : Token} {ts tail : List Token} (loc : Location) (operator : op? t = some op)
    (right : Reads cx fits operand ts tail fun e => e.bare = r.bare) (same : left.bare = l.bare) :
    Reads cx fits (link op? operand left) (t :: ts) tail fun o =>
      ∃ e, o = some e ∧ e.bare = (Expr.binary op l r loc).bare := by
  refine .acceptAs_bind_of_some operator (.bind_pure right fun e bare => ⟨_, rfl, ?_⟩)
  simp [Expr.bare, same, bare]

/-! ## Layers of expressions -/

/-- The parser of an expression between parentheses that has `room` levels of nesting left. -/
def parenthesised (cx : Context) : Nat → Token → Parser Expr
  | 0 => fun _ => tooDeep cx
  | room + 1 => parentheses cx (expression cx room)

theorem expression_eq (cx : Context) (room : Nat) :
    expression cx room = sum cx (parenthesised cx room) := by
  cases room <;> rfl

/-- The first term of a sum with its sign. -/
def signedTerm (cx : Context) (parenthesised : Token → Parser Expr) : Parser Expr := do
  let sign ← acceptAs Sign.ofToken?
  let first ← term cx parenthesised
  match sign with
  | some (t, s) => return .signed s first t.loc
  | none => return first

theorem sum_eq (cx : Context) (parenthesised : Token → Parser Expr) :
    sum cx parenthesised = signedTerm cx parenthesised >>=
      repeatedly (link BinOp.additive? (term cx parenthesised)) := by
  -- the two differ only in where the sign is put to the term
  funext s
  simp only [sum, signedTerm, bind_apply]
  cases acceptAs Sign.ofToken? s with
  | error h s => rfl
  | ok sign s =>
    simp only
    cases term cx parenthesised s with
    | error h s => rfl
    | ok first s => cases sign <;> rfl

/-- How an expression of a layer is read by the parsers that have `room` levels of nesting left. -/
def LayerReads (cx : Context) (fits : Prop) (room : Nat) (e : Expr) (ts tail : List Token) :
    Expr.Layer → Prop
  | .factor => Reads cx fits (factor cx (parenthesised cx room)) ts tail fun e' => e'.bare = e.bare
  | .term => Chain cx fits (factor cx (parenthesised cx room))
      (link BinOp.multiplicative? (factor cx (parenthesised cx room))) ts tail
      fun e' => e'.bare = e.bare
  | .sum => NoOperator BinOp.multiplicative? tail →
      Chain cx fits (signedTerm cx (parenthesised cx room))
        (link BinOp.additive? (term cx (parenthesised cx room))) ts tail fun e' => e'.bare = e.bare

theorem LayerReads.term {room : Nat} {e : Expr} {ts tail : List Token}
    (reads : LayerReads cx fits room e ts tail .term) (stops : NoOperator BinOp.multiplicative? tail) :
    Reads cx fits (Parser.term cx (parenthesised cx room)) ts tail fun e' => e'.bare = e.bare :=
  Chain.reads reads fun a depth log _ => link_declined stops _ a depth log

theorem LayerReads.expression {room : Nat} {e : Expr} {ts tail : List Token}
    (reads : LayerReads cx fits room e ts tail .sum)
    (stops : NoOperator BinOp.multiplicative? tail) (ends : NoOperator BinOp.additive? tail) :
    Reads cx fits (Parser.expression cx room) ts tail fun e' => e'.bare = e.bare := by
  rw [expression_eq, sum_eq]
  exact Chain.reads (reads stops) fun a depth log _ => link_declined ends _ a depth log

/-- A token that stands for a number is read as that number. -/
theorem integerValue_of_word (limited : cx.limits.maxInteger = .number limit) {t : Token} {n : Int}
    (natural : 0 ≤ n) (word : t.word = .number (.number n)) (le : n ≤ limit) :
    t.kind = .integer ∧ integerValue cx t = pure (.number n) := by
  obtain ⟨integer, text⟩ := Token.word_eq_number_iff.mp word
  obtain ⟨n, rfl⟩ := Int.eq_ofNat_of_zero_le natural
  refine ⟨integer, ?_⟩
  rw [Quantity.text_natCast] at text
  rw [integerValue_of_repr limited text, if_pos le]

/-- The first token of an expression. -/
theorem exists_head_of_grammatical {layer : Expr.Layer} {e : Expr} {ts : List Token}
    (grammatical : e.Grammatical layer) (written : ts.map Token.word = e.words) :
    ∃ t ts', ts = t :: ts' ∧ t.kind ≠ .keyword ∧ (layer ≠ .sum → t.kind ≠ .operator) := by
  obtain ⟨w, ws, words, noKeyword, noOperator⟩ := grammatical.head
  rw [words] at written
  obtain ⟨t, ts, rfl, rfl, _⟩ := List.map_eq_cons_iff.mp written
  exact ⟨t, ts, rfl, noKeyword, noOperator⟩

theorem layerReads_of_grammatical (limited : cx.limits.maxInteger = .number limit)
    {layer : Expr.Layer} {e : Expr} (grammatical : e.Grammatical layer)
    (within : ∀ v ∈ e.literals, v.AtMost limit) (room : Nat) (fit : fits → e.depth ≤ room)
    (ts tail : List Token) (written : ts.map Token.word = e.words) :
    LayerReads cx fits room e ts tail layer := by
  induction grammatical generalizing room ts tail with
  | @integer n loc natural =>
    obtain ⟨t, rfl, word⟩ := List.map_eq_singleton_iff.mp written
    have le : n ≤ limit := within (.number n) (by simp [Expr.literals])
    obtain ⟨integer, value⟩ := integerValue_of_word limited natural word le
    exact .take (q := pure (.integer (.number n) t.loc)) (fun _ _ => by simp [factor, integer, value])
      (.pure rfl)
  | @name id loc =>
    obtain ⟨t, rfl, word⟩ := List.map_eq_singleton_iff.mp written
    obtain ⟨identifier, rfl⟩ := Token.word_eq_identifier_iff.mp word
    exact .take (q := pure (.name t.lexeme t.loc)) (fun _ _ => by simp [factor, identifier]) (.pure rfl)
  | @group e loc _ ih =>
    obtain ⟨t, ts, rfl, opening, behind⟩ := List.map_eq_cons_iff.mp written
    obtain ⟨inner, ts, rfl, writtenInner, last⟩ := List.map_eq_append_iff.mp behind
    obtain ⟨t', rfl, closing⟩ := List.map_eq_singleton_iff.mp last
    rw [Token.word_eq_delimiter_iff] at opening closing
    refine .same (q := parenthesised cx room t) (fun depth log => ?_) ?_
    · have delimiter : t.kind = .delimiter := by simp_all [Token.isDelimiter]
      simp [factor, delimiter, opening]
    cases room with
    | zero =>
      -- no level is left for the parentheses, so the nesting does not fit
      refine .tooDeep fun allowed => ?_
      have depth := fit allowed
      simp [Expr.depth] at depth
    | succ room =>
      have closes : BinOp.multiplicative? t' = none ∧ BinOp.additive? t' = none := by
        grind [BinOp.multiplicative?, BinOp.additive?, Token.isDelimiter, Token.isOperator]
      have reads := ih within room (fun allowed => Nat.le_of_succ_le_succ (fit allowed)) inner
        (t' :: tail) writtenInner
      refine .deeper (.advance_bind (.bind (reads.expression (noOperator_cons.mpr closes.1)
        (noOperator_cons.mpr closes.2)) fun e' bare => ?_))
      refine .require_bind closing (.pure ?_)
      simp [Expr.bare, bare]
  | ofFactor _ ih => exact .single (ih within room fit ts tail written)
  | @product op l r loc linking _ _ ihl ihr =>
    obtain ⟨left, ts, rfl, writtenLeft, behind⟩ := List.map_eq_append_iff.mp written
    obtain ⟨t, right, rfl, operator, writtenRight⟩ := List.map_eq_cons_iff.mp behind
    rw [Token.word_eq_operator_iff] at operator
    have linked := BinOp.multiplicative?_eq_some_iff.mpr ⟨linking, operator⟩
    -- the left operand is the chain so far, and the operator starts its next link
    have first := ihl (fun v member => within v (List.mem_append_left _ member)) room
      (fun allowed => (Nat.max_le.mp (fit allowed)).1) left (t :: right ++ tail) writtenLeft
    have second := ihr (fun v member => within v (List.mem_append_right _ member)) room
      (fun allowed => (Nat.max_le.mp (fit allowed)).2) right tail writtenRight
    exact Chain.link first (by simp) fun e bare => link_reads loc linked second bare
  | ofTerm grammatical ih =>
    intro stops
    obtain ⟨t, ts, rfl, _, noOperator⟩ := exists_head_of_grammatical grammatical written
    refine .single (.acceptAs_bind_of_none (fun t' isHead => ?_) ?_)
    -- a term starts with no operator, so nothing is taken for its sign
    · have noSign := noOperator (by decide)
      obtain rfl : t = t' := by simpa using isHead
      simp [Sign.ofToken?, Token.isOperator, noSign]
    · exact .bind_pure ((ih within room fit _ tail written).term stops) fun e' bare => bare
  | @signed s e loc _ ih =>
    intro stops
    obtain ⟨t, ts, rfl, sign, writtenTerm⟩ := List.map_eq_cons_iff.mp written
    refine .single (.acceptAs_bind_of_some
      (Sign.ofToken?_eq_some_iff.mpr (Token.word_eq_operator_iff.mp sign)) ?_)
    refine .bind_pure ((ih within room fit ts tail writtenTerm).term stops) fun e' bare => ?_
    simp [Expr.bare, bare]
  | @sum op l r loc linking _ _ ihl ihr =>
    intro stops
    obtain ⟨left, ts, rfl, writtenLeft, behind⟩ := List.map_eq_append_iff.mp written
    obtain ⟨t, right, rfl, operator, writtenRight⟩ := List.map_eq_cons_iff.mp behind
    rw [Token.word_eq_operator_iff] at operator
    have linked := BinOp.additive?_eq_some_iff.mpr ⟨linking, operator⟩
    -- the term on the left ends here: its own chain does not go on with this operator
    have between : BinOp.multiplicative? t = none := by
      grind [BinOp.multiplicative?, BinOp.additive?, Token.isOperator]
    have first := ihl (fun v member => within v (List.mem_append_left _ member)) room
      (fun allowed => (Nat.max_le.mp (fit allowed)).1) left (t :: right ++ tail) writtenLeft
      (noOperator_cons.mpr between)
    have second := ihr (fun v member => within v (List.mem_append_right _ member)) room
      (fun allowed => (Nat.max_le.mp (fit allowed)).2) right tail writtenRight
    exact Chain.link first (by simp) fun e bare => link_reads loc linked (second.term stops) bare

/-- Whether no chain of operators goes on with the next token. -/
def EndsExpression (tail : List Token) : Prop :=
  NoOperator BinOp.multiplicative? tail ∧ NoOperator BinOp.additive? tail

theorem endsExpression_of_kind {tail : List Token} (kind : ∀ t ∈ tail.head?, t.kind ≠ .operator) :
    EndsExpression tail := by
  refine ⟨fun t isHead => ?_, fun t isHead => ?_⟩
  · simp [BinOp.multiplicative?, Token.isOperator, kind t isHead]
  · simp [BinOp.additive?, Token.isOperator, kind t isHead]

/-- The parser reads the expression back from its words. -/
def ReadsExpr (cx : Context) (fits : Prop) (p : Parser Expr) (e : Expr) : Prop :=
  ∀ ts tail, ts.map Token.word = e.words → EndsExpression tail →
    Reads cx fits p ts tail fun e' => e'.bare = e.bare

theorem expression_reads (limited : cx.limits.maxInteger = .number limit) {e : Expr}
    (grammatical : e.Grammatical .sum) (within : ∀ v ∈ e.literals, v.AtMost limit) {room : Nat}
    (fit : fits → e.depth ≤ room) : ReadsExpr cx fits (expression cx room) e :=
  fun ts tail written ends =>
    (layerReads_of_grammatical limited grammatical within room fit ts tail written).expression
      ends.1 ends.2

/-! ## Conditions -/

/-- The parser reads the condition back from its words. -/
def ReadsCondition (cx : Context) (fits : Prop) (p : Parser Condition) (c : Condition) : Prop :=
  ∀ ts tail, ts.map Token.word = c.words → EndsExpression tail →
    Reads cx fits p ts tail fun c' => c'.bare = c.bare

theorem odd_reads {expr : Parser Expr} {e : Expr} (operand : ReadsExpr cx fits expr e) (loc : Location) :
    ReadsCondition cx fits (condition cx expr) (.odd e loc) := by
  intro ts tail written ends
  obtain ⟨t, ts, rfl, keyword, behind⟩ := List.map_eq_cons_iff.mp written
  refine .accept_bind_of_pos (Token.word_eq_keyword_iff.mp keyword) ?_
  refine .bind_pure (operand ts tail behind ends) fun e' bare => ?_
  simp [Condition.bare, bare]

theorem relation_reads {expr : Parser Expr} {l r : Expr} (grammatical : l.Grammatical .sum)
    (first : ReadsExpr cx fits expr l) (second : ReadsExpr cx fits expr r) (op : RelOp) (loc : Location) :
    ReadsCondition cx fits (condition cx expr) (.relation op l r loc) := by
  intro ts tail written ends
  obtain ⟨left, ts, rfl, writtenLeft, behind⟩ := List.map_eq_append_iff.mp written
  obtain ⟨t, right, rfl, operator, writtenRight⟩ := List.map_eq_cons_iff.mp behind
  rw [Token.word_eq_operator_iff] at operator
  have between : EndsExpression (t :: right ++ tail) := by
    rw [EndsExpression, List.cons_append, noOperator_cons, noOperator_cons]
    cases op <;> grind [BinOp.multiplicative?, BinOp.additive?, Token.isOperator, RelOp.symbol]
  refine .accept_bind_of_neg ?_ (.here_bind fun loc' => ?_)
  -- an expression starts with no keyword, so it is not taken for the other sort of condition
  · obtain ⟨t', left, rfl, noKeyword, _⟩ := exists_head_of_grammatical grammatical writtenLeft
    simp [Token.isKeyword, noKeyword]
  refine .bind (first left _ writtenLeft between) fun l' bareLeft => ?_
  refine .acceptAs_bind_of_some (RelOp.ofToken?_eq_some_iff.mpr operator) ?_
  refine .bind_pure (second right tail writtenRight ends) fun r' bareRight => ?_
  simp [Condition.bare, bareLeft, bareRight]

theorem condition_reads (limited : cx.limits.maxInteger = .number limit) {c : Condition}
    (grammatical : c.Grammatical) (within : ∀ v ∈ c.literals, v.AtMost limit) {room : Nat}
    (fit : fits → c.depth ≤ room) : ReadsCondition cx fits (condition cx (expression cx room)) c := by
  cases grammatical with
  | odd grammatical => exact odd_reads (expression_reads limited grammatical within fit) _
  | relation first second =>
    refine relation_reads first (expression_reads limited first ?_ ?_)
      (expression_reads limited second ?_ ?_) _ _
    · exact fun v member => within v (List.mem_append_left _ member)
    · exact fun allowed => (Nat.max_le.mp (fit allowed)).1
    · exact fun v member => within v (List.mem_append_right _ member)
    · exact fun allowed => (Nat.max_le.mp (fit allowed)).2

end Parser

end PlZero

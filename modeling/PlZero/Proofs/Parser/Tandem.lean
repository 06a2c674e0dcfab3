import PlZero.Parser.Block
import PlZero.Proofs.Parser.Cut

/-! # Two runs in step

Two inputs are the same up to a stop: a period that no production takes, or the end of both inputs.  Until
then the runs do exactly the same, whatever is behind the stop.  The contexts may differ too, as long as
the parser can tell the difference only by a complaint that is excused; from there on nothing is promised.

* a `Tandem` is such a pair of inputs;
* `InStep m b p q r Q` is the judgement about two parsers at the tokens `r` before the stop, with one rule
  for each way in which parsers are put together.  However the parsers end, only tokens of `b` are left
  before the stop, so `b` tells what has been taken for certain, and `Q` holds of what they give and of
  the tokens that are left.

A loop may take as many turns as there are tokens, and the inputs need not be equally long.  Therefore a
turn has to take a token (`InStep.repeatedly`), and then the bound plays no part.
-/

namespace PlZero

namespace Parser

variable {α β : Type}

/-- The same result with other tokens left. -/
def leaving (rest : List Token) : EStateM.Result Halt State α → EStateM.Result Halt State α
  | .ok a s => .ok a { s with rest := rest }
  | .error h s => .error h { s with rest := rest }

/-- Two inputs that are the same up to a stop. -/
structure Tandem where
  cx : Context
  cx' : Context
  tail : List Token
  tail' : List Token
  nesting : cx'.limits.maxNesting = cx.limits.maxNesting
  head : tail'.head? = tail.head?
  front : cx'.front tail' = cx.front tail
  stop : ∀ t ∈ tail.head?, t.isDelimiter "." = true
  excuse : Diagnostic → Prop
  integer {t : Token} : t.Readable → t.kind = .integer → ∃ n ds,
    (∀ r depth log, integerValue cx t ⟨r, depth, log⟩ = .ok n ⟨r, depth, ⟨log.entries ++ ds⟩⟩) ∧
    ((∃ d ∈ ds, excuse d) ∨ integerValue cx' t = integerValue cx t)

namespace Tandem

variable (m : Tandem)

/-- The token that the parser sees next. -/
def Sees (r : List Token) (t : Token) : Prop := (r ++ m.tail).head? = some t

/-- Something was reported that excuses a difference. -/
def Excused (log : Log) : Prop := ∃ d ∈ log.entries, m.excuse d

/-- What is said of the results `x` and `y` of two runs that started with the same log and have left the
tokens `r` before the stop. -/
structure Ends (log : Log) (Q : α → List Token → Prop) (x y : EStateM.Result Halt State α)
    (r : List Token) : Prop where
  rest : (final x).rest = r ++ m.tail
  grown : log.entries <+: (final x).log.entries
  given : ∀ a s, x = .ok a s → Q a r
  same : m.Excused (final x).log ∨ y = leaving (r ++ m.tail') x

variable {m} {r ts : List Token} {t : Token}

/-- Every token but a period is seen before the stop. -/
theorem Sees.before (seen : m.Sees r t) (other : t.isDelimiter "." = false) : ∃ ts, r = t :: ts := by
  cases r with
  | nil =>
    have period := m.stop t seen
    simp [other] at period
  | cons t' ts =>
    obtain rfl : t' = t := by simpa [Sees] using seen
    exact ⟨ts, rfl⟩

theorem head_append (r : List Token) : (r ++ m.tail').head? = (r ++ m.tail).head? := by
  cases r with
  | nil => exact m.head
  | cons t ts => rfl

theorem front_append (r : List Token) : m.cx'.front (r ++ m.tail') = m.cx.front (r ++ m.tail) := by
  cases r with
  | nil => exact m.front
  | cons t ts => rfl

/-- The same is found missing in both inputs. -/
theorem missingAt_append (wanted : Wanted) (place : Place) (recovery : Recovery) (r : List Token) :
    missingAt m.cx' wanted place recovery (r ++ m.tail') =
      missingAt m.cx wanted place recovery (r ++ m.tail) := by
  rw [missingAt, missingAt, head_append, front_append]

theorem Excused.mono {log log' : Log} (excused : m.Excused log) (grown : log.entries <+: log'.entries) :
    m.Excused log' := by
  obtain ⟨d, member, excuse⟩ := excused
  exact ⟨d, grown.subset member, excuse⟩

end Tandem

/-- The tokens behind the first one, if that has the property, or else all of them. -/
def past (p : Token → Bool) : List Token → List Token
  | [] => []
  | t :: ts => if p t then ts else t :: ts

theorem past_suffix (p : Token → Bool) (r : List Token) : past p r <:+ r := by
  cases r with
  | nil => exact List.suffix_refl _
  | cons t ts =>
    rw [past]
    split
    · exact List.suffix_cons t ts
    · exact List.suffix_refl _

theorem suffix_past (p : Token → Bool) (t : Token) (ts : List Token) : ts <:+ past p (t :: ts) := by
  rw [past]
  split
  · exact List.suffix_refl _
  · exact List.suffix_cons t ts

theorem past_eq_self {p : Token → Bool} {r : List Token} (other : ∀ t ∈ r.head?, p t = false) :
    past p r = r := by
  cases r with
  | nil => rfl
  | cons t ts => rw [past, if_neg (by simp [other t rfl])]

theorem length_past_lt {p : Token → Bool} {r : List Token} (first : ∃ t ∈ r.head?, p t = true) :
    (past p r).length < r.length := by
  obtain ⟨t, head, holds⟩ := first
  cases r with
  | nil => cases head
  | cons t' ts =>
    obtain rfl : t' = t := by simpa using head
    rw [past, if_pos holds]
    exact Nat.lt_succ_self _

/-- At the tokens `r` before the stop the parsers `p` and `q` do the same.  They leave tokens of `b`, and
`Q` holds of what they give and these tokens. -/
structure InStep (m : Tandem) (b : List Token) (p q : Parser α) (r : List Token)
    (Q : α → List Token → Prop) : Prop where
  bound : b <:+ r
  run : (∀ t ∈ r, t.Readable) → ∀ depth log, ∃ r', r' <:+ b ∧
    m.Ends log Q (p ⟨r ++ m.tail, depth, log⟩) (q ⟨r ++ m.tail', depth, log⟩) r'

namespace InStep

variable {m : Tandem} {b b' r r' ts : List Token} {t : Token} {p q p' q' : Parser α}
  {P Q : α → List Token → Prop}

theorem weaken (inStep : InStep m b p q r P) (bound : b <:+ b') (bound' : b' <:+ r)
    (weaker : ∀ a r', r' <:+ b → P a r' → Q a r') : InStep m b' p q r Q := by
  refine ⟨bound', fun readable depth log => ?_⟩
  obtain ⟨r', left, ends⟩ := inStep.run readable depth log
  exact ⟨r', left.trans bound, ends.rest, ends.grown,
    fun a s result => weaker a r' left (ends.given a s result), ends.same⟩

/-- Whatever has been taken for certain, tokens of `r` are left. -/
theorem loosen (inStep : InStep m b p q r Q) : InStep m r p q r Q :=
  inStep.weaken inStep.bound (List.suffix_refl r) fun _ _ _ => id

/-- What a parser has taken for certain is known of its result. -/
theorem reach (inStep : InStep m b p q r Q) : InStep m r p q r fun _ r' => r' <:+ b :=
  inStep.weaken inStep.bound (List.suffix_refl r) fun _ _ left _ => left

/-- A parser that takes the first token also takes it if it has a certain property. -/
theorem beyond (inStep : InStep m ts p q (t :: ts) Q) (accepts : Token → Bool) :
    InStep m (past accepts (t :: ts)) p q (t :: ts) Q :=
  inStep.weaken (suffix_past accepts t ts) (past_suffix accepts _) fun _ _ _ => id

theorem assuming (bound : b <:+ r) (inStep : (∀ t ∈ r, t.Readable) → InStep m b p q r Q) :
    InStep m b p q r Q :=
  ⟨bound, fun readable => (inStep readable).run readable⟩

/-- The first steps, which are the same in both runs unless one of their complaints is excused. -/
theorem step (before : List Diagnostic) (suffix : r' <:+ r)
    (run : ∀ depth log, p ⟨r ++ m.tail, depth, log⟩ =
      p' ⟨r' ++ m.tail, depth, ⟨log.entries ++ before⟩⟩)
    (run' : (∃ d ∈ before, m.excuse d) ∨ ∀ depth log, q ⟨r ++ m.tail', depth, log⟩ =
      q' ⟨r' ++ m.tail', depth, ⟨log.entries ++ before⟩⟩)
    (inStep : InStep m b p' q' r' Q) : InStep m b p q r Q := by
  refine ⟨inStep.bound.trans suffix, fun readable depth log => ?_⟩
  obtain ⟨r'', left, ends⟩ := inStep.run (fun t member => readable t (suffix.subset member)) depth
    ⟨log.entries ++ before⟩
  rw [run]
  refine ⟨r'', left, ends.rest, (List.prefix_append _ _).trans ends.grown, ends.given, ?_⟩
  cases run' with
  | inl excused =>
    obtain ⟨d, member, excuse⟩ := excused
    exact .inl ⟨d, ends.grown.subset (List.mem_append_right _ member), excuse⟩
  | inr run' =>
    rw [run']
    exact ends.same

theorem same (run : ∀ depth log, p ⟨r ++ m.tail, depth, log⟩ = p' ⟨r ++ m.tail, depth, log⟩)
    (run' : ∀ depth log, q ⟨r ++ m.tail', depth, log⟩ = q' ⟨r ++ m.tail', depth, log⟩)
    (inStep : InStep m b p' q' r Q) : InStep m b p q r Q := by
  refine step [] (List.suffix_refl r) ?_ (.inr ?_) inStep
  · intro depth log
    rw [run, List.append_nil]
  · intro depth log
    rw [run', List.append_nil]

theorem take (run : ∀ depth log, p ⟨t :: ts ++ m.tail, depth, log⟩ = p' ⟨ts ++ m.tail, depth, log⟩)
    (run' : ∀ depth log, q ⟨t :: ts ++ m.tail', depth, log⟩ = q' ⟨ts ++ m.tail', depth, log⟩)
    (inStep : InStep m b p' q' ts Q) : InStep m b p q (t :: ts) Q := by
  refine step [] (List.suffix_cons t ts) ?_ (.inr ?_) inStep
  · intro depth log
    rw [run, List.append_nil]
  · intro depth log
    rw [run', List.append_nil]

protected theorem pure {a : α} (holds : Q a r) : InStep m r (pure a) (pure a) r Q := by
  refine ⟨List.suffix_refl r, fun _ depth log => ?_⟩
  refine ⟨r, List.suffix_refl r, rfl, List.prefix_refl _, ?_, .inr rfl⟩
  intro a' s result
  cases result
  exact holds

/-- One parser after another.  The second starts at tokens that the first has left. -/
theorem bind {f g : α → Parser β} {Q : β → List Token → Prop} (first : InStep m b p q r P)
    (second : ∀ a r', r' <:+ b → P a r' → InStep m r' (f a) (g a) r' Q) :
    InStep m b (p >>= f) (q >>= g) r Q := by
  refine ⟨first.bound, fun readable depth log => ?_⟩
  obtain ⟨r', left, rest, grown, given, same⟩ := first.run readable depth log
  rw [bind_apply, bind_apply]
  cases result : p ⟨r ++ m.tail, depth, log⟩ with
  | error h s =>
    rw [result] at rest grown same
    refine ⟨r', left, rest, grown, nofun, same.imp_right fun same => ?_⟩
    rw [same]
    rfl
  | ok a s =>
    obtain ⟨rest', depth', log'⟩ := s
    rw [result] at rest grown same
    obtain rfl : rest' = r' ++ m.tail := rest
    have readable' : ∀ t ∈ r', t.Readable := fun t member =>
      readable t (first.bound.subset (left.subset member))
    obtain ⟨r'', left', ends⟩ := (second a r' left (given a _ result)).run readable' depth' log'
    refine ⟨r'', left'.trans left, ends.rest, grown.trans ends.grown, ends.given, ?_⟩
    cases same with
    | inl excused => exact .inl (excused.mono ends.grown)
    | inr same =>
      rw [same]
      exact ends.same

/-! ### Halts and levels -/

theorem tooDeep : InStep m r (tooDeep m.cx) (tooDeep m.cx') r Q := by
  refine ⟨List.suffix_refl r, fun _ depth log => ⟨r, List.suffix_refl r, ?_⟩⟩
  rw [tooDeep_apply, tooDeep_apply, Tandem.front_append, m.nesting]
  exact ⟨rfl, List.prefix_refl _, nofun, .inr rfl⟩

theorem malformed (wanted : Wanted) (place : Place) :
    InStep m r (malformed m.cx wanted place) (malformed m.cx' wanted place) r Q := by
  refine ⟨List.suffix_refl r, fun _ depth log => ⟨r, List.suffix_refl r, ?_⟩⟩
  rw [malformed_apply, malformed_apply, Tandem.front_append, Tandem.missingAt_append]
  exact ⟨rfl, List.prefix_append _ _, nofun, .inr rfl⟩

theorem halt (h : Halt) : InStep m r (halt h) (halt h) r Q :=
  ⟨List.suffix_refl r, fun _ _ _ => ⟨r, List.suffix_refl r, rfl, List.prefix_refl _, nofun, .inr rfl⟩⟩

theorem catching (inStep : InStep m b p q r Q) :
    InStep m b (Parser.catching p) (Parser.catching q) r fun _ _ => True := by
  refine ⟨inStep.bound, fun readable depth log => ?_⟩
  obtain ⟨r', left, rest, grown, _, same⟩ := inStep.run readable depth log
  simp only [Parser.catching]
  cases result : p ⟨r ++ m.tail, depth, log⟩ with
  | error h s | ok a s =>
    rw [result] at rest grown same
    refine ⟨r', left, rest, grown, fun _ _ _ => trivial, same.imp_right fun same => ?_⟩
    rw [same]
    rfl

theorem deeper (inStep : InStep m b p q r Q) : InStep m b (Parser.deeper p) (Parser.deeper q) r Q := by
  refine ⟨inStep.bound, fun readable depth log => ?_⟩
  obtain ⟨r', left, rest, grown, given, same⟩ := inStep.run readable (depth + 1) log
  rw [deeper_apply, deeper_apply]
  cases result : p ⟨r ++ m.tail, depth + 1, log⟩ with
  | error h s =>
    rw [result] at rest grown same
    refine ⟨r', left, rest, grown, nofun, same.imp_right fun same => ?_⟩
    rw [same]
    rfl
  | ok a s =>
    rw [result] at rest grown same
    refine ⟨r', left, rest, grown, ?_, same.imp_right fun same => ?_⟩
    · intro a' s' gives
      cases gives
      exact given a s result
    · rw [same]
      rfl

/-! ### Tokens and complaints -/

theorem ite {c : Prop} [Decidable c] (yes : c → InStep m b p q r Q) (no : ¬ c → InStep m b p' q' r Q) :
    InStep m b (if c then p else p') (if c then q else q') r Q := by
  by_cases holds : c
  · rw [if_pos holds, if_pos holds]
    exact yes holds
  · rw [if_neg holds, if_neg holds]
    exact no holds

/-- Nothing is seen only where both inputs end, and then they end at the same place. -/
theorem peek_bind {f g : Option Token → Parser α}
    (ended : r = [] → m.cx'.endLoc = m.cx.endLoc → InStep m b (f none) (g none) r Q)
    (seen : ∀ t, m.Sees r t → InStep m b (f (some t)) (g (some t)) r Q) :
    InStep m b (peek >>= f) (peek >>= g) r Q := by
  cases next : (r ++ m.tail).head? with
  | some t =>
    refine same (fun _ _ => ?_) (fun _ _ => ?_) (seen t next)
    · simp only [bind_apply, peek_apply, next]
    · simp only [bind_apply, peek_apply, Tandem.head_append, next]
  | none =>
    obtain ⟨rfl, stopped⟩ := List.append_eq_nil_iff.mp (List.head?_eq_none_iff.mp next)
    have stopped' : m.tail' = [] := List.head?_eq_none_iff.mp (by rw [m.head, stopped]; rfl)
    have place : m.cx'.endLoc = m.cx.endLoc := by
      have front := m.front
      rwa [stopped, stopped'] at front
    refine same (fun _ _ => ?_) (fun _ _ => ?_) (ended rfl place)
    · simp only [bind_apply, peek_apply, next]
    · simp only [bind_apply, peek_apply, Tandem.head_append, next]

theorem here_bind {f g : Location → Parser α} (inStep : ∀ l, InStep m b (f l) (g l) r Q) :
    InStep m b (here m.cx >>= f) (here m.cx' >>= g) r Q :=
  same (fun _ _ => by simp) (fun _ _ => by simp [Tandem.front_append]) (inStep (m.cx.front (r ++ m.tail)))

theorem advance_bind {f g : Unit → Parser α} (inStep : InStep m b (f ()) (g ()) ts Q) :
    InStep m b (advance >>= f) (advance >>= g) (t :: ts) Q :=
  take (fun _ _ => by simp) (fun _ _ => by simp) inStep

/-- What is asked for is no period, so it is not taken from behind the stop. -/
theorem accept_bind {f g : Option Token → Parser α} {accepts : Token → Bool}
    (other : ∀ t, t.isDelimiter "." = true → accepts t = false)
    (accepted : ∀ t ts, r = t :: ts → accepts t = true → InStep m ts (f (some t)) (g (some t)) ts Q)
    (declined : (∀ t ∈ r.head?, accepts t = false) → InStep m r (f none) (g none) r Q) :
    InStep m (past accepts r) (accept accepts >>= f) (accept accepts >>= g) r Q := by
  cases r with
  | nil =>
    have refused : ∀ tail : List Token, tail.head? = m.tail.head? → ∀ depth log,
        accept accepts ⟨tail, depth, log⟩ = .ok none ⟨tail, depth, log⟩ := by
      intro tail head depth log
      cases tail with
      | nil => rfl
      | cons t ts => exact accept_cons_of_neg (other t (m.stop t head.symm))
    exact same (fun _ _ => by simp [refused]) (fun _ _ => by simp [refused, m.head]) (declined (by simp))
  | cons t ts =>
    cases accepting : accepts t with
    | true =>
      rw [past, if_pos accepting]
      exact take (fun _ _ => by simp [accept_cons_of_pos accepting])
        (fun _ _ => by simp [accept_cons_of_pos accepting]) (accepted t ts rfl accepting)
    | false =>
      rw [past, if_neg (by simp [accepting])]
      exact same (fun _ _ => by simp [accept_cons_of_neg accepting])
        (fun _ _ => by simp [accept_cons_of_neg accepting]) (declined (by simpa))

theorem acceptAs_bind {f g : Option (Token × β) → Parser α} {read : Token → Option β}
    (other : ∀ t, t.isDelimiter "." = true → read t = none)
    (accepted : ∀ t c ts, r = t :: ts → read t = some c →
      InStep m ts (f (some (t, c))) (g (some (t, c))) ts Q)
    (declined : InStep m r (f none) (g none) r Q) :
    InStep m r (acceptAs read >>= f) (acceptAs read >>= g) r Q := by
  cases r with
  | nil =>
    have refused : ∀ tail : List Token, tail.head? = m.tail.head? → ∀ depth log,
        acceptAs read ⟨tail, depth, log⟩ = .ok none ⟨tail, depth, log⟩ := by
      intro tail head depth log
      cases tail with
      | nil => rfl
      | cons t ts => exact acceptAs_cons_of_none (other t (m.stop t head.symm))
    exact same (fun _ _ => by simp [refused]) (fun _ _ => by simp [refused, m.head]) declined
  | cons t ts =>
    cases reading : read t with
    | some c =>
      exact loosen (take (fun _ _ => by simp [acceptAs_cons_of_some reading])
        (fun _ _ => by simp [acceptAs_cons_of_some reading]) (accepted t c ts rfl reading))
    | none =>
      exact same (fun _ _ => by simp [acceptAs_cons_of_none reading])
        (fun _ _ => by simp [acceptAs_cons_of_none reading]) declined

theorem report_bind {f g : Unit → Parser α} (wanted : Wanted) (place : Place) (recovery : Recovery)
    (inStep : InStep m b (f ()) (g ()) r Q) :
    InStep m b (report m.cx wanted place recovery >>= f) (report m.cx' wanted place recovery >>= g) r Q := by
  refine step [missingAt m.cx wanted place recovery (r ++ m.tail)] (List.suffix_refl r) ?_ (.inr ?_) inStep
  · intro depth log
    rw [bind_apply, report_apply]
    rfl
  · intro depth log
    rw [bind_apply, report_apply, Tandem.missingAt_append]
    rfl

theorem report (wanted : Wanted) (place : Place) (recovery : Recovery) :
    InStep m r (report m.cx wanted place recovery) (report m.cx' wanted place recovery) r
      fun _ _ => True := by
  have reported : InStep m r (Parser.report m.cx wanted place recovery >>= pure)
      (Parser.report m.cx' wanted place recovery >>= pure) r fun _ _ => True :=
    report_bind wanted place recovery (.pure trivial)
  rwa [bind_pure, bind_pure] at reported

/-- What is required is there in both runs or in neither. -/
theorem require {accepts : Token → Bool} {symbol : String} {place : Place}
    (other : ∀ t, t.isDelimiter "." = true → accepts t = false) :
    InStep m r (require m.cx accepts symbol place) (require m.cx' accepts symbol place) r
      fun _ _ => True :=
  loosen (accept_bind other (fun _ _ _ _ => .pure trivial) fun _ => report _ _ _)

theorem record (d : Diagnostic) : InStep m r (record d) (record d) r fun _ _ => True := by
  refine ⟨List.suffix_refl r, fun _ depth log => ?_⟩
  exact ⟨r, List.suffix_refl r, rfl, List.prefix_append _ _, fun _ _ _ => trivial, .inr rfl⟩

/-- What is skipped ends before a period. -/
theorem skipWhile_bind {f g : Unit → Parser α} {skips : Token → Bool}
    (other : ∀ t, t.isDelimiter "." = true → skips t = false)
    (inStep : ∀ r, InStep m r (f ()) (g ()) r Q) :
    InStep m r (skipWhile skips >>= f) (skipWhile skips >>= g) r Q := by
  have skipped : ∀ tail : List Token, tail.head? = m.tail.head? →
      (r ++ tail).dropWhile skips = r.dropWhile skips ++ tail := by
    intro tail head
    have stopped : tail.dropWhile skips = tail := by
      cases tail with
      | nil => rfl
      | cons t ts => exact List.dropWhile_cons_of_neg (by simp [other t (m.stop t head.symm)])
    rw [List.dropWhile_append, stopped]
    split
    · next empty => rw [List.isEmpty_iff.mp empty, List.nil_append]
    · rfl
  refine loosen (step [] (List.dropWhile_suffix skips) ?_ (.inr ?_) (inStep (r.dropWhile skips)))
  · intro depth log
    rw [bind_apply, skipWhile_apply, skipped _ rfl, List.append_nil]
  · intro depth log
    rw [bind_apply, skipWhile_apply, skipped _ m.head, List.append_nil]

theorem integerValue_bind {f g : Quantity → Parser α} (readable : t.Readable) (integer : t.kind = .integer)
    (inStep : ∀ n, InStep m b (f n) (g n) r Q) :
    InStep m b (integerValue m.cx t >>= f) (integerValue m.cx' t >>= g) r Q := by
  obtain ⟨n, ds, value, other⟩ := m.integer readable integer
  refine step ds (List.suffix_refl r) ?_ (other.imp_right fun same => ?_) (inStep n)
  · intro depth log
    rw [bind_apply, value]
  · intro depth log
    rw [bind_apply, same, value]

/-! ### Loops -/

theorem iterate {step step' : α → Parser (Option α)}
    (turn : ∀ a r, InStep m r (step a) (step' a) r fun o r' => o.isSome = true → r'.length < r.length)
    (turns turns' : Nat) (a : α) (r : List Token)
    (enough : turns' = turns ∨ r.length < turns ∧ r.length < turns') :
    InStep m r (iterate step turns a) (iterate step' turns' a) r fun _ _ => True := by
  induction turns generalizing turns' a r with
  | zero =>
    obtain rfl : turns' = 0 := by omega
    exact .pure trivial
  | succ turns ih =>
    obtain ⟨turns', rfl⟩ : ∃ n, turns' = n + 1 := ⟨turns' - 1, by omega⟩
    apply (turn a r).bind
    intro o r' _ taken
    cases o with
    | none => exact .pure trivial
    | some c =>
      -- a turn takes a token, so that fewer turns are enough behind it
      have shorter := taken rfl
      exact ih turns' c r' (by omega)

theorem repeatedly {step step' : α → Parser (Option α)}
    (turn : ∀ a r, InStep m r (step a) (step' a) r fun o r' => o.isSome = true → r'.length < r.length)
    (a : α) (r : List Token) :
    InStep m r (repeatedly step a) (repeatedly step' a) r fun _ _ => True := by
  have enough : (r ++ m.tail').length = (r ++ m.tail).length ∨
      r.length < (r ++ m.tail).length ∧ r.length < (r ++ m.tail').length := by
    have head := m.head
    cases stop : m.tail with
    | nil =>
      rw [stop, List.head?_nil, List.head?_eq_none_iff] at head
      simp [head]
    | cons t ts =>
      cases stop' : m.tail' with
      | nil => simp [stop, stop'] at head
      | cons t' ts' =>
        simp only [List.length_append, List.length_cons]
        omega
  refine same ?_ ?_ (iterate turn _ _ a r enough)
  · intro depth log
    rfl
  · intro depth log
    rfl

end InStep

end Parser

end PlZero

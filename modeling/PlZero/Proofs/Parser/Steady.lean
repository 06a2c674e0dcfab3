import PlZero.Proofs.Parser.Tandem

/-! # Runs that see nothing behind what they leave

A parser sees the next token and no other.  So a run that leaves a token has seen nothing behind it, and
goes the same way whatever is there.  Nor does a run depend on the level it starts from or on what has been
reported before: it goes back to that level and adds to the log.

* `Hidden r tail` says that the tokens `tail` cannot be seen over `r`;
* `Runs p r o r' ds` says what the parser `p` does at the tokens `r`, with any tokens behind them that are
  hidden by what it leaves;
* `Consumes wants r r'` says that of the tokens `r` something was taken if the first of them is wanted, and
  nothing otherwise;
* `Steady b p r Q` is the judgement that there is such a run, with one rule for each way in which parsers are
  put together.  However the run ends, only tokens of `b` are left, and `Q` holds of what it gives and of
  the tokens that are left.

A loop is bounded by the number of tokens, and so by tokens that it must not see.  If its turns take tokens
the bound plays no part, and a loop is its first turn and then a loop again (`repeatedly_eq`).
-/

namespace PlZero

namespace Parser

variable {α β : Type} {cx : Context}

/-! ## Hidden tokens -/

/-- The tokens `tail` stand behind a token of `r`, or there are none. -/
def Hidden (r tail : List Token) : Prop := r = [] → tail = []

namespace Hidden

variable {r r' tail : List Token}

theorem of_suffix (hidden : Hidden r' tail) (suffix : r' <:+ r) : Hidden r tail := by
  rintro rfl
  exact hidden (List.suffix_nil.mp suffix)

theorem head (hidden : Hidden r tail) : (r ++ tail).head? = r.head? := by
  cases r with
  | nil => rw [hidden rfl, List.append_nil]
  | cons t ts => rfl

theorem front (hidden : Hidden r tail) : cx.front (r ++ tail) = cx.front r := by
  cases r with
  | nil => rw [hidden rfl, List.append_nil]
  | cons t ts => rfl

theorem missingAt (hidden : Hidden r tail) (wanted : Wanted) (place : Place) (recovery : Recovery) :
    missingAt cx wanted place recovery (r ++ tail) = missingAt cx wanted place recovery r := by
  rw [Parser.missingAt, hidden.head, hidden.front, Parser.missingAt]

end Hidden

/-! ## First tokens -/

/-- A parser at the tokens `r` has left `r'`, and it took something exactly if the first token is one that it
wants. -/
def Consumes (wants : Token → Bool) : List Token → List Token → Prop
  | [], r' => r' = []
  | t :: ts, r' => if wants t then r' <:+ ts else r' = t :: ts

namespace Consumes

variable {wants wants' : Token → Bool} {r r' r'' ts : List Token} {t : Token}

theorem of_wanted (wanted : wants t = true) (left : r' <:+ ts) : Consumes wants (t :: ts) r' := by
  rwa [Consumes, if_pos wanted]

theorem behind (consumes : Consumes wants (t :: ts) r') (wanted : wants t = true) : r' <:+ ts := by
  rwa [Consumes, if_pos wanted] at consumes

theorem refl (unwanted : ∀ t ∈ r.head?, wants t = false) : Consumes wants r r := by
  cases r with
  | nil => rfl
  | cons t ts => rw [Consumes, if_neg (by simp [unwanted t rfl])]

theorem suffix (consumes : Consumes wants r r') : r' <:+ r := by
  cases r with
  | nil =>
    obtain rfl : r' = [] := consumes
    exact List.suffix_refl _
  | cons t ts =>
    rw [Consumes] at consumes
    split at consumes
    · exact consumes.trans (List.suffix_cons t ts)
    · subst consumes
      exact List.suffix_refl _

/-- A second parser may want a token that the first one has left. -/
theorem trans (first : Consumes wants r r') (second : Consumes wants' r' r'') :
    Consumes (fun t => wants t || wants' t) r r'' := by
  cases r with
  | nil =>
    obtain rfl : r' = [] := first
    exact second
  | cons t ts =>
    rw [Consumes] at first
    split at first
    · next wanted => exact of_wanted (by simp [wanted]) (second.suffix.trans first)
    · next unwanted =>
      subst first
      simpa [Consumes, unwanted] using second

theorem congr (same : ∀ t, wants t = wants' t) (consumes : Consumes wants r r') :
    Consumes wants' r r' := by
  obtain rfl : wants = wants' := funext same
  exact consumes

/-- Nothing is taken if and only if there is no first token or it is not wanted. -/
theorem eq_iff (consumes : Consumes wants r r') : r' = r ↔ ∀ t ∈ r.head?, wants t = false := by
  cases r with
  | nil => simpa [Consumes] using consumes
  | cons t ts =>
    rw [Consumes] at consumes
    split at consumes
    · next wanted =>
      have shorter := consumes.length_le
      constructor
      · rintro rfl
        simp only [List.length_cons] at shorter
        omega
      · intro unwanted
        simp [wanted] at unwanted
    · next unwanted => simpa [unwanted] using consumes

end Consumes

/-! ## Loops -/

section Loops

variable {step : α → Parser (Option α)}
  (progress : ∀ a b s s', step a s = .ok (some b) s' → s'.rest.length < s.rest.length)
  (ended : ∀ a depth log, step a ⟨[], depth, log⟩ = .ok none ⟨[], depth, log⟩)

include ended in
/-- At the end of the input a loop is over, however many turns it may take. -/
theorem iterate_of_ended (a : α) {s : State} (nothing : s.rest.length = 0) (turns : Nat) :
    iterate step turns a s = .ok a s := by
  obtain ⟨r, depth, log⟩ := s
  obtain rfl := List.length_eq_zero_iff.mp nothing
  exact iterate_of_declined (ended a depth log) turns

include progress ended

/-- More turns than there are tokens make no difference. -/
theorem iterate_eq_of_le {n m : Nat} (a : α) {s : State} (enough : s.rest.length ≤ n)
    (enough' : s.rest.length ≤ m) : iterate step n a s = iterate step m a s := by
  -- both loops take the same turns, and each turn leaves enough of them for the tokens behind it
  induction n generalizing m a s with
  | zero =>
    have nothing := Nat.le_zero.mp enough
    rw [iterate_of_ended ended a nothing, iterate_of_ended ended a nothing]
  | succ n ih =>
    cases m with
    | zero =>
      have nothing := Nat.le_zero.mp enough'
      rw [iterate_of_ended ended a nothing, iterate_of_ended ended a nothing]
    | succ m =>
      simp only [iterate, bind_apply]
      cases turn : step a s with
      | error h s' => rfl
      | ok o s' =>
        cases o with
        | none => rfl
        | some b =>
          have shorter := progress a b s s' turn
          exact ih b (by omega) (by omega)

/-- A loop is its first turn, and the same loop behind it if that turn goes on. -/
theorem repeatedly_eq (a : α) : repeatedly step a = (do
    match ← step a with
    | some b => repeatedly step b
    | none => return a) := by
  funext s
  -- one turn more than there are tokens, so that there is a first one in any case
  have first : repeatedly step a s = iterate step (s.rest.length + 1) a s :=
    iterate_eq_of_le progress ended a (Nat.le_refl _) (Nat.le_succ _)
  rw [first]
  simp only [iterate, bind_apply]
  cases turn : step a s with
  | error h s' => rfl
  | ok o s' =>
    cases o with
    | none => rfl
    | some b =>
      have shorter := progress a b s s' turn
      exact iterate_eq_of_le progress ended b (Nat.le_of_lt shorter) (Nat.le_refl _)

end Loops

/-! ## Steady runs -/

/-- A run that gives `o` and ends in the state `s`. -/
def ending (s : State) : Except Halt α → EStateM.Result Halt State α
  | .ok a => .ok a s
  | .error h => .error h s

/-- At the tokens `r` the parser gives `o`, leaves the tokens `r'` and reports `ds`, from any level, with any
log, and with any tokens behind `r` that are hidden by `r'`. -/
def Runs (p : Parser α) (r : List Token) (o : Except Halt α) (r' : List Token) (ds : List Diagnostic) :
    Prop :=
  ∀ tail, Hidden r' tail → ∀ depth log,
    p ⟨r ++ tail, depth, log⟩ = ending ⟨r' ++ tail, depth, ⟨log.entries ++ ds⟩⟩ o

/-- The parser runs at the tokens `r` as `Runs` says.  It leaves tokens of `b`, and `Q` holds of what it
gives and these tokens. -/
structure Steady (b : List Token) (p : Parser α) (r : List Token) (Q : α → List Token → Prop) : Prop where
  bound : b <:+ r
  run : ∃ o r' ds, r' <:+ b ∧ (∀ a, o = .ok a → Q a r') ∧ Runs p r o r' ds

namespace Steady

variable {b b' r r' ts : List Token} {t : Token} {p q : Parser α} {P Q : α → List Token → Prop}

theorem weaken (steady : Steady b p r P) (bound : b <:+ b') (bound' : b' <:+ r)
    (weaker : ∀ a r', r' <:+ b → P a r' → Q a r') : Steady b' p r Q := by
  obtain ⟨-, o, r', ds, left, given, runs⟩ := steady
  exact ⟨bound', o, r', ds, left.trans bound, fun a ok => weaker a r' left (given a ok), runs⟩

theorem loosen (steady : Steady b p r Q) : Steady r p r Q :=
  steady.weaken steady.bound (List.suffix_refl r) fun _ _ _ => id

theorem mono (steady : Steady b p r P) (weaker : ∀ a r', r' <:+ b → P a r' → Q a r') : Steady b p r Q :=
  steady.weaken (List.suffix_refl b) steady.bound weaker

theorem forget (steady : Steady b p r Q) : Steady b p r fun _ _ => True :=
  steady.mono fun _ _ _ _ => trivial

theorem reach (steady : Steady b p r Q) : Steady r p r fun _ r' => r' <:+ b :=
  steady.weaken steady.bound (List.suffix_refl r) fun _ _ left _ => left

/-- A parser that takes the first token, which is wanted. -/
theorem consuming {wants : Token → Bool} (steady : Steady ts p (t :: ts) Q) (wanted : wants t = true) :
    Steady (t :: ts) p (t :: ts) fun _ r' => Consumes wants (t :: ts) r' :=
  steady.weaken steady.bound (List.suffix_refl _) fun _ _ left _ => .of_wanted wanted left

/-- The first steps, up to the tokens `r'`. -/
theorem step (before : List Diagnostic) (suffix : r' <:+ r)
    (run : ∀ tail, Hidden r' tail → ∀ depth log,
      p ⟨r ++ tail, depth, log⟩ = q ⟨r' ++ tail, depth, ⟨log.entries ++ before⟩⟩)
    (steady : Steady b q r' Q) : Steady b p r Q := by
  obtain ⟨bound, o, r'', ds, left, given, runs⟩ := steady
  refine ⟨bound.trans suffix, o, r'', before ++ ds, left, given, fun tail hidden depth log => ?_⟩
  rw [run tail (hidden.of_suffix (left.trans bound)), runs tail hidden, List.append_assoc]

theorem same (run : ∀ tail, Hidden r tail → ∀ depth log,
      p ⟨r ++ tail, depth, log⟩ = q ⟨r ++ tail, depth, log⟩)
    (steady : Steady b q r Q) : Steady b p r Q := by
  refine step [] (List.suffix_refl r) (fun tail hidden depth log => ?_) steady
  rw [run tail hidden, List.append_nil]

theorem take (run : ∀ tail depth log, p ⟨t :: ts ++ tail, depth, log⟩ = q ⟨ts ++ tail, depth, log⟩)
    (steady : Steady b q ts Q) : Steady b p (t :: ts) Q := by
  refine step [] (List.suffix_cons t ts) (fun tail _ depth log => ?_) steady
  rw [run, List.append_nil]

protected theorem pure {a : α} (holds : Q a r) : Steady r (pure a) r Q := by
  refine ⟨List.suffix_refl r, .ok a, r, [], List.suffix_refl r, ?_, fun tail _ depth log => ?_⟩
  · rintro _ ⟨⟩
    exact holds
  · rw [List.append_nil]
    rfl

/-- One parser after another.  The second starts at tokens that the first has left. -/
theorem bind {f : α → Parser β} {Q : β → List Token → Prop} (first : Steady b p r P)
    (second : ∀ a r', r' <:+ b → P a r' → Steady r' (f a) r' Q) : Steady b (p >>= f) r Q := by
  obtain ⟨bound, o, r', ds, left, given, runs⟩ := first
  cases o with
  | error h =>
    refine ⟨bound, .error h, r', ds, left, nofun, fun tail hidden depth log => ?_⟩
    rw [bind_apply, runs tail hidden]
    rfl
  | ok a =>
    -- whatever is hidden by the tokens that the second leaves is also hidden from the first
    obtain ⟨-, o, r'', ds', left', given', runs'⟩ := second a r' left (given a rfl)
    refine ⟨bound, o, r'', ds ++ ds', left'.trans left, given', fun tail hidden depth log => ?_⟩
    rw [bind_apply, runs tail (hidden.of_suffix left')]
    refine (runs' tail hidden depth _).trans ?_
    rw [List.append_assoc]

/-- What is known of a run that was not stopped. -/
theorem of_ok (steady : Steady b p r Q) {depth : Nat} {log : Log} {a : α} {s : State}
    (result : p ⟨r, depth, log⟩ = .ok a s) : s.rest <:+ b ∧ Q a s.rest := by
  obtain ⟨-, o, r', ds, left, given, runs⟩ := steady
  have run := runs [] (fun _ => rfl) depth log
  rw [List.append_nil, List.append_nil, result] at run
  cases o with
  | error h => cases run
  | ok a' =>
    obtain ⟨rfl, rfl⟩ := EStateM.Result.ok.inj run
    exact ⟨left, given a rfl⟩

/-! ### Halts and levels -/

theorem halt (h : Halt) : Steady r (halt h) r Q := by
  refine ⟨List.suffix_refl r, .error h, r, [], List.suffix_refl r, nofun, fun tail _ depth log => ?_⟩
  rw [List.append_nil]
  rfl

theorem tooDeep : Steady r (tooDeep cx) r Q :=
  same (fun _ hidden _ _ => by simp [hidden.front])
    (halt (.tooDeep cx.limits.maxNesting (cx.front r)))

theorem malformed (wanted : Wanted) (place : Place) : Steady r (malformed cx wanted place) r Q := by
  refine step [missingAt cx wanted place .omitted r] (List.suffix_refl r) ?_
    (halt (.malformed wanted (cx.front r)))
  intro tail hidden depth log
  rw [malformed_apply, hidden.front, hidden.missingAt]
  rfl

theorem catching (steady : Steady b p r Q) : Steady b (Parser.catching p) r fun _ _ => True := by
  obtain ⟨bound, o, r', ds, left, -, runs⟩ := steady
  refine ⟨bound, .ok o, r', ds, left, fun _ _ => trivial, fun tail hidden depth log => ?_⟩
  rw [Parser.catching, runs tail hidden]
  cases o with
  | ok | error => rfl

theorem deeper (steady : Steady b p r Q) : Steady b (Parser.deeper p) r Q := by
  obtain ⟨bound, o, r', ds, left, given, runs⟩ := steady
  refine ⟨bound, o, r', ds, left, given, fun tail hidden depth log => ?_⟩
  rw [deeper_apply, runs tail hidden]
  cases o with
  | ok | error => rfl

/-! ### Tokens and complaints -/

theorem ite {c : Prop} [Decidable c] (yes : c → Steady b p r Q) (no : ¬ c → Steady b q r Q) :
    Steady b (if c then p else q) r Q := by
  by_cases holds : c
  · rw [if_pos holds]
    exact yes holds
  · rw [if_neg holds]
    exact no holds

theorem peek_bind {f : Option Token → Parser α} (ended : r = [] → Steady b (f none) r Q)
    (seen : ∀ t ts, r = t :: ts → Steady b (f (some t)) r Q) : Steady b (peek >>= f) r Q := by
  refine same (q := f r.head?) (fun tail hidden _ _ => by simp [hidden.head]) ?_
  cases r with
  | nil => exact ended rfl
  | cons t ts => exact seen t ts rfl

theorem here_bind {f : Location → Parser α} (steady : ∀ l, Steady b (f l) r Q) :
    Steady b (here cx >>= f) r Q :=
  same (fun _ hidden _ _ => by simp [hidden.front]) (steady (cx.front r))

theorem advance_bind {f : Unit → Parser α} (steady : Steady b (f ()) ts Q) :
    Steady b (advance >>= f) (t :: ts) Q :=
  take (fun _ _ _ => by simp) steady

theorem advance_consuming {f : Unit → Parser α} {wants : Token → Bool}
    (steady : Steady ts (f ()) ts fun _ _ => True) (wanted : wants t = true) :
    Steady (t :: ts) (advance >>= f) (t :: ts) fun _ r' => Consumes wants (t :: ts) r' :=
  (advance_bind steady).consuming wanted

theorem accept_bind {f : Option Token → Parser α} {accepts : Token → Bool}
    (accepted : ∀ t ts, r = t :: ts → accepts t = true → Steady ts (f (some t)) ts Q)
    (declined : (∀ t ∈ r.head?, accepts t = false) → Steady r (f none) r Q) :
    Steady (past accepts r) (accept accepts >>= f) r Q := by
  cases r with
  -- with nothing left before them, there are no hidden tokens that could be taken
  | nil => exact same (fun _ hidden _ _ => by simp [hidden rfl]) (declined (by simp))
  | cons t ts =>
    cases accepting : accepts t with
    | true =>
      rw [past, if_pos accepting]
      exact take (fun _ _ _ => by simp [accept_cons_of_pos accepting]) (accepted t ts rfl accepting)
    | false =>
      rw [past, if_neg (by simp [accepting])]
      exact same (fun _ _ _ _ => by simp [accept_cons_of_neg accepting]) (declined (by simpa))

theorem acceptAs_bind {f : Option (Token × β) → Parser α} {read : Token → Option β}
    (accepted : ∀ t c ts, r = t :: ts → read t = some c → Steady ts (f (some (t, c))) ts Q)
    (declined : (∀ t ∈ r.head?, read t = none) → Steady r (f none) r Q) :
    Steady r (acceptAs read >>= f) r Q := by
  cases r with
  | nil => exact same (fun _ hidden _ _ => by simp [hidden rfl]) (declined (by simp))
  | cons t ts =>
    cases reading : read t with
    | some c =>
      exact loosen (take (fun _ _ _ => by simp [acceptAs_cons_of_some reading])
        (accepted t c ts rfl reading))
    | none =>
      exact same (fun _ _ _ _ => by simp [acceptAs_cons_of_none reading]) (declined (by simpa))

theorem report_bind {f : Unit → Parser α} (wanted : Wanted) (place : Place) (recovery : Recovery)
    (steady : Steady b (f ()) r Q) : Steady b (report cx wanted place recovery >>= f) r Q := by
  refine step [missingAt cx wanted place recovery r] (List.suffix_refl r) ?_ steady
  intro tail hidden depth log
  rw [bind_apply, report_apply, hidden.missingAt]
  rfl

theorem report (wanted : Wanted) (place : Place) (recovery : Recovery) :
    Steady r (report cx wanted place recovery) r fun _ _ => True := by
  have reported : Steady r (Parser.report cx wanted place recovery >>= pure) r fun _ _ => True :=
    report_bind wanted place recovery (.pure trivial)
  rwa [bind_pure] at reported

theorem require (accepts : Token → Bool) (symbol : String) (place : Place) :
    Steady r (require cx accepts symbol place) r fun _ _ => True :=
  loosen (accept_bind (fun _ _ _ _ => .pure trivial) fun _ => report _ _ _)

theorem record (d : Diagnostic) : Steady r (record d) r fun _ _ => True :=
  step [d] (List.suffix_refl r) (q := pure ()) (fun _ _ _ _ => rfl) (.pure trivial)

/-- If something is left of the tokens, what is skipped ends before it. -/
theorem skipWhile_bind {f : Unit → Parser α} {skips : Token → Bool}
    (steady : ∀ r, Steady r (f ()) r Q) : Steady r (skipWhile skips >>= f) r Q := by
  refine loosen (step [] (List.dropWhile_suffix skips) ?_ (steady (r.dropWhile skips)))
  intro tail hidden depth log
  have skipped : (r ++ tail).dropWhile skips = r.dropWhile skips ++ tail := by
    rw [List.dropWhile_append]
    split
    · next empty =>
      have nothing := List.isEmpty_iff.mp empty
      rw [hidden nothing, nothing]
      rfl
    · rfl
  rw [bind_apply, skipWhile_apply, skipped, List.append_nil]

theorem integerValue (t : Token) : Steady r (integerValue cx t) r fun _ _ => True := by
  have saturated : Steady r (saturate cx t) r fun _ _ => True :=
    (record _).bind fun _ _ _ _ => .pure trivial
  apply ite
  · intro _
    exact saturated
  intro _
  cases Text.readInteger (Text.stripZeros t.lexeme) with
  | error cause => exact halt (.unreadable cause)
  | ok n =>
    cases allowed : cx.limits.maxInteger.allows? n with
    | none => simpa [allowed] using halt .blankLimit
    | some within =>
      cases within with
      | true => simpa [allowed] using .pure trivial
      | false => simpa [allowed] using saturated

/-! ### Loops -/

/-- A turn that goes on has taken a token, in any state. -/
theorem progress {step : α → Parser (Option α)}
    (turn : ∀ a r, Steady r (step a) r fun o r' => o.isSome = true → r'.length < r.length) :
    ∀ a b s s', step a s = .ok (some b) s' → s'.rest.length < s.rest.length := by
  rintro a b ⟨r, depth, log⟩ s' result
  obtain ⟨-, shorter⟩ := (turn a r).of_ok result
  exact shorter rfl

theorem repeatedly {step : α → Parser (Option α)}
    (turn : ∀ a r, Steady r (step a) r fun o r' => o.isSome = true → r'.length < r.length)
    (ended : ∀ a depth log, step a ⟨[], depth, log⟩ = .ok none ⟨[], depth, log⟩)
    (a : α) (r : List Token) : Steady r (repeatedly step a) r fun _ _ => True := by
  -- the loop behind the first turn has fewer tokens before it
  induction length : r.length using Nat.strongRecOn generalizing a r with
  | ind n ih =>
    rw [repeatedly_eq (progress turn) ended]
    apply (turn a r).bind
    intro o r' _ taken
    cases o with
    | none => exact .pure trivial
    | some c => exact ih r'.length (length ▸ taken rfl) c r' rfl

end Steady

end Parser

end PlZero

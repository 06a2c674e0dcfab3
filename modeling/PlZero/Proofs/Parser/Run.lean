import PlZero.Parser.Basic

/-! # How parsers run

The result of every primitive parser on a state that is spelled out.  With these equations a
production can be run by rewriting, so no later proof has to open a `do` block of the primitives.

* `Context.front` is the location at which a complaint is made, and `missingAt` that complaint;
* the `_apply` lemmas run one primitive each.
-/

namespace PlZero

namespace Parser

variable {α β : Type} {cx : Context} {r ts : List Token} {t : Token} {depth : Nat} {log : Log}

/-- Where the first of the remaining tokens stands, or the end of the input. -/
def Context.front (cx : Context) : List Token → Location
  | [] => cx.endLoc
  | t :: _ => t.loc

/-- The complaint that something is missing before the remaining tokens. -/
def missingAt (cx : Context) (wanted : Wanted) (place : Place) (recovery : Recovery)
    (r : List Token) : Diagnostic :=
  Complaint.missing wanted place recovery r.head? (cx.front r)

/-! ## Sequencing -/

@[simp] theorem bind_apply (p : Parser α) (f : α → Parser β) (s : State) :
    (p >>= f) s = match p s with
      | .ok a s => f a s
      | .error h s => .error h s := by
  simp only [bind, EStateM.bind]
  split <;> simp_all

@[simp] theorem pure_apply (a : α) (s : State) : (pure a : Parser α) s = .ok a s := rfl

@[simp] theorem map_apply (f : α → β) (p : Parser α) (s : State) :
    (f <$> p) s = match p s with
      | .ok a s => .ok (f a) s
      | .error h s => .error h s := by
  simp only [Functor.map, EStateM.map]
  split <;> simp_all

/-! ## Primitives -/

@[simp] theorem peek_apply (s : State) : peek s = .ok s.rest.head? s := rfl

@[simp] theorem advance_apply : advance ⟨t :: ts, depth, log⟩ = .ok () ⟨ts, depth, log⟩ := rfl

@[simp] theorem here_apply : here cx ⟨r, depth, log⟩ = .ok (cx.front r) ⟨r, depth, log⟩ := by
  cases r <;> rfl

@[simp] theorem record_apply (d : Diagnostic) :
    record d ⟨r, depth, log⟩ = .ok () ⟨r, depth, log.add d⟩ := rfl

@[simp] theorem halt_apply (h : Halt) (s : State) : (halt h : Parser α) s = .error h s := rfl

@[simp] theorem skipAll_apply : skipAll ⟨r, depth, log⟩ = .ok () ⟨[], depth, log⟩ := rfl

@[simp] theorem skipWhile_apply (p : Token → Bool) :
    skipWhile p ⟨r, depth, log⟩ = .ok () ⟨r.dropWhile p, depth, log⟩ := rfl

@[simp] theorem accept_nil (p : Token → Bool) :
    accept p ⟨[], depth, log⟩ = .ok none ⟨[], depth, log⟩ := rfl

theorem accept_cons_of_pos {p : Token → Bool} (accepted : p t = true) :
    accept p ⟨t :: ts, depth, log⟩ = .ok (some t) ⟨ts, depth, log⟩ := by
  simp [accept, accepted]

theorem accept_cons_of_neg {p : Token → Bool} (declined : p t = false) :
    accept p ⟨t :: ts, depth, log⟩ = .ok none ⟨t :: ts, depth, log⟩ := by
  simp [accept, declined]

@[simp] theorem acceptAs_nil (f : Token → Option α) :
    acceptAs f ⟨[], depth, log⟩ = .ok none ⟨[], depth, log⟩ := rfl

theorem acceptAs_cons_of_some {f : Token → Option α} {a : α} (accepted : f t = some a) :
    acceptAs f ⟨t :: ts, depth, log⟩ = .ok (some (t, a)) ⟨ts, depth, log⟩ := by
  simp [acceptAs, accepted]

theorem acceptAs_cons_of_none {f : Token → Option α} (declined : f t = none) :
    acceptAs f ⟨t :: ts, depth, log⟩ = .ok none ⟨t :: ts, depth, log⟩ := by
  simp [acceptAs, declined]

@[simp] theorem report_apply (wanted : Wanted) (place : Place) (recovery : Recovery) :
    report cx wanted place recovery ⟨r, depth, log⟩ =
      .ok () ⟨r, depth, log.add (missingAt cx wanted place recovery r)⟩ := by
  simp [report, missingAt]

@[simp] theorem require_nil (p : Token → Bool) (symbol : String) (place : Place) :
    require cx p symbol place ⟨[], depth, log⟩ =
      .ok () ⟨[], depth, log.add (missingAt cx (.symbol symbol) place .assumedPresent [])⟩ := by
  simp [require]

theorem require_cons_of_pos {p : Token → Bool} (accepted : p t = true) (symbol : String)
    (place : Place) : require cx p symbol place ⟨t :: ts, depth, log⟩ = .ok () ⟨ts, depth, log⟩ := by
  simp [require, accept_cons_of_pos accepted]

theorem require_cons_of_neg {p : Token → Bool} (declined : p t = false) (symbol : String)
    (place : Place) : require cx p symbol place ⟨t :: ts, depth, log⟩ =
      .ok () ⟨t :: ts, depth,
        log.add (missingAt cx (.symbol symbol) place .assumedPresent (t :: ts))⟩ := by
  simp [require, accept_cons_of_neg declined]

@[simp] theorem tooDeep_apply : (tooDeep cx : Parser α) ⟨r, depth, log⟩ =
    .error (.tooDeep cx.limits.maxNesting (cx.front r)) ⟨r, depth, log⟩ := by
  simp [tooDeep]

@[simp] theorem malformed_apply (wanted : Wanted) (place : Place) :
    (malformed cx wanted place : Parser α) ⟨r, depth, log⟩ =
      .error (.malformed wanted (cx.front r))
        ⟨r, depth, log.add (missingAt cx wanted place .omitted r)⟩ := by
  simp [malformed]

/-! ## Loops -/

theorem iterate_of_declined {step : α → Parser (Option α)} {a : α} {s : State}
    (declined : step a s = .ok none s) (turns : Nat) : iterate step turns a s = .ok a s := by
  cases turns with
  | zero => rfl
  | succ turns => simp [iterate, declined]

end Parser

end PlZero

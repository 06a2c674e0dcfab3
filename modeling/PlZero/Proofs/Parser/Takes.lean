import PlZero.Proofs.Parser.Cut

/-! # What a parser takes

`Takes p r R` says that the parser `p` takes tokens from the front of `r`, whatever it reports and
however it ends, and that `R` holds of what it gives and the tokens that it took for it.  The rules follow
the way a parser is written.  Behind a first parser the tokens that it has taken stay in front of those
that are taken next, so `R` is always about all tokens since the start.
-/

namespace PlZero

namespace Parser

variable {α β : Type} {cx : Context}

/-- The run has taken tokens from the front of `r`, and if it was not stopped, for a result with `R`. -/
def Took (r : List Token) (R : α → List Token → Prop) : EStateM.Result Halt State α → Prop
  | .ok a s => ∃ taken, r = taken ++ s.rest ∧ R a taken
  | .error _ s => s.rest <:+ r

/-- From the tokens `r` the parser takes some of the first, and `R` holds of the result and of these. -/
def Takes (p : Parser α) (r : List Token) (R : α → List Token → Prop) : Prop :=
  (∀ t ∈ r, t.Readable) → ∀ depth log, Took r R (p ⟨r, depth, log⟩)

namespace Takes

variable {p q : Parser α} {R S : α → List Token → Prop} {r ts : List Token} {t : Token}

theorem mono (takes : Takes p r R) (weaker : ∀ a taken, R a taken → S a taken) : Takes p r S := by
  intro readable depth log
  have ends := takes readable depth log
  cases run : p ⟨r, depth, log⟩ with
  | ok a s =>
    rw [run] at ends
    obtain ⟨taken, split, holds⟩ := ends
    exact ⟨taken, split, weaker a taken holds⟩
  | error h s =>
    rw [run] at ends
    exact ends

theorem same (run : ∀ depth log, p ⟨r, depth, log⟩ = q ⟨r, depth, log⟩) (takes : Takes q r R) :
    Takes p r R := by
  intro readable depth log
  rw [run]
  exact takes readable depth log

/-- Tokens that are taken, whatever is reported about them. -/
theorem step (taken : List Token) {f : Log → Log}
    (run : ∀ depth log, p ⟨taken ++ ts, depth, log⟩ = q ⟨ts, depth, f log⟩)
    (takes : Takes q ts fun a more => R a (taken ++ more)) : Takes p (taken ++ ts) R := by
  intro readable depth log
  have ends := takes (fun t member => readable t (List.mem_append_right _ member)) depth (f log)
  rw [run]
  cases run' : q ⟨ts, depth, f log⟩ with
  | ok a s =>
    rw [run'] at ends
    obtain ⟨more, split, holds⟩ := ends
    exact ⟨taken ++ more, by rw [split, List.append_assoc], holds⟩
  | error h s =>
    rw [run'] at ends
    exact List.IsSuffix.trans ends (List.suffix_append _ _)

theorem take (run : ∀ depth log, p ⟨t :: ts, depth, log⟩ = q ⟨ts, depth, log⟩)
    (takes : Takes q ts fun a more => R a (t :: more)) : Takes p (t :: ts) R :=
  step [t] (f := id) run takes

protected theorem pure {a : α} (holds : R a []) : Takes (pure a) r R := by
  intro _ depth log
  exact ⟨[], rfl, holds⟩

theorem bind {f : α → Parser β} {S : β → List Token → Prop} (first : Takes p r R)
    (second : ∀ a taken r', R a taken → Takes (f a) r' fun b more => S b (taken ++ more)) :
    Takes (p >>= f) r S := by
  intro readable depth log
  have ends := first readable depth log
  rw [bind_apply]
  cases run : p ⟨r, depth, log⟩ with
  | error h s =>
    rw [run] at ends
    exact ends
  | ok a s =>
    rw [run] at ends
    obtain ⟨taken, split, holds⟩ := ends
    have onward : Takes (fun _ => f a s) r S := by
      rw [split]
      exact step taken (f := fun _ => s.log) (q := fun s' => f a ⟨s'.rest, s.depth, s'.log⟩)
        (fun _ _ => rfl) (fun readable _ log => second a taken s.rest holds readable s.depth log)
    exact onward readable depth log

/-! ### Halts and levels -/

theorem tooDeep : Takes (tooDeep cx) r R := by
  intro _ depth log
  rw [tooDeep_apply]
  exact List.suffix_refl r

theorem malformed (wanted : Wanted) (place : Place) : Takes (malformed cx wanted place) r R := by
  intro _ depth log
  rw [malformed_apply]
  exact List.suffix_refl r

theorem deeper (takes : Takes p r R) : Takes (Parser.deeper p) r R := by
  intro readable depth log
  have ends := takes readable (depth + 1) log
  rw [deeper_apply]
  cases run : p ⟨r, depth + 1, log⟩ <;> rw [run] at ends <;> exact ends

/-! ### Tokens and complaints -/

theorem ite {c : Prop} [Decidable c] (yes : c → Takes p r R) (no : ¬ c → Takes q r R) :
    Takes (if c then p else q) r R := by
  by_cases holds : c
  · rw [if_pos holds]
    exact yes holds
  · rw [if_neg holds]
    exact no holds

theorem peek_bind {f : Option Token → Parser α} (nil : Takes (f none) [] R)
    (cons : ∀ t ts, t.Readable → Takes (f (some t)) (t :: ts) R) : Takes (peek >>= f) r R := by
  intro readable
  cases r with
  | nil => exact same (fun _ _ => by simp) nil readable
  | cons t ts =>
    exact same (fun _ _ => by simp) (cons t ts (readable t List.mem_cons_self)) readable

theorem here_bind {f : Location → Parser α} (takes : ∀ l, Takes (f l) r R) :
    Takes (here cx >>= f) r R := same (fun _ _ => by simp) (takes (cx.front r))

theorem advance_bind {f : Unit → Parser α} (takes : Takes (f ()) ts fun a more => R a (t :: more)) :
    Takes (advance >>= f) (t :: ts) R := take (fun _ _ => by simp) takes

theorem accept_bind {f : Option Token → Parser α} {accepts : Token → Bool}
    (accepted : ∀ t ts, t.Readable → accepts t = true →
      Takes (f (some t)) ts fun a more => R a (t :: more))
    (declined : Takes (f none) r R) : Takes (accept accepts >>= f) r R := by
  intro readable
  cases r with
  | nil => exact same (fun _ _ => by simp) declined readable
  | cons t ts =>
    cases accepting : accepts t with
    | true =>
      exact take (fun _ _ => by simp [accept_cons_of_pos accepting])
        (accepted t ts (readable t List.mem_cons_self) accepting) readable
    | false => exact same (fun _ _ => by simp [accept_cons_of_neg accepting]) declined readable

theorem acceptAs_bind {f : Option (Token × β) → Parser α} {read : Token → Option β}
    (accepted : ∀ t b ts, read t = some b → Takes (f (some (t, b))) ts fun a more => R a (t :: more))
    (declined : Takes (f none) r R) : Takes (acceptAs read >>= f) r R := by
  cases r with
  | nil => exact same (fun _ _ => by simp) declined
  | cons t ts =>
    cases reading : read t with
    | some b => exact take (fun _ _ => by simp [acceptAs_cons_of_some reading]) (accepted t b ts reading)
    | none => exact same (fun _ _ => by simp [acceptAs_cons_of_none reading]) declined

theorem advance : Takes advance r fun _ _ => True := by
  intro _ depth log
  cases r with
  | nil => exact ⟨[], rfl, trivial⟩
  | cons t ts => exact ⟨[t], rfl, trivial⟩

theorem report_bind {wanted : Wanted} {place : Place} {recovery : Recovery} {f : Unit → Parser α}
    (takes : Takes (f ()) r R) : Takes (report cx wanted place recovery >>= f) r R :=
  step [] (f := fun log => log.add (missingAt cx wanted place recovery r))
    (fun _ _ => by simp) takes

theorem report (wanted : Wanted) (place : Place) (recovery : Recovery) :
    Takes (report cx wanted place recovery) r fun _ _ => True := by
  intro _ depth log
  rw [report_apply]
  exact ⟨[], rfl, trivial⟩

theorem require {accepts : Token → Bool} {symbol : String} {place : Place} :
    Takes (require cx accepts symbol place) r fun _ _ => True :=
  accept_bind (fun _ _ _ _ => .pure trivial) (report _ _ _)

/-- The token stands for its number, or for the limit if that is less. -/
theorem integerValue_bind {limit : Int} {f : Quantity → Parser α} (readable : t.Readable)
    (integer : t.kind = .integer) (limited : cx.limits.maxInteger = .number limit)
    (takes : ∀ n : Int, t.value = .ok (.number n) → Takes (f (.number (min n limit))) r R) :
    Takes (integerValue cx t >>= f) r R := by
  obtain ⟨n, value, text⟩ := readable.value_eq integer
  have reading := integerValue_of_repr limited text
  by_cases le : (n : Int) ≤ limit
  · have known := takes n value
    rw [Int.min_eq_left le] at known
    rw [reading, if_pos le]
    exact same (fun _ _ => rfl) known
  · have known := takes n value
    rw [Int.min_eq_right (by omega)] at known
    rw [reading, if_neg le, saturate, limited]
    exact step [] (f := fun log => log.add _) (fun _ _ => rfl) known

/-! ### Loops -/

/-- A turn of a loop adds its tokens to those before it; a step that declines takes none. -/
def Grows (I : α → List Token → Prop) (before : List Token) : Option α → List Token → Prop
  | some a, more => I a (before ++ more)
  | none, more => more = []

theorem iterate {step : α → Parser (Option α)} {I : α → List Token → Prop}
    (turn : ∀ a before r, I a before → Takes (step a) r (Grows I before)) (turns : Nat) {a : α}
    {before : List Token} (holds : I a before) (r : List Token) :
    Takes (iterate step turns a) r fun b more => I b (before ++ more) := by
  induction turns generalizing a before r with
  | zero => exact .pure (by rwa [List.append_nil])
  | succ turns ih =>
    apply (turn a before r holds).bind
    intro o taken r' grown
    cases o with
    | none =>
      obtain rfl : taken = [] := grown
      exact .pure (by rwa [List.nil_append, List.append_nil])
    | some b =>
      have onward := ih grown r'
      exact onward.mono fun c more => by rw [List.append_assoc]; exact id

theorem repeatedly {step : α → Parser (Option α)} {I : α → List Token → Prop}
    (turn : ∀ a before r, I a before → Takes (step a) r (Grows I before)) {a : α}
    {before : List Token} (holds : I a before) (r : List Token) :
    Takes (repeatedly step a) r fun b more => I b (before ++ more) :=
  same (fun _ _ => rfl) (iterate turn r.length holds r)

end Takes

end Parser

end PlZero

import PlZero.Proofs.Parser.Trail

/-! # Two parsers of which one has less room

`Cut n p q r` compares two parsers at the tokens `r`.  The parser `p`, which has less room for
nesting, does as `q` does, or it gives up on the way; what it has reported by then is the beginning of
what `q` reports.  Of `q` the judgement also says that it takes tokens and adds to the log, never by a
complaint that the program was given up, and that it does not give up itself if fewer than `n` tokens
are left.

The rules follow the way a parser is written, as those for `Accounts` do.  A token that is taken makes
room for one level, so behind it only `n - 1` has to be shown.
-/

namespace PlZero

namespace Parser

variable {α β : Type} {cx : Context}

/-! ## Runs -/

/-- The state in which a run ends. -/
def final : EStateM.Result Halt State α → State
  | .ok _ s => s
  | .error _ s => s

/-- The run was given up because of nesting. -/
def Overflow : EStateM.Result Halt State α → Prop
  | .ok _ _ => False
  | .error h _ => Halt.IsTooDeep h

/-- What follows a run that was given up does nothing. -/
theorem overflow_bind {p : Parser α} {f : α → Parser β} {s : State} (overflow : Overflow (p s)) :
    Overflow ((p >>= f) s) ∧ final ((p >>= f) s) = final (p s) := by
  rw [bind_apply]
  cases run : p s with
  | ok a s' =>
    rw [run] at overflow
    exact overflow.elim
  | error h s' =>
    rw [run] at overflow
    exact ⟨overflow, rfl⟩

/-- Back one level at the end of a run. -/
def leave : EStateM.Result Halt State α → EStateM.Result Halt State α
  | .ok a s => .ok a { s with depth := s.depth - 1 }
  | .error h s => .error h { s with depth := s.depth - 1 }

theorem deeper_apply (p : Parser α) (r : List Token) (depth : Nat) (log : Log) :
    deeper p ⟨r, depth, log⟩ = leave (p ⟨r, depth + 1, log⟩) := by
  simp only [deeper]
  cases p ⟨r, depth + 1, log⟩ with
  | ok | error => rfl

@[simp] theorem overflow_leave (result : EStateM.Result Halt State α) :
    Overflow (leave result) ↔ Overflow result := by
  cases result with
  | ok | error => rfl

@[simp] theorem rest_final_leave (result : EStateM.Result Halt State α) :
    (final (leave result)).rest = (final result).rest := by
  cases result with
  | ok | error => rfl

@[simp] theorem log_final_leave (result : EStateM.Result Halt State α) :
    (final (leave result)).log = (final result).log := by
  cases result with
  | ok | error => rfl

/-- A later state: tokens were taken and complaints added, none of them about nesting. -/
structure Onward (r : List Token) (log : Log) (s : State) : Prop where
  shorter : s.rest.length ≤ r.length
  grown : ∃ ds, s.log.entries = log.entries ++ ds ∧ ∀ d ∈ ds, d.recovery ≠ some .abandoned

theorem Onward.refl (r : List Token) (depth : Nat) (log : Log) : Onward r log ⟨r, depth, log⟩ :=
  ⟨Nat.le_refl _, [], by simp, by simp⟩

theorem Onward.trans {r r' : List Token} {log log' : Log} {depth : Nat} {s : State}
    (first : Onward r log ⟨r', depth, log'⟩) (second : Onward r' log' s) : Onward r log s := by
  obtain ⟨shorter, ds, grown, frank⟩ := first
  obtain ⟨shorter', ds', grown', frank'⟩ := second
  refine ⟨Nat.le_trans shorter' shorter, ds ++ ds', ?_, ?_⟩
  · rw [grown', grown, List.append_assoc]
  · intro d member
    rcases List.mem_append.mp member with before | behind
    · exact frank d before
    · exact frank' d behind

theorem Onward.isPrefix {r : List Token} {log : Log} {s : State} (onward : Onward r log s) :
    log.entries <+: s.log.entries := by
  obtain ⟨_, ds, grown, _⟩ := onward
  exact ⟨ds, grown.symm⟩

/-- What is said of the results of two parsers that started at the tokens `r`. -/
structure Agree (n : Nat) (r : List Token) (log : Log) (a b : EStateM.Result Halt State α) : Prop where
  onward : Onward r log (final b)
  fits : r.length < n → ¬ Overflow b
  agrees : a = b ∨ Overflow a ∧ (final a).log.entries <+: (final b).log.entries

/-- At the tokens `r` the parser `p` does as `q` does or gives up, and `q` has room for fewer than `n`
tokens. -/
def Cut (n : Nat) (p q : Parser α) (r : List Token) : Prop :=
  ∀ depth log, Agree n r log (p ⟨r, depth, log⟩) (q ⟨r, depth, log⟩)

namespace Cut

variable {n m : Nat} {p q p' q' : Parser α} {r ts : List Token} {t : Token}

theorem mono (cut : Cut n p q r) (le : m ≤ n) : Cut m p q r := by
  intro depth log
  obtain ⟨onward, fits, agrees⟩ := cut depth log
  exact ⟨onward, fun few => fits (Nat.lt_of_lt_of_le few le), agrees⟩

/-- The first steps, which both parsers have in common.  They take at least `k` tokens. -/
theorem step {r' : List Token} {before : List Diagnostic} (k : Nat)
    (run : ∀ depth log, p ⟨r, depth, log⟩ = p' ⟨r', depth, ⟨log.entries ++ before⟩⟩)
    (run' : ∀ depth log, q ⟨r, depth, log⟩ = q' ⟨r', depth, ⟨log.entries ++ before⟩⟩)
    (taken : r'.length + k ≤ r.length) (frank : ∀ d ∈ before, d.recovery ≠ some .abandoned)
    (cut : Cut (n - k) p' q' r') : Cut n p q r := by
  intro depth log
  rw [run, run']
  obtain ⟨onward, fits, agrees⟩ := cut depth ⟨log.entries ++ before⟩
  have first : Onward r log ⟨r', depth, ⟨log.entries ++ before⟩⟩ :=
    ⟨Nat.le_trans (Nat.le_add_right _ k) taken, before, rfl, frank⟩
  refine ⟨first.trans onward, ?_, agrees⟩
  intro few
  exact fits (by omega)

theorem same (run : ∀ depth log, p ⟨r, depth, log⟩ = p' ⟨r, depth, log⟩)
    (run' : ∀ depth log, q ⟨r, depth, log⟩ = q' ⟨r, depth, log⟩) (cut : Cut n p' q' r) :
    Cut n p q r := by
  intro depth log
  rw [run, run']
  exact cut depth log

theorem take (run : ∀ depth log, p ⟨t :: ts, depth, log⟩ = p' ⟨ts, depth, log⟩)
    (run' : ∀ depth log, q ⟨t :: ts, depth, log⟩ = q' ⟨ts, depth, log⟩)
    (cut : Cut (n - 1) p' q' ts) : Cut n p q (t :: ts) := by
  have silent : ∀ d ∈ ([] : List Diagnostic), d.recovery ≠ some .abandoned := by simp
  refine step 1 (fun depth log => ?_) (fun depth log => ?_) (Nat.le_refl _) silent cut
  · rw [run, List.append_nil]
  · rw [run', List.append_nil]

protected theorem pure (a : α) : Cut n (pure a) (pure a) r := by
  intro depth log
  exact ⟨Onward.refl r depth log, fun _ => id, .inl rfl⟩

/-- One parser after another. -/
theorem bind {f g : α → Parser β} (first : Cut n p q r) (second : ∀ a r', Cut n (f a) (g a) r') :
    Cut n (p >>= f) (q >>= g) r := by
  intro depth log
  obtain ⟨onward, fits, agrees⟩ := first depth log
  cases run : q ⟨r, depth, log⟩ with
  | error h s =>
    have run' : (q >>= g) ⟨r, depth, log⟩ = .error h s := by rw [bind_apply, run]
    rw [run] at onward fits agrees
    rw [run']
    refine ⟨onward, fits, ?_⟩
    cases agrees with
    | inl equal =>
      left
      rw [bind_apply, equal]
    | inr cut =>
      obtain ⟨overflow, ends⟩ := overflow_bind (f := f) cut.1
      right
      rw [ends]
      exact ⟨overflow, cut.2⟩
  | ok a s =>
    obtain ⟨r', depth', log'⟩ := s
    have run' : (q >>= g) ⟨r, depth, log⟩ = g a ⟨r', depth', log'⟩ := by rw [bind_apply, run]
    rw [run] at onward agrees
    obtain ⟨onward', fits', agrees'⟩ := second a r' depth' log'
    rw [run']
    refine ⟨onward.trans onward', fun few => fits' (Nat.lt_of_le_of_lt onward.shorter few), ?_⟩
    cases agrees with
    | inl equal =>
      rw [bind_apply, equal]
      exact agrees'
    | inr cut =>
      -- the first parser has been given up, and the second adds to the log of the other
      obtain ⟨overflow, ends⟩ := overflow_bind (f := f) cut.1
      right
      rw [ends]
      exact ⟨overflow, cut.2.trans onward'.isPrefix⟩

/-! ### Halts and levels -/

/-- Whatever a parser does, one without any room gives up before it. -/
theorem giveUp (cut : Cut n p q r) : Cut n (tooDeep cx) q r := by
  intro depth log
  obtain ⟨onward, fits, _⟩ := cut depth log
  rw [tooDeep_apply]
  exact ⟨onward, fits, .inr ⟨trivial, onward.isPrefix⟩⟩

/-- Two parsers without any room. -/
theorem tooDeep {cx' : Context} (many : n ≤ r.length) :
    Cut n (tooDeep cx : Parser α) (tooDeep cx') r := by
  intro depth log
  rw [tooDeep_apply, tooDeep_apply]
  refine ⟨Onward.refl r depth log, ?_, .inr ⟨trivial, List.prefix_refl _⟩⟩
  intro few
  omega

theorem halt {h : Halt} (other : ¬ Halt.IsTooDeep h) : Cut n (halt h : Parser α) (halt h) r := by
  intro depth log
  exact ⟨Onward.refl r depth log, fun _ => other, .inl rfl⟩

theorem deeper (cut : Cut n p q r) : Cut n (Parser.deeper p) (Parser.deeper q) r := by
  intro depth log
  obtain ⟨onward, fits, agrees⟩ := cut (depth + 1) log
  rw [deeper_apply, deeper_apply]
  refine ⟨⟨by simpa using onward.shorter, by simpa using onward.grown⟩, by simpa using fits, ?_⟩
  cases agrees with
  | inl equal =>
    left
    rw [equal]
  | inr cut =>
    right
    simpa using cut

/-! ### Tokens and complaints -/

theorem ite {c : Prop} [Decidable c] (yes : c → Cut n p q r) (no : ¬ c → Cut n p' q' r) :
    Cut n (if c then p else p') (if c then q else q') r := by
  by_cases holds : c
  · rw [if_pos holds, if_pos holds]
    exact yes holds
  · rw [if_neg holds, if_neg holds]
    exact no holds

theorem peek_bind {f g : Option Token → Parser α} (cut : Cut n (f r.head?) (g r.head?) r) :
    Cut n (peek >>= f) (peek >>= g) r :=
  same (fun _ _ => by simp) (fun _ _ => by simp) cut

theorem here_bind {f g : Location → Parser α} (cut : Cut n (f (cx.front r)) (g (cx.front r)) r) :
    Cut n (here cx >>= f) (here cx >>= g) r :=
  same (fun _ _ => by simp) (fun _ _ => by simp) cut

theorem advance_bind {f g : Unit → Parser α} (cut : Cut (n - 1) (f ()) (g ()) ts) :
    Cut n (advance >>= f) (advance >>= g) (t :: ts) :=
  take (fun _ _ => by simp) (fun _ _ => by simp) cut

theorem accept_bind {f g : Option Token → Parser α} {accepts : Token → Bool}
    (accepted : ∀ t ts, r = t :: ts → Cut (n - 1) (f (some t)) (g (some t)) ts)
    (declined : Cut n (f none) (g none) r) :
    Cut n (accept accepts >>= f) (accept accepts >>= g) r := by
  cases r with
  | nil => exact same (fun _ _ => by simp) (fun _ _ => by simp) declined
  | cons t ts =>
    cases accepting : accepts t with
    | true =>
      exact take (fun _ _ => by simp [accept_cons_of_pos accepting])
        (fun _ _ => by simp [accept_cons_of_pos accepting]) (accepted t ts rfl)
    | false =>
      exact same (fun _ _ => by simp [accept_cons_of_neg accepting])
        (fun _ _ => by simp [accept_cons_of_neg accepting]) declined

theorem acceptAs_bind {f g : Option (Token × β) → Parser α} {read : Token → Option β}
    (accepted : ∀ t b ts, r = t :: ts → Cut (n - 1) (f (some (t, b))) (g (some (t, b))) ts)
    (declined : Cut n (f none) (g none) r) :
    Cut n (acceptAs read >>= f) (acceptAs read >>= g) r := by
  cases r with
  | nil => exact same (fun _ _ => by simp) (fun _ _ => by simp) declined
  | cons t ts =>
    cases reading : read t with
    | some b =>
      exact take (fun _ _ => by simp [acceptAs_cons_of_some reading])
        (fun _ _ => by simp [acceptAs_cons_of_some reading]) (accepted t b ts rfl)
    | none =>
      exact same (fun _ _ => by simp [acceptAs_cons_of_none reading])
        (fun _ _ => by simp [acceptAs_cons_of_none reading]) declined

theorem advance : Cut n advance advance r := by
  intro depth log
  refine ⟨⟨?_, [], by simp [Parser.advance, final], by simp⟩, fun _ => id, .inl rfl⟩
  show r.tail.length ≤ r.length
  rw [List.length_tail]
  omega

theorem record {d : Diagnostic} (frank : d.recovery ≠ some .abandoned) :
    Cut n (record d) (record d) r := by
  have done : Cut n (pure ()) (pure ()) r := .pure ()
  exact step 0 (fun _ _ => rfl) (fun _ _ => rfl) (Nat.le_refl _) (by simpa using frank) done

theorem report {wanted : Wanted} {place : Place} {recovery : Recovery}
    (frank : recovery ≠ .abandoned) :
    Cut n (report cx wanted place recovery) (report cx wanted place recovery) r := by
  have missing : (missingAt cx wanted place recovery r).recovery ≠ some .abandoned := by
    simpa [missingAt, Complaint.missing] using frank
  exact same (fun _ _ => report_apply wanted place recovery)
    (fun _ _ => report_apply wanted place recovery) (record missing)

theorem require {accepts : Token → Bool} {symbol : String} {place : Place} :
    Cut n (require cx accepts symbol place) (require cx accepts symbol place) r :=
  accept_bind (fun _ _ _ => .pure ()) (report (by decide))

theorem malformed {wanted : Wanted} {place : Place} :
    Cut n (malformed cx wanted place : Parser α) (malformed cx wanted place) r :=
  (report (by decide)).bind fun _ _ => here_bind (halt (fun impossible => impossible))

/-! ### Loops -/

theorem iterate {step step' : α → Parser (Option α)} (turn : ∀ a r, Cut n (step a) (step' a) r)
    (turns : Nat) (a : α) (r : List Token) : Cut n (iterate step turns a) (iterate step' turns a) r := by
  induction turns generalizing a r with
  | zero => exact .pure a
  | succ turns ih =>
    apply (turn a r).bind
    intro o r'
    cases o with
    | none => exact .pure a
    | some b => exact ih b r'

theorem repeatedly {step step' : α → Parser (Option α)} (turn : ∀ a r, Cut n (step a) (step' a) r)
    (a : α) (r : List Token) : Cut n (repeatedly step a) (repeatedly step' a) r :=
  same (fun _ _ => rfl) (fun _ _ => rfl) (iterate turn r.length a r)

end Cut

end Parser

end PlZero

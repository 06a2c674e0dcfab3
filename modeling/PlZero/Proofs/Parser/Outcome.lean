import PlZero.Parser.Block
import PlZero.Proofs.Parser.Cut

/-! # What a parser takes and what it reports

`Ends T p r Q` is about the parser `p` at the tokens `r`, all of which have the property `T`.  However the
parser ends, it has taken tokens from the front of `r` and added diagnostics to the log, and `Q` holds of
its result, these tokens and these diagnostics.  A run that was stopped has no result, and `Q` holds of what
it took and reported until then.

The rules follow the way a parser is written.  What was taken and reported before stands in front of what is
taken and reported next, so `Q` is always about all that was done since the start.
-/

namespace PlZero

namespace Parser

variable {α β : Type} {cx : Context}

/-- The result of a run, if it was not stopped. -/
def result? : EStateM.Result Halt State α → Option α
  | .ok a _ => some a
  | .error _ _ => none

/-- What a run can leave behind: a result, the tokens taken and the diagnostics added. -/
abbrev Outcome (α : Type) := Option α → List Token → List Diagnostic → Prop

/-- The run has taken tokens from the front of `r` and added to the log, and `Q` holds of all this. -/
def Ended (r : List Token) (log : Log) (Q : Outcome α) (run : EStateM.Result Halt State α) : Prop :=
  ∃ taken ds, r = taken ++ (final run).rest ∧ (final run).log.entries = log.entries ++ ds ∧
    Q (result? run) taken ds

/-- From tokens `r` with the property `T` the parser takes some of the first and adds to the log, and `Q`
holds of its result and of these. -/
def Ends (T : Token → Prop) (p : Parser α) (r : List Token) (Q : Outcome α) : Prop :=
  (∀ t ∈ r, T t) → ∀ depth log, Ended r log Q (p ⟨r, depth, log⟩)

/-- A run that goes on from an earlier one. -/
theorem Ended.prepend {r' taken : List Token} {log log' : Log} {ds : List Diagnostic} {Q : Outcome α}
    {run : EStateM.Result Halt State α} (grown : log'.entries = log.entries ++ ds)
    (ended : Ended r' log' (fun o more es => Q o (taken ++ more) (ds ++ es)) run) :
    Ended (taken ++ r') log Q run := by
  obtain ⟨more, es, split, added, holds⟩ := ended
  refine ⟨taken ++ more, ds ++ es, ?_, ?_, holds⟩
  · rw [List.append_assoc, ← split]
  · rw [added, grown, List.append_assoc]

namespace Ends

variable {T : Token → Prop} {p q : Parser α} {P Q : Outcome α} {r ts : List Token} {t : Token}

theorem mono (ends : Ends T p r P) (weaker : ∀ o taken ds, P o taken ds → Q o taken ds) :
    Ends T p r Q := by
  intro known depth log
  obtain ⟨taken, ds, split, added, holds⟩ := ends known depth log
  exact ⟨taken, ds, split, added, weaker _ taken ds holds⟩

theorem same (run : ∀ depth log, p ⟨r, depth, log⟩ = q ⟨r, depth, log⟩) (ends : Ends T q r Q) :
    Ends T p r Q := by
  intro known depth log
  rw [run]
  exact ends known depth log

/-- Tokens that are taken with complaints on the way. -/
theorem step (taken : List Token) (ds : List Diagnostic)
    (run : ∀ depth log, p ⟨taken ++ ts, depth, log⟩ = q ⟨ts, depth, ⟨log.entries ++ ds⟩⟩)
    (ends : Ends T q ts fun o more es => Q o (taken ++ more) (ds ++ es)) : Ends T p (taken ++ ts) Q := by
  intro known depth log
  rw [run]
  exact .prepend rfl (ends (fun t member => known t (List.mem_append_right taken member)) depth _)

theorem take (run : ∀ depth log, p ⟨t :: ts, depth, log⟩ = q ⟨ts, depth, log⟩)
    (ends : Ends T q ts fun o more ds => Q o (t :: more) ds) : Ends T p (t :: ts) Q :=
  step [t] [] (fun _ _ => by simp [run]) ends

protected theorem pure {a : α} (holds : Q (some a) [] []) : Ends T (pure a) r Q := by
  intro _ depth log
  exact ⟨[], [], rfl, (List.append_nil _).symm, holds⟩

theorem bind {f : α → Parser β} {Q : Outcome β} (first : Ends T p r P)
    (stopped : ∀ taken ds, P none taken ds → Q none taken ds)
    (second : ∀ a taken ds r', P (some a) taken ds →
      Ends T (f a) r' fun o more es => Q o (taken ++ more) (ds ++ es)) : Ends T (p >>= f) r Q := by
  intro known depth log
  obtain ⟨taken, ds, split, added, holds⟩ := first known depth log
  rw [bind_apply]
  cases run : p ⟨r, depth, log⟩ with
  | error h s =>
    rw [run] at split added holds
    exact ⟨taken, ds, split, added, stopped taken ds holds⟩
  | ok a s =>
    rw [run] at split added holds
    change r = taken ++ s.rest at split
    subst split
    exact .prepend added (second a taken ds s.rest holds
      (fun t member => known t (List.mem_append_right taken member)) s.depth s.log)

/-- A parser whose result is only put to use. -/
theorem bind_pure {f : α → β} {Q : Outcome β} (first : Ends T p r P)
    (stopped : ∀ taken ds, P none taken ds → Q none taken ds)
    (holds : ∀ a taken ds, P (some a) taken ds → Q (some (f a)) taken ds) :
    Ends T (do return f (← p)) r Q :=
  first.bind stopped fun a taken ds _ known => .pure (by
    rw [List.append_nil, List.append_nil]
    exact holds a taken ds known)

/-- The same, where a result and a halt are treated alike. -/
theorem map {f : α → β} {Q : Outcome β} (first : Ends T p r P)
    (holds : ∀ o taken ds, P o taken ds → Q (o.map f) taken ds) : Ends T (do return f (← p)) r Q :=
  first.bind_pure (holds none) fun a => holds (some a)

/-! ### Halts and levels -/

theorem halt {h : Halt} (holds : Q none [] []) : Ends T (halt h) r Q := by
  intro _ depth log
  exact ⟨[], [], rfl, (List.append_nil _).symm, holds⟩

theorem tooDeep (holds : Q none [] []) : Ends T (tooDeep cx) r Q := by
  intro _ depth log
  rw [tooDeep_apply]
  exact ⟨[], [], rfl, (List.append_nil _).symm, holds⟩

theorem malformed {wanted : Wanted} {place : Place}
    (holds : Q none [] [missingAt cx wanted place .omitted r]) :
    Ends T (malformed cx wanted place) r Q := by
  intro _ depth log
  rw [malformed_apply]
  exact ⟨[], [missingAt cx wanted place .omitted r], rfl, rfl, holds⟩

theorem deeper (ends : Ends T p r Q) : Ends T (Parser.deeper p) r Q := by
  intro known depth log
  obtain ⟨taken, ds, split, added, holds⟩ := ends known (depth + 1) log
  rw [deeper_apply]
  refine ⟨taken, ds, by rwa [rest_final_leave], by rwa [log_final_leave], ?_⟩
  cases run : p ⟨r, depth + 1, log⟩ with
  | ok | error =>
    rw [run] at holds
    exact holds

/-- A declaration that cannot be read is left out, with tokens behind it. -/
theorem declaration {before : List α} {Q : Outcome (List α)} (ends : Ends T p r P)
    (read : ∀ a taken ds, P (some a) taken ds → Q (some (before ++ [a])) taken ds)
    (stopped : ∀ taken ds, P none taken ds →
      Q none taken ds ∧ ∀ skipped, Q (some before) (taken ++ skipped) ds) :
    Ends T (declaration p before) r Q := by
  intro known depth log
  obtain ⟨taken, ds, split, added, holds⟩ := ends known depth log
  rw [Parser.declaration, bind_apply, catching]
  cases run : p ⟨r, depth, log⟩ with
  | ok a s =>
    rw [run] at split added holds
    exact ⟨taken, ds, split, added, read a taken ds holds⟩
  | error h s =>
    rw [run] at split added holds
    obtain ⟨halted, skipping⟩ := stopped taken ds holds
    cases h with
    | malformed wanted loc =>
      refine ⟨taken ++ s.rest.takeWhile (!isLandmark ·), ds, ?_, added, skipping _⟩
      have whole := List.takeWhile_append_dropWhile (p := (!isLandmark ·)) (l := s.rest)
      rw [List.append_assoc]
      exact split.trans (congrArg (taken ++ ·) whole.symm)
    | tooDeep | unreadable | blankLimit => exact ⟨taken, ds, split, added, halted⟩

/-! ### Tokens and complaints -/

theorem ite {c : Prop} [Decidable c] (yes : c → Ends T p r Q) (no : ¬ c → Ends T q r Q) :
    Ends T (if c then p else q) r Q := by
  by_cases holds : c
  · rw [if_pos holds]
    exact yes holds
  · rw [if_neg holds]
    exact no holds

theorem peek_bind {f : Option Token → Parser α} (nil : r = [] → Ends T (f none) [] Q)
    (cons : ∀ t ts, r = t :: ts → T t → Ends T (f (some t)) (t :: ts) Q) :
    Ends T (peek >>= f) r Q := by
  intro known
  cases r with
  | nil => exact same (fun _ _ => by simp) (nil rfl) known
  | cons t ts => exact same (fun _ _ => by simp) (cons t ts rfl (known t List.mem_cons_self)) known

theorem here_bind {f : Location → Parser α} (ends : Ends T (f (cx.front r)) r Q) :
    Ends T (here cx >>= f) r Q := same (fun _ _ => by simp) ends

theorem advance_bind {f : Unit → Parser α} (ends : Ends T (f ()) ts fun o more ds => Q o (t :: more) ds) :
    Ends T (advance >>= f) (t :: ts) Q := take (fun _ _ => by simp) ends

theorem accept_bind {f : Option Token → Parser α} {accepts : Token → Bool}
    (accepted : ∀ t ts, r = t :: ts → T t → accepts t = true →
      Ends T (f (some t)) ts fun o more ds => Q o (t :: more) ds)
    (declined : (∀ t ∈ r.head?, accepts t = false) → Ends T (f none) r Q) :
    Ends T (accept accepts >>= f) r Q := by
  intro known
  cases r with
  | nil => exact same (fun _ _ => by simp) (declined (by simp)) known
  | cons t ts =>
    cases accepting : accepts t with
    | true =>
      exact take (fun _ _ => by simp [accept_cons_of_pos accepting])
        (accepted t ts rfl (known t List.mem_cons_self) accepting) known
    | false =>
      exact same (fun _ _ => by simp [accept_cons_of_neg accepting]) (declined (by simpa)) known

theorem acceptAs_bind {f : Option (Token × β) → Parser α} {read : Token → Option β}
    (accepted : ∀ t b ts, r = t :: ts → T t → read t = some b →
      Ends T (f (some (t, b))) ts fun o more ds => Q o (t :: more) ds)
    (declined : (∀ t ∈ r.head?, read t = none) → Ends T (f none) r Q) :
    Ends T (acceptAs read >>= f) r Q := by
  intro known
  cases r with
  | nil => exact same (fun _ _ => by simp) (declined (by simp)) known
  | cons t ts =>
    cases reading : read t with
    | some b =>
      exact take (fun _ _ => by simp [acceptAs_cons_of_some reading])
        (accepted t b ts rfl (known t List.mem_cons_self) reading) known
    | none =>
      exact same (fun _ _ => by simp [acceptAs_cons_of_none reading]) (declined (by simpa)) known

theorem record_bind {d : Diagnostic} {f : Unit → Parser α}
    (ends : Ends T (f ()) r fun o more es => Q o more (d :: es)) : Ends T (record d >>= f) r Q :=
  step [] [d] (fun _ _ => by simp [Log.add]) ends

theorem record {d : Diagnostic} {Q : Outcome Unit} (holds : Q (some ()) [] [d]) :
    Ends T (record d) r Q := by
  intro _ depth log
  exact ⟨[], [d], rfl, rfl, holds⟩

theorem report_bind {wanted : Wanted} {place : Place} {recovery : Recovery} {f : Unit → Parser α}
    (ends : Ends T (f ()) r fun o more es => Q o more (missingAt cx wanted place recovery r :: es)) :
    Ends T (report cx wanted place recovery >>= f) r Q :=
  step [] [missingAt cx wanted place recovery r] (fun _ _ => by simp [Log.add]) ends

theorem report {wanted : Wanted} {place : Place} {recovery : Recovery} {Q : Outcome Unit}
    (holds : Q (some ()) [] [missingAt cx wanted place recovery r]) :
    Ends T (report cx wanted place recovery) r Q := by
  intro _ depth log
  rw [report_apply]
  exact ⟨[], [missingAt cx wanted place recovery r], rfl, rfl, holds⟩

/-- What is required is taken, or taken as read with a complaint. -/
theorem require {accepts : Token → Bool} {symbol : String} {place : Place} :
    Ends T (require cx accepts symbol place) r fun o taken ds => o.isSome ∧
      ((∃ t, taken = [t] ∧ ds = []) ∨
        taken = [] ∧ ds = [missingAt cx (.symbol symbol) place .assumedPresent r]) := by
  apply accept_bind
  · intro t ts _ _ _
    exact .pure ⟨rfl, .inl ⟨t, rfl, rfl⟩⟩
  · intro _
    exact report ⟨rfl, .inr ⟨rfl, rfl⟩⟩

/-- An integer is read as a number, or the limit stands for it with a complaint. -/
theorem integerValue : Ends T (integerValue cx t) r fun o taken ds => taken = [] ∧
    (ds = [] ∧ (∀ v ∈ o, ∃ n, v = .number n) ∨
      ds = [Complaint.tooLarge cx.limits.maxInteger t] ∧ o = some cx.limits.maxInteger) := by
  have saturated : Ends T (saturate cx t) r fun o taken ds => taken = [] ∧
      (ds = [] ∧ (∀ v ∈ o, ∃ n, v = .number n) ∨
        ds = [Complaint.tooLarge cx.limits.maxInteger t] ∧ o = some cx.limits.maxInteger) :=
    record_bind (.pure ⟨rfl, .inr ⟨rfl, rfl⟩⟩)
  refine ite (fun _ => saturated) fun _ => ?_
  cases Text.readInteger (Text.stripZeros t.lexeme) with
  | error cause => exact .halt ⟨rfl, .inl ⟨rfl, nofun⟩⟩
  | ok n =>
    cases allowed : cx.limits.maxInteger.allows? n with
    | none => simpa [allowed] using Ends.halt ⟨rfl, .inl ⟨rfl, nofun⟩⟩
    | some fits =>
      cases fits with
      | true => simpa [allowed] using Ends.pure ⟨rfl, .inl ⟨rfl, by simp⟩⟩
      | false => simpa [allowed] using saturated

/-! ### Loops -/

/-- A turn of a loop adds to what was taken and reported before; a step that declines adds nothing. -/
def Turned (Q : Outcome α) (before : List Token) (ds : List Diagnostic) : Outcome (Option α)
  | some none, more, es => more = [] ∧ es = []
  | some (some a), more, es => Q (some a) (before ++ more) (ds ++ es)
  | none, more, es => Q none (before ++ more) (ds ++ es)

theorem iterate {step : α → Parser (Option α)}
    (turn : ∀ a before ds r, Q (some a) before ds → Ends T (step a) r (Turned Q before ds)) (turns : Nat)
    {a : α} {before : List Token} {ds : List Diagnostic} (holds : Q (some a) before ds) (r : List Token) :
    Ends T (iterate step turns a) r fun o more es => Q o (before ++ more) (ds ++ es) := by
  induction turns generalizing a before ds r with
  | zero => exact .pure (by rwa [List.append_nil, List.append_nil])
  | succ turns ih =>
    refine (turn a before ds r holds).bind (fun _ _ stopped => stopped) fun o more es r' turned => ?_
    cases o with
    | none =>
      obtain ⟨rfl, rfl⟩ := turned
      exact .pure (by simpa using holds)
    | some b =>
      refine (ih turned r').mono fun o more' es' onwards => ?_
      rwa [List.append_assoc, List.append_assoc] at onwards

theorem repeatedly {step : α → Parser (Option α)}
    (turn : ∀ a before ds r, Q (some a) before ds → Ends T (step a) r (Turned Q before ds)) {a : α}
    {before : List Token} {ds : List Diagnostic} (holds : Q (some a) before ds) (r : List Token) :
    Ends T (repeatedly step a) r fun o more es => Q o (before ++ more) (ds ++ es) :=
  same (fun _ _ => rfl) (iterate turn r.length holds r)

end Ends

end Parser

end PlZero

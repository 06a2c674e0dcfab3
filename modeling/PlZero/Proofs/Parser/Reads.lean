import PlZero.Proofs.Parser.Run

/-! # Parsers that read without complaint

`Reads cx fits p ts tail P` says what a parser makes of tokens that are as the grammar wants them: it
takes `ts`, stops before `tail`, reports nothing, and gives a result of which `P` holds.  The one
thing that may keep it from doing so is nesting.  Then it gives up without a report of its own, and
`fits` is false: it is the statement that the nesting stays within the limit, which every production
passes on to its parts.

A loop reads in turns.  `Row` is a row of turns that leads from one value to another, and `Chain` a
first piece with such a row behind it; a chain grows at its end, as trees that lean to the left do.
-/

namespace PlZero

namespace Parser

variable {α β : Type} {cx : Context} {fits : Prop} {ts ts' tail : List Token} {t : Token}

/-- The run ended because of nesting, with nothing new in the log. -/
def GivesUp (cx : Context) (log : Log) (result : EStateM.Result Halt State α) : Prop :=
  ∃ loc r depth, result = .error (.tooDeep cx.limits.maxNesting loc) ⟨r, depth, log⟩

/-- The parser takes the tokens `ts` before `tail` without complaint for something of which `P`
holds, unless the nesting does not fit. -/
def Reads (cx : Context) (fits : Prop) (p : Parser α) (ts tail : List Token) (P : α → Prop) : Prop :=
  ∀ depth log, (∃ a, p ⟨ts ++ tail, depth, log⟩ = .ok a ⟨tail, depth, log⟩ ∧ P a) ∨
    (¬ fits ∧ GivesUp cx log (p ⟨ts ++ tail, depth, log⟩))

namespace Reads

variable {p q : Parser α} {P Q : α → Prop}

theorem mono (reads : Reads cx fits p ts tail P) (weaker : ∀ a, P a → Q a) :
    Reads cx fits p ts tail Q := by
  intro depth log
  rcases reads depth log with ⟨a, run, holds⟩ | gaveUp
  · exact .inl ⟨a, run, weaker a holds⟩
  · exact .inr gaveUp

/-- What a parser reads is a matter of its run on these tokens. -/
theorem same (run : ∀ depth log, p ⟨ts ++ tail, depth, log⟩ = q ⟨ts ++ tail, depth, log⟩)
    (reads : Reads cx fits q ts tail P) : Reads cx fits p ts tail P := by
  intro depth log
  rw [run]
  exact reads depth log

protected theorem pure {a : α} (holds : P a) : Reads cx fits (pure a) [] tail P :=
  fun _ _ => .inl ⟨a, rfl, holds⟩

theorem tooDeep (overflow : ¬ fits) : Reads cx fits (tooDeep cx) ts tail P := by
  intro depth log
  exact .inr ⟨overflow, _, _, _, tooDeep_apply⟩

theorem deeper (reads : Reads cx fits p ts tail P) : Reads cx fits (Parser.deeper p) ts tail P := by
  intro depth log
  rcases reads (depth + 1) log with ⟨a, run, holds⟩ | ⟨overflow, loc, r, level, run⟩
  · exact .inl ⟨a, by simp [Parser.deeper, run], holds⟩
  · exact .inr ⟨overflow, loc, r, level - 1, by simp [Parser.deeper, run]⟩

theorem bind {f : α → Parser β} {Q : β → Prop} (first : Reads cx fits p ts (ts' ++ tail) P)
    (second : ∀ a, P a → Reads cx fits (f a) ts' tail Q) :
    Reads cx fits (p >>= f) (ts ++ ts') tail Q := by
  intro depth log
  rw [List.append_assoc, bind_apply]
  rcases first depth log with ⟨a, run, holds⟩ | ⟨overflow, loc, r, level, run⟩
  · rw [run]
    exact second a holds depth log
  · rw [run]
    exact .inr ⟨overflow, loc, r, level, rfl⟩

/-- The second parser takes no tokens. -/
theorem bind_last {f : α → Parser β} {Q : β → Prop} (first : Reads cx fits p ts tail P)
    (second : ∀ a, P a → Reads cx fits (f a) [] tail Q) : Reads cx fits (p >>= f) ts tail Q := by
  have joined : Reads cx fits (p >>= f) (ts ++ []) tail Q := bind first second
  rwa [List.append_nil] at joined

/-- A parser that only makes something of what another one reads. -/
theorem bind_pure {f : α → β} {Q : β → Prop} (first : Reads cx fits p ts tail P)
    (made : ∀ a, P a → Q (f a)) : Reads cx fits (p >>= fun a => Pure.pure (f a)) ts tail Q :=
  bind_last first fun a holds => .pure (made a holds)

/-! ### Single tokens -/

theorem take (run : ∀ depth log, p ⟨t :: (ts ++ tail), depth, log⟩ = q ⟨ts ++ tail, depth, log⟩)
    (reads : Reads cx fits q ts tail P) : Reads cx fits p (t :: ts) tail P := by
  intro depth log
  rw [List.cons_append, run]
  exact reads depth log

theorem here_bind {f : Location → Parser α} (reads : ∀ loc, Reads cx fits (f loc) ts tail P) :
    Reads cx fits (here cx >>= f) ts tail P := same (fun _ _ => by simp) (reads (cx.front (ts ++ tail)))

theorem advance_bind {f : Unit → Parser α} (reads : Reads cx fits (f ()) ts tail P) :
    Reads cx fits (advance >>= f) (t :: ts) tail P := take (fun _ _ => by simp) reads

theorem accept_bind_of_pos {f : Option Token → Parser α} {accepts : Token → Bool}
    (accepted : accepts t = true) (reads : Reads cx fits (f (some t)) ts tail P) :
    Reads cx fits (accept accepts >>= f) (t :: ts) tail P :=
  take (fun _ _ => by simp [accept_cons_of_pos accepted]) reads

theorem accept_bind_of_neg {f : Option Token → Parser α} {accepts : Token → Bool}
    (declined : ∀ t ∈ (ts ++ tail).head?, accepts t = false) (reads : Reads cx fits (f none) ts tail P) :
    Reads cx fits (accept accepts >>= f) ts tail P := by
  refine same (fun depth log => ?_) reads
  generalize ts ++ tail = r at declined
  cases r with
  | nil => simp
  | cons t r => simp [accept_cons_of_neg (declined t (by simp))]

theorem acceptAs_bind_of_some {f : Option (Token × β) → Parser α} {read : Token → Option β} {b : β}
    (accepted : read t = some b) (reads : Reads cx fits (f (some (t, b))) ts tail P) :
    Reads cx fits (acceptAs read >>= f) (t :: ts) tail P :=
  take (fun _ _ => by simp [acceptAs_cons_of_some accepted]) reads

theorem acceptAs_bind_of_none {f : Option (Token × β) → Parser α} {read : Token → Option β}
    (declined : ∀ t ∈ (ts ++ tail).head?, read t = none) (reads : Reads cx fits (f none) ts tail P) :
    Reads cx fits (acceptAs read >>= f) ts tail P := by
  refine same (fun depth log => ?_) reads
  generalize ts ++ tail = r at declined
  cases r with
  | nil => simp
  | cons t r => simp [acceptAs_cons_of_none (declined t (by simp))]

theorem require_bind {f : Unit → Parser α} {accepts : Token → Bool} {symbol : String} {place : Place}
    (accepted : accepts t = true) (reads : Reads cx fits (f ()) ts tail P) :
    Reads cx fits (require cx accepts symbol place >>= f) (t :: ts) tail P :=
  take (fun _ _ => by simp [require_cons_of_pos accepted]) reads

end Reads

/-! ## Loops -/

/-- From the value `a`, turns of the loop take the tokens `ts` before `tail` and lead to a value of
which `P` holds, unless the nesting does not fit.  There are turns left for the tokens left. -/
def Row (cx : Context) (fits : Prop) (step : α → Parser (Option α)) (a : α) (ts tail : List Token)
    (P : α → Prop) : Prop :=
  ∀ depth log turns, (ts ++ tail).length ≤ turns →
    (∃ b left, tail.length ≤ left ∧ P b ∧
      iterate step turns a ⟨ts ++ tail, depth, log⟩ = iterate step left b ⟨tail, depth, log⟩) ∨
    (¬ fits ∧ GivesUp cx log (iterate step turns a ⟨ts ++ tail, depth, log⟩))

namespace Row

variable {step : α → Parser (Option α)} {a : α} {P Q : α → Prop}

theorem refl (holds : P a) : Row cx fits step a [] tail P :=
  fun _ _ turns enough => .inl ⟨a, turns, enough, holds, rfl⟩

theorem single (turn : Reads cx fits (step a) ts tail fun o => ∃ b, o = some b ∧ P b)
    (nonempty : ts ≠ []) : Row cx fits step a ts tail P := by
  intro depth log turns enough
  have taken := List.length_pos_iff.mpr nonempty
  simp only [List.length_append] at enough
  -- there is a turn for every token, and this one takes at least one of them
  obtain ⟨turns, rfl⟩ : ∃ n, turns = n + 1 := ⟨turns - 1, by omega⟩
  rcases turn depth log with ⟨_, run, b, rfl, holds⟩ | ⟨overflow, loc, r, level, run⟩
  · exact .inl ⟨b, turns, by omega, holds, by simp only [iterate, bind_apply, run]⟩
  · exact .inr ⟨overflow, loc, r, level, by simp only [iterate, bind_apply, run]⟩

/-- Rows can be put behind each other. -/
theorem trans (row : Row cx fits step a ts (ts' ++ tail) P)
    (onwards : ∀ b, P b → Row cx fits step b ts' tail Q) : Row cx fits step a (ts ++ ts') tail Q := by
  intro depth log turns enough
  rw [List.append_assoc] at enough ⊢
  rcases row depth log turns enough with ⟨b, left, leftover, holds, run⟩ | gaveUp
  · rw [run]
    exact onwards b holds depth log left leftover
  · exact .inr gaveUp

/-- A loop reads what its turns take, if the next turn declines what is left. -/
theorem reads (row : Row cx fits step a ts tail P)
    (declined : ∀ b depth log, P b → step b ⟨tail, depth, log⟩ = .ok none ⟨tail, depth, log⟩) :
    Reads cx fits (repeatedly step a) ts tail P := by
  intro depth log
  rcases row depth log _ (Nat.le_refl _) with ⟨b, left, _, holds, run⟩ | gaveUp
  · refine .inl ⟨b, ?_, holds⟩
    rw [repeatedly, run, iterate_of_declined (declined b depth log holds)]
  · exact .inr gaveUp

end Row

/-- A first piece and a row of turns behind it. -/
def Chain (cx : Context) (fits : Prop) (head : Parser α) (step : α → Parser (Option α)) (ts tail : List Token)
    (P : α → Prop) : Prop :=
  ∃ front behind, ts = front ++ behind ∧
    Reads cx fits head front (behind ++ tail) fun a => Row cx fits step a behind tail P

namespace Chain

variable {head : Parser α} {step : α → Parser (Option α)} {P Q : α → Prop}

theorem single (first : Reads cx fits head ts tail P) : Chain cx fits head step ts tail P :=
  ⟨ts, [], (List.append_nil ts).symm, first.mono fun _ holds => .refl holds⟩

/-- A chain grows at its end. -/
theorem link (chain : Chain cx fits head step ts (ts' ++ tail) P) (nonempty : ts' ≠ [])
    (turn : ∀ a, P a → Reads cx fits (step a) ts' tail fun o => ∃ b, o = some b ∧ Q b) :
    Chain cx fits head step (ts ++ ts') tail Q := by
  obtain ⟨front, behind, rfl, first⟩ := chain
  refine ⟨front, behind ++ ts', List.append_assoc _ _ _, ?_⟩
  rw [List.append_assoc]
  exact first.mono fun a row => row.trans fun b holds => .single (turn b holds) nonempty

theorem reads (chain : Chain cx fits head step ts tail P)
    (declined : ∀ a depth log, P a → step a ⟨tail, depth, log⟩ = .ok none ⟨tail, depth, log⟩) :
    Reads cx fits (head >>= repeatedly step) ts tail P := by
  obtain ⟨front, behind, rfl, first⟩ := chain
  exact first.bind fun a row => row.reads declined

end Chain

end Parser

end PlZero

import PlZero.Proofs.Parser.Steady

/-! # Loops without a bound

A loop is run with a bound on its turns, the number of tokens that are left.  That bound must not be what
ends it, so a loop is compared here with the one that has none.

* A turn gives `yield` if the loop goes on and `done` if it is over; `turnOf` is the turn that repeats a step.
* `LoopEnds` is the run of the loop without a bound.  It has finitely many turns, and what the loop comes to
  is what its last turn comes to.
* `Productive turn whole` says that the parser `whole` repeats `turn`, and that every turn after which it goes
  on has taken a token.  Then the loop without a bound ends as `whole` does (`Productive.ends`).
-/

namespace PlZero

namespace Parser

variable {α : Type}

/-! ## Tokens that are taken -/

/-- At least the first of the tokens `r` was taken, and `r'` are left. -/
def Advances (r r' : List Token) : Prop := ∃ t ts, r = t :: ts ∧ r' <:+ ts

theorem Advances.length_lt {r r' : List Token} (advances : Advances r r') : r'.length < r.length := by
  obtain ⟨t, ts, rfl, left⟩ := advances
  exact Nat.lt_succ_of_le left.length_le

theorem Advances.of_suffix {r r' : List Token} (left : r' <:+ r) (shorter : r'.length < r.length) :
    Advances r r' := by
  cases r with
  | nil => simp at shorter
  | cons t ts =>
    rcases List.suffix_cons_iff.mp left with rfl | behind
    · omega
    · exact ⟨t, ts, rfl, behind⟩

/-! ## Turns -/

/-- The turn that repeats a step.  It ends the loop with what there is if the step declines. -/
def turnOf (step : α → Parser (Option α)) (a : α) : Parser (ForInStep α) := do
  match ← step a with
  | some b => return .yield b
  | none => return .done a

/-- The loop that repeats `turn` without any bound, entered with `a` in the state `s`, goes on `turns` times,
and then comes to the end `run`. -/
inductive LoopEnds (turn : α → Parser (ForInStep α)) :
    α → State → Nat → EStateM.Result Halt State α → Prop
  | done {a b : α} {s s' : State} :
      turn a s = .ok (.done b) s' → LoopEnds turn a s 0 (.ok b s')
  | halted {a : α} {h : Halt} {s s' : State} :
      turn a s = .error h s' → LoopEnds turn a s 0 (.error h s')
  | again {a b : α} {s s' : State} {turns : Nat} {run : EStateM.Result Halt State α} :
      turn a s = .ok (.yield b) s' → LoopEnds turn b s' turns run → LoopEnds turn a s (turns + 1) run

/-- The parser `whole` is a loop of turns, and each turn that is followed by another takes a token. -/
structure Productive (turn : α → Parser (ForInStep α)) (whole : α → Parser α) : Prop where
  unfolds : ∀ a, whole a = do
    match ← turn a with
    | .yield b => whole b
    | .done b => return b
  advances : ∀ a b s s', turn a s = .ok (.yield b) s' → Advances s.rest s'.rest

namespace Productive

/-- A loop whose turns take tokens ends without a bound, after no more turns than there are tokens. -/
theorem ends {turn : α → Parser (ForInStep α)} {whole : α → Parser α} (loop : Productive turn whole)
    (a : α) (s : State) : ∃ turns ≤ s.rest.length, LoopEnds turn a s turns (whole a s) := by
  -- what comes behind the first turn is the same loop with fewer tokens before it
  induction length : s.rest.length using Nat.strongRecOn generalizing a s with
  | ind n ih =>
    rw [loop.unfolds a, bind_apply]
    cases run : turn a s with
    | error h s' => exact ⟨0, Nat.zero_le n, .halted run⟩
    | ok next s' =>
      cases next with
      | done b => exact ⟨0, Nat.zero_le n, .done run⟩
      | yield b =>
        have shorter := (loop.advances a b s s' run).length_lt
        obtain ⟨turns, few, onwards⟩ := ih s'.rest.length (length ▸ shorter) b s' rfl
        exact ⟨turns + 1, by omega, .again run onwards⟩

/-- A step that takes a token whenever it does not decline. -/
theorem ofStep {step : α → Parser (Option α)}
    (turn : ∀ a r, Steady r (step a) r fun o r' => o.isSome = true → r'.length < r.length)
    (ended : ∀ a depth log, step a ⟨[], depth, log⟩ = .ok none ⟨[], depth, log⟩) :
    Productive (turnOf step) (repeatedly step) where
  unfolds a := by
    rw [repeatedly_eq (Steady.progress turn) ended, turnOf, bind_assoc]
    refine bind_congr fun o => ?_
    cases o with
    | none | some => rfl
  advances := by
    rintro a b ⟨r, depth, log⟩ s' result
    rw [turnOf, bind_apply] at result
    cases run : step a ⟨r, depth, log⟩ with
    | error h s => simp [run] at result
    | ok o s =>
      obtain ⟨left, shorter⟩ := (turn a r).of_ok run
      cases o with
      | none => simp [run] at result
      | some c =>
        obtain ⟨-, rfl⟩ : c = b ∧ s = s' := by simpa [run] using result
        exact .of_suffix left (shorter rfl)

end Productive

end Parser

end PlZero

import PlZero.Proofs.Program

/-! # What every session keeps to

A session goes on after a halt, so each call must leave it in good order however it ends.  `Answers`
says what one call may come to: the tokens that are left are a suffix of those before, the level of
nesting is what it was, the log has only grown, and a halt is one that the production can cause and
has its reason in the log.  From this step follows by induction what holds after any run of calls.
-/

namespace PlZero

namespace Parser

variable {α : Type} {cx : Context} {limit : Int} {room : Nat}

/-! ## One call -/

/-- The halts that a production can cause. -/
def Allowed : Production → Halt → Prop
  | .program => fun _ => False
  | .block | .statement | .condition | .expression => Halt.IsTooDeep
  | .constDecl | .varDecl => Halt.IsMalformed

/-- What a production may come to that was asked for at the tokens `r`.  A program takes all of
them. -/
def Answers (cx : Context) (p : Production) (r : List Token) (depth : Nat) (log : Log) :
    EStateM.Result Halt State α → Prop
  | .ok _ s => s.depth = depth ∧ ∃ ds, s.log.entries = log.entries ++ ds ∧ Trail cx r ds s.rest ∧
      (p = .program → s.rest = [])
  | .error h s => s.depth = depth ∧ ∃ ds, s.log.entries = log.entries ++ ds ∧
      Trail cx r ds s.rest ∧ Allowed p h ∧ Justified cx h ds s.rest

/-- An account of a production other than a program is an answer. -/
theorem Settles.answers {β : Type} (p : Production) {r : List Token} {depth : Nat} {log : Log}
    {Q : α → List Word → List Token → Prop} {parser : Parser α}
    (settled : Settles cx (Allowed p) r depth log Q (parser ⟨r, depth, log⟩))
    (noProgram : p ≠ .program) (f : α → β) :
    Answers cx p r depth log ((f <$> parser) ⟨r, depth, log⟩) := by
  rw [map_apply]
  cases run : parser ⟨r, depth, log⟩ with
  | ok a s =>
    rw [run] at settled
    obtain ⟨level, ds, grown, trail, _⟩ := settled
    exact ⟨level, ds, grown, trail, fun isProgram => absurd isProgram noProgram⟩
  | error h s =>
    rw [run] at settled
    exact settled

/-- What is left behind a program is skipped, with the complaint about it. -/
theorem trail_trailing (r : List Token) : Trail cx r (trailing r) [] := by
  cases r with
  | nil => exact .done
  | cons t ts => exact .fault .trailing (.of_suffix (List.nil_suffix))

/-- A program takes all tokens and never halts. -/
theorem program_answers (limited : cx.limits.maxInteger = .number limit) (room : Nat)
    {r : List Token} (readable : ∀ t ∈ r, t.Readable) (depth : Nat) (log : Log) :
    Answers cx .program r depth log ((Tree.program <$> program cx room) ⟨r, depth, log⟩) := by
  have account := closedBlock_accounts limited room r readable depth log
  rw [map_apply, program_apply]
  cases run : closedBlock cx room ⟨r, depth, log⟩ with
  | ok b s =>
    rw [run] at account
    obtain ⟨level, ds, grown, trail, _⟩ := account
    exact ⟨level, ds ++ trailing s.rest, by simp [grown], trail.trans (trail_trailing s.rest),
      fun _ => rfl⟩
  | error h s =>
    rw [run] at account
    obtain ⟨level, ds, grown, trail, isTooDeep, reason⟩ := account
    -- the only halt there can be is caught, and the complaint about it is the end of the trail
    cases reason with
    | malformed => exact isTooDeep.elim
    | tooDeep =>
      refine ⟨level, ds ++ [Complaint.tooDeep cx.limits.maxNesting (cx.front s.rest)], ?_,
        trail.trans (.giveUp (.of_suffix List.nil_suffix)), fun _ => rfl⟩
      simp [grown]

/-- Every production answers. -/
theorem production_answers (limited : cx.limits.maxInteger = .number limit) (room : Nat)
    (p : Production) {r : List Token} (readable : ∀ t ∈ r, t.Readable) (depth : Nat) (log : Log) :
    Answers cx p r depth log (p.parser cx room ⟨r, depth, log⟩) := by
  cases p with
  | program => exact program_answers limited room readable depth log
  | block => exact (block_accounts limited room r readable depth log).answers .block nofun Tree.block
  | statement =>
    exact (statement_accounts limited room r readable depth log).answers .statement nofun Tree.stmt
  | condition =>
    exact (condition_accounts (expression_accounts limited room) r readable depth log).answers
      .condition nofun Tree.condition
  | expression =>
    exact (expression_accounts limited room r readable depth log).answers .expression nofun Tree.expr
  | constDecl =>
    exact (constDecl_accounts limited r readable depth log).answers .constDecl nofun Tree.const
  | varDecl => exact (varDecl_accounts r readable depth log).answers .varDecl nofun Tree.var

end Parser

/-! ## Runs of calls -/

namespace Session

/-- The session after several calls, one after another, whatever they came to. -/
def after (s : Session) (calls : List Production) : Session :=
  calls.foldl (fun s p => (s.call p).2) s

/-- A session in good order: it has the tokens and limits it started with, some of the tokens are
left, and it is in no construct. -/
structure Sound (limits : Limits) (tokens : List Token) (s : Session) : Prop where
  sameTokens : s.tokens = tokens
  sameLimits : s.context.limits = limits
  suffix : s.state.rest <:+ tokens
  depth : s.state.depth = 0

variable {limits : Limits} {limit : Int} {tokens : List Token} {s : Session}

theorem sound_start (limits : Limits) (file : String) (tokens : List Token) :
    (start limits file tokens).Sound limits tokens :=
  ⟨rfl, rfl, List.suffix_refl _, rfl⟩

theorem Sound.pos_le (sound : s.Sound limits tokens) : s.pos ≤ tokens.length := by
  rw [pos, sound.sameTokens]
  omega

theorem Sound.rest_eq (sound : s.Sound limits tokens) : s.state.rest = tokens.drop s.pos := by
  rw [pos, sound.sameTokens]
  exact List.suffix_iff_eq_drop.mp sound.suffix

/-- What a call answers and leaves behind, given what the session was before it. -/
def Kept (s : Session) (p : Production) (answer : Except Halt Tree) (s' : Session) : Prop :=
  s.pos ≤ s'.pos ∧ ∃ added, s'.state.log.entries = s.state.log.entries ++ added ∧
    match answer with
    | .ok _ => p = .program → s'.pos = s'.tokens.length
    | .error (.malformed wanted loc) => (p = .constDecl ∨ p = .varDecl) ∧
      ∃ before last, added = before ++ [last] ∧ last.severity = .error ∧
        last.recovery = some .omitted ∧ last.expected = some wanted.text ∧ last.loc = some loc
    | .error (.tooDeep _ _) =>
      p = .block ∨ p = .statement ∨ p = .condition ∨ p = .expression
    | .error _ => False

/-- The reason of a halt is the last thing that was reported, or the limit on nesting. -/
theorem kept_of_justified {cx : Parser.Context} {p : Production} {h : Halt} {ds : List Diagnostic}
    {r : List Token} {s' : Session} (moved : s.pos ≤ s'.pos)
    (grown : s'.state.log.entries = s.state.log.entries ++ ds) (allowed : Parser.Allowed p h)
    (reason : Parser.Justified cx h ds r) : Kept s p (.error h) s' := by
  refine ⟨moved, ds, grown, ?_⟩
  cases reason with
  | malformed wanted place before r =>
    refine ⟨?_, before, _, rfl, rfl, rfl, rfl, rfl⟩
    cases p with
    | constDecl => exact .inl rfl
    | varDecl => exact .inr rfl
    | _ => exact allowed.elim
  | tooDeep =>
    cases p with
    | block | statement | condition | expression => simp
    | _ => exact allowed.elim

/-- One call keeps a session in good order. -/
theorem Sound.call (sound : s.Sound limits tokens) (limited : limits.maxInteger = .number limit)
    (readable : ∀ t ∈ tokens, t.Readable) (p : Production) :
    (s.call p).2.Sound limits tokens ∧ Kept s p (s.call p).1 (s.call p).2 := by
  have answers := Parser.production_answers (by rw [sound.sameLimits, limited]) s.room p
    (fun t member => readable t (sound.suffix.subset member)) s.state.depth s.state.log
  have moved : ∀ r, r <:+ s.state.rest → s.tokens.length - s.state.rest.length ≤
      s.tokens.length - r.length := fun r suffix => by
    have shorter := suffix.length_le
    omega
  rw [Session.call]
  cases run : p.parser s.context s.room s.state with
  -- however the call ends, what is left is a suffix of what was left before it
  | ok tree state =>
    rw [run] at answers
    obtain ⟨level, ds, grown, trail, toEnd⟩ := answers
    refine ⟨⟨sound.sameTokens, sound.sameLimits, trail.suffix.trans sound.suffix,
      level.trans sound.depth⟩, moved _ trail.suffix, ds, grown, fun isProgram => ?_⟩
    simp [pos, toEnd isProgram]
  | error h state =>
    rw [run] at answers
    obtain ⟨level, ds, grown, trail, allowed, reason⟩ := answers
    exact ⟨⟨sound.sameTokens, sound.sameLimits, trail.suffix.trans sound.suffix,
      level.trans sound.depth⟩, kept_of_justified (moved _ trail.suffix) grown allowed reason⟩

theorem Sound.after (sound : s.Sound limits tokens) (limited : limits.maxInteger = .number limit)
    (readable : ∀ t ∈ tokens, t.Readable) (calls : List Production) :
    (s.after calls).Sound limits tokens := by
  induction calls generalizing s with
  | nil => exact sound
  | cons p calls ih => exact ih (sound.call limited readable p).1

/-- After any calls, one more call leaves the session in good order: the position has not moved back
and is among the tokens, no level of nesting is left open, the log has only grown, and the answer is
a tree or a halt that the production can cause and whose reason has been reported. -/
theorem call_sound_after (limit nesting : Int) (file : String) (tokens : List Token)
    (readable : ∀ t ∈ tokens, t.Readable) (calls : List Production) (next : Production) :
    let s := (start ⟨.number limit, nesting⟩ file tokens).after calls
    let s' := (s.call next).2
    s'.tokens = tokens ∧ s.pos ≤ s'.pos ∧ s'.pos ≤ tokens.length ∧
      s'.state.rest = tokens.drop s'.pos ∧ s'.state.depth = 0 ∧ Kept s next (s.call next).1 s' := by
  intro s s'
  have sound : s.Sound ⟨.number limit, nesting⟩ tokens :=
    (sound_start _ file tokens).after rfl readable calls
  obtain ⟨sound', kept⟩ := sound.call rfl readable next
  exact ⟨sound'.sameTokens, kept.1, sound'.pos_le, sound'.rest_eq, sound'.depth, kept⟩

/-- A parenthesis where no level of nesting is allowed, and then a constant that cannot be read at
the same place. -/
theorem call_sound_after_halts :
    let tokens : List Token := [⟨.delimiter, "(", .nowhere⟩, ⟨.integer, "12", .nowhere⟩]
    let s := (start ⟨.number 9, 0⟩ "" tokens).after [.expression, .program, .expression]
    let s' := (s.call .constDecl).2
    (∀ t ∈ tokens, t.Readable) ∧
      ((start ⟨.number 9, 0⟩ "" tokens).call .expression).1 = .error (.tooDeep 0 .nowhere) ∧
      s'.tokens = tokens ∧ s.pos ≤ s'.pos ∧ s'.pos ≤ tokens.length ∧
      s'.state.rest = tokens.drop s'.pos ∧ s'.state.depth = 0 ∧
      Kept s .constDecl (s.call .constDecl).1 s' := by
  intro tokens s s'
  have readable : ∀ t ∈ tokens, t.Readable := by
    simp [tokens, Token.Readable, Text.IsDigits, Text.isDigit]
  exact ⟨readable, rfl, call_sound_after 9 0 "" tokens readable _ .constDecl⟩

end Session

end PlZero

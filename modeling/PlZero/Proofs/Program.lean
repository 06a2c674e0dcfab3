import PlZero.Parser.Session
import PlZero.Proofs.Complete.Block

/-! # What becomes of a whole program

A program is a block and a period; what follows is reported once, and nesting that goes too deep is
turned into a program without content.  `program_apply` says so in one equation, which reduces all
questions about `parseTokens` to the block and its period.  The two answers about these are put
together here: `parseTokens_accounts` says what any tokens can come to, and `parseTokens_reads` what
the tokens of a grammatical program come to.
-/

namespace PlZero

namespace Parser

variable {cx : Context} {limit : Int} {room : Nat}

/-- The complaint about what is left behind a program, if anything is. -/
def trailing : List Token → List Diagnostic
  | [] => []
  | t :: _ => [Complaint.trailing t]

theorem recovery_of_mem_trailing {left : List Token} {d : Diagnostic} (member : d ∈ trailing left) :
    d.recovery = some .ignored ∧ d.isError = false := by
  cases left with
  | nil => cases member
  | cons t ts =>
    obtain rfl := List.mem_singleton.mp member
    exact ⟨rfl, rfl⟩

/-- A block and the period behind it. -/
def closedBlock (cx : Context) (room : Nat) : Parser Block := do
  let b ← block cx room
  requireDelimiter cx "." .endOfProgram
  return b

/-- What is required is taken or taken as read, so nothing comes to a halt over it. -/
theorem exists_requireDelimiter_eq_ok (cx : Context) (symbol : String) (place : Place) (s : State) :
    ∃ s', requireDelimiter cx symbol place s = .ok () s' := by
  obtain ⟨r, depth, log⟩ := s
  cases r with
  | nil => exact ⟨_, require_nil _ symbol place⟩
  | cons t ts =>
    cases accepted : t.isDelimiter symbol with
    | true => exact ⟨_, require_cons_of_pos accepted symbol place⟩
    | false => exact ⟨_, require_cons_of_neg accepted symbol place⟩

/-- A program is its block and period, and then a verdict on how they ended. -/
theorem program_apply (cx : Context) (room : Nat) (r : List Token) (depth : Nat) (log : Log) :
    program cx room ⟨r, depth, log⟩ =
      match closedBlock cx room ⟨r, depth, log⟩ with
      | .ok b s => .ok ⟨b, cx.front r⟩ ⟨[], s.depth, ⟨s.log.entries ++ trailing s.rest⟩⟩
      | .error (.tooDeep limit loc) s =>
        .ok (abandoned (cx.front r)) ⟨[], s.depth, s.log.add (Complaint.tooDeep limit loc)⟩
      | .error h s => .error h s := by
  simp only [program, closedBlock, bind_apply, here_apply, catching]
  cases block cx room ⟨r, depth, log⟩ with
  | error h s => cases h <;> rfl
  | ok b s =>
    -- the period cannot fail, so a halt is always one of the block
    obtain ⟨⟨left, level, log⟩, required⟩ := exists_requireDelimiter_eq_ok cx "." .endOfProgram s
    simp only [endOfProgram, bind_apply, required]
    cases left with
    | nil => simp [trailing]
    | cons t ts =>
      simp [trailing]
      rfl

theorem closedBlock_accounts (limited : cx.limits.maxInteger = .number limit) (room : Nat)
    (r : List Token) :
    Accounts cx Halt.IsTooDeep (closedBlock cx room) r fun b ws _ =>
      ∃ ws', b.Spelled limit room ws' ∧ ws = ws' ++ [.delimiter "."] := by
  refine (block_accounts limited room r).bind fun b r' => ?_
  refine (Accounts.requireDelimiter "." (by decide)).bind fun _ r'' => .pure ?_
  rintro _ rfl ws spelled
  exact ⟨ws, spelled, by simp⟩

theorem closedBlock_reads (limited : cx.limits.maxInteger = .number limit) {b : Block}
    (grammatical : b.Grammatical) (within : ∀ v ∈ b.literals, v.AtMost limit) (room : Nat)
    {ts tail : List Token} (written : ts.map Token.word = b.words ++ [.delimiter "."]) :
    Reads cx (b.depth ≤ room) (closedBlock cx room) ts tail fun b' => b'.bare = b.bare := by
  obtain ⟨ts, last, rfl, writtenBlock, single⟩ := List.map_eq_append_iff.mp written
  obtain ⟨t, rfl, period⟩ := List.map_eq_singleton_iff.mp single
  rw [Token.word_eq_delimiter_iff] at period
  have ends : EndsBlock (t :: tail) := endsBlock_cons.mpr (.inr period)
  exact .bind (block_reads limited grammatical within room id ts _ writtenBlock ends) fun b' bare =>
    .require_bind period (.pure bare)

/-! ## Lists of tokens -/

/-- What a parser of the tokens `ts` knows from the start. -/
def Context.ofTokens (limits : Limits) (file : String) (ts : List Token) : Context :=
  ⟨limits, endLocation file ts⟩

@[simp] theorem Context.limits_ofTokens (limits : Limits) (file : String) (ts : List Token) :
    (Context.ofTokens limits file ts).limits = limits := rfl

/-- Where the token with the index `i` stands, or the end of the input behind the last one. -/
def locationAt (file : String) (ts : List Token) (i : Nat) : Location :=
  (ts[i]?.map Token.loc).getD (endLocation file ts)

theorem Context.front_ofTokens (limits : Limits) (file : String) (ts : List Token) (i : Nat) :
    (Context.ofTokens limits file ts).front (ts.drop i) = locationAt file ts i := by
  rw [locationAt, ← List.head?_drop]
  cases ts.drop i with
  | nil | cons => rfl

theorem parseTokens_eq (limits : Limits) (file : String) (ts : List Token) :
    parseTokens limits file ts =
      match closedBlock (.ofTokens limits file ts) limits.maxNesting.toNat ⟨ts, 0, {}⟩ with
      | .ok b s =>
        .ok (⟨b, (Context.ofTokens limits file ts).front ts⟩, ⟨s.log.entries ++ trailing s.rest⟩)
      | .error (.tooDeep limit loc) s =>
        .ok (abandoned ((Context.ofTokens limits file ts).front ts),
          s.log.add (Complaint.tooDeep limit loc))
      | .error h _ => .error h := by
  simp only [parseTokens, Session.room, Session.start, program_apply, Int.natCast_zero, Int.sub_zero,
    Context.ofTokens]
  cases closedBlock ⟨limits, endLocation file ts⟩ limits.maxNesting.toNat ⟨ts, 0, {}⟩ with
  | ok b s => rfl
  | error h s => cases h <;> rfl

/-- Any tokens are read as a program, on a trail to the end of its block and period, or the reading
is given up because of nesting. -/
theorem parseTokens_accounts (limit nesting : Int) (file : String) {ts : List Token}
    (readable : ∀ t ∈ ts, t.Readable) {cx : Context}
    (start : cx = .ofTokens ⟨.number limit, nesting⟩ file ts) :
    (∃ b ds left, Trail cx ts ds left ∧
      parseTokens ⟨.number limit, nesting⟩ file ts =
        .ok (⟨b, cx.front ts⟩, ⟨ds ++ trailing left⟩) ∧
      ((∀ d ∈ ds, d.Mendable) → ∃ ws, Mended cx ts ds (ws ++ [.delimiter "."]) left ∧
        b.Spelled limit nesting.toNat ws)) ∨
    ∃ ds left, Trail cx ts ds left ∧
      parseTokens ⟨.number limit, nesting⟩ file ts =
        .ok (abandoned (cx.front ts), ⟨ds ++ [Complaint.tooDeep nesting (cx.front left)]⟩) := by
  have limited : cx.limits.maxInteger = .number limit := by rw [start, Context.limits_ofTokens]
  have nested : cx.limits.maxNesting = nesting := by rw [start, Context.limits_ofTokens]
  have account := closedBlock_accounts limited nesting.toNat ts readable 0 {}
  rw [parseTokens_eq, ← start]
  cases run : closedBlock cx nesting.toNat ⟨ts, 0, {}⟩ with
  | ok b s =>
    rw [run] at account
    obtain ⟨_, ds, grown, trail, spelled⟩ := account
    refine .inl ⟨b, ds, s.rest, trail, by simp [grown], fun mendable => ?_⟩
    obtain ⟨_, mended, ws, good, rfl⟩ := spelled mendable
    exact ⟨ws, mended, good⟩
  | error h s =>
    rw [run] at account
    obtain ⟨_, ds, grown, trail, isTooDeep, reason⟩ := account
    cases reason with
    | malformed => exact isTooDeep.elim
    | tooDeep => exact .inr ⟨ds, s.rest, trail, by simp [Log.add, grown, nested]⟩

/-- A halt is never all that becomes of readable tokens. -/
theorem exists_parseTokens_eq_ok (limit nesting : Int) (file : String) {ts : List Token}
    (readable : ∀ t ∈ ts, t.Readable) :
    ∃ p log, parseTokens ⟨.number limit, nesting⟩ file ts = .ok (p, log) := by
  rcases parseTokens_accounts limit nesting file readable rfl with
    ⟨_, _, _, _, result, _⟩ | ⟨_, _, _, result⟩
  · exact ⟨_, _, result⟩
  · exact ⟨_, _, result⟩

/-- The tokens of a grammatical program are read back in silence, whatever follows them, unless the
program nests too deep; then it is given up in silence. -/
theorem parseTokens_reads (limit nesting : Int) (file : String) {p : Program}
    (grammatical : p.Grammatical) (within : ∀ v ∈ p.literals, v.AtMost limit) {ts : List Token}
    (written : ts.map Token.word = p.words) (left : List Token) {cx : Context}
    (start : cx = .ofTokens ⟨.number limit, nesting⟩ file (ts ++ left)) :
    (∃ b, b.bare = p.block.bare ∧
      parseTokens ⟨.number limit, nesting⟩ file (ts ++ left) =
        .ok (⟨b, cx.front (ts ++ left)⟩, ⟨trailing left⟩)) ∨
    (¬ p.depth ≤ nesting.toNat ∧ ∃ loc,
      parseTokens ⟨.number limit, nesting⟩ file (ts ++ left) =
        .ok (abandoned (cx.front (ts ++ left)), ⟨[Complaint.tooDeep nesting loc]⟩)) := by
  have limited : cx.limits.maxInteger = .number limit := by rw [start, Context.limits_ofTokens]
  have nested : cx.limits.maxNesting = nesting := by rw [start, Context.limits_ofTokens]
  have reads : Reads cx _ _ ts left _ :=
    closedBlock_reads limited grammatical within nesting.toNat written
  rw [parseTokens_eq, ← start]
  rcases reads 0 {} with ⟨b, run, bare⟩ | ⟨overflow, loc, r, level, run⟩
  · exact .inl ⟨b, bare, by simp [run]⟩
  · exact .inr ⟨overflow, loc, by simp [run, Log.add, nested]⟩

end Parser

end PlZero

import Mathlib.Data.Nat.Find
import PlZero.Proofs.Nesting.Productions

/-! # The limit on nesting is a cut-off

Every list of tokens has a least limit with which it is not given up.  From this limit on, the result
does not depend on the limit any more; below it, the program is given up, and the complaints before
that are the beginning of those of the full result.  The least limit is at most two more than the
number of tokens: one for the outermost block and one for its statement, which need no token.

All of this is said first of `blockRun`, the run of the block and its period, and then carried over to
`parseTokens`, which turns a run that was given up into a program without content.
-/

namespace PlZero

namespace Parser

variable {limit n m : Int} {file : String} {ts : List Token}

/-! ## Runs of the block -/

/-- The run of the block and the period in the tokens `ts`. -/
def blockRun (limit : Int) (file : String) (ts : List Token) (nesting : Int) :
    EStateM.Result Halt State Block :=
  closedBlock (.ofTokens ⟨.number limit, nesting⟩ file ts) nesting.toNat ⟨ts, 0, {}⟩

theorem blockRun_agree (limit : Int) (file : String) (ts : List Token) (le : n ≤ m) :
    Agree (m.toNat - 1) ts {} (blockRun limit file ts n) (blockRun limit file ts m) :=
  closedBlock_cut (.ofTokens ⟨.number limit, n⟩ file ts) m (Int.toNat_le_toNat le) ts 0 {}

theorem blockRun_eq (fits : ¬ Overflow (blockRun limit file ts n)) (le : n ≤ m) :
    blockRun limit file ts m = blockRun limit file ts n := by
  cases (blockRun_agree limit file ts le).agrees with
  | inl equal => exact equal.symm
  | inr cut => exact absurd cut.1 fits

/-- Without room the outermost block is given up. -/
theorem overflow_blockRun (le : n ≤ 0) : Overflow (blockRun limit file ts n) := by
  have run : blockRun limit file ts n =
      closedBlock (.ofTokens ⟨.number limit, n⟩ file ts) 0 ⟨ts, 0, {}⟩ := by
    rw [blockRun, Int.toNat_of_nonpos le]
  rw [run]
  apply (overflow_bind _).1
  rw [block, tooDeep_apply]
  trivial

theorem not_overflow_blockRun (limit : Int) (file : String) (ts : List Token) :
    ¬ Overflow (blockRun limit file ts (ts.length + 2 : Nat)) := by
  apply (blockRun_agree limit file ts (Int.le_refl _)).fits
  rw [Int.toNat_natCast]
  omega

/-- The least limit with which the tokens are not given up. -/
theorem exists_least_nesting (limit : Int) (file : String) (ts : List Token) :
    ∃ d : Nat, d ≤ ts.length + 2 ∧ ∀ n : Int, Overflow (blockRun limit file ts n) ↔ n < d := by
  classical
  have enough : ∃ k : Nat, ¬ Overflow (blockRun limit file ts k) :=
    ⟨ts.length + 2, not_overflow_blockRun limit file ts⟩
  have fits := Nat.find_spec enough
  refine ⟨Nat.find enough, Nat.find_min' enough (not_overflow_blockRun limit file ts), ?_⟩
  intro n
  constructor
  · intro overflow
    by_contra many
    rw [blockRun_eq fits (Int.not_lt.mp many)] at overflow
    exact fits overflow
  · intro few
    by_cases room : n ≤ 0
    · exact overflow_blockRun room
    · obtain ⟨k, rfl⟩ := Int.eq_ofNat_of_zero_le (Int.le_of_lt (Int.not_le.mp room))
      exact not_not.mp (Nat.find_min enough (Int.ofNat_lt.mp few))

/-- The block is never reported as given up, not even by a run that is. -/
theorem frank_blockRun (limit : Int) (file : String) (ts : List Token) (n : Int) :
    ∀ e ∈ (final (blockRun limit file ts n)).log.entries, e.recovery ≠ some .abandoned := by
  obtain ⟨_, ds, grown, frank⟩ := (blockRun_agree limit file ts (Int.le_refl n)).onward
  rw [grown]
  exact frank

/-! ## From runs to programs -/

/-- The two ends that a run can come to, and what becomes of the program in either case.  Tokens that
can be read come to no other halt. -/
theorem blockRun_cases (limit n : Int) (file : String) (readable : ∀ t ∈ ts, t.Readable) {cx : Context}
    (start : cx = .ofTokens ⟨.number limit, n⟩ file ts) :
    (∃ b s, blockRun limit file ts n = .ok b s ∧ Trail cx ts s.log.entries s.rest ∧
      parseTokens ⟨.number limit, n⟩ file ts =
        .ok (⟨b, locationAt file ts 0⟩, ⟨s.log.entries ++ trailing s.rest⟩)) ∨
    ∃ s, blockRun limit file ts n = .error (.tooDeep n (cx.front s.rest)) s ∧
      Trail cx ts s.log.entries s.rest ∧
      parseTokens ⟨.number limit, n⟩ file ts =
        .ok (abandoned (locationAt file ts 0), s.log.add (Complaint.tooDeep n (cx.front s.rest))) := by
  have limited : cx.limits.maxInteger = .number limit := by rw [start, Context.limits_ofTokens]
  have nested : cx.limits.maxNesting = n := by rw [start, Context.limits_ofTokens]
  have account := closedBlock_accounts limited n.toNat ts readable 0 {}
  rw [parseTokens_eq, ← Context.front_ofTokens ⟨.number limit, n⟩ file ts 0, List.drop_zero, blockRun,
    ← start]
  cases run : closedBlock cx n.toNat ⟨ts, 0, {}⟩ with
  | ok b s =>
    rw [run] at account
    obtain ⟨_, ds, grown, trail, _⟩ := account
    rw [← List.nil_append ds, ← grown] at trail
    exact .inl ⟨b, s, rfl, trail, rfl⟩
  | error h s =>
    rw [run] at account
    obtain ⟨_, ds, grown, trail, isTooDeep, reason⟩ := account
    rw [← List.nil_append ds, ← grown] at trail
    cases reason with
    | malformed => exact isTooDeep.elim
    | tooDeep =>
      rw [nested]
      exact .inr ⟨s, rfl, trail, rfl⟩

variable {b : Block} {s : State}

/-- A limit that is enough may be raised. -/
theorem parseTokens_eq_of_le (readable : ∀ t ∈ ts, t.Readable)
    (run : blockRun limit file ts n = .ok b s) (le : n ≤ m) :
    parseTokens ⟨.number limit, m⟩ file ts =
      .ok (⟨b, locationAt file ts 0⟩, ⟨s.log.entries ++ trailing s.rest⟩) := by
  have fits : ¬ Overflow (blockRun limit file ts n) := by
    rw [run]
    exact id
  have same : blockRun limit file ts m = .ok b s := by rw [blockRun_eq fits le, run]
  obtain ⟨b', s', run', _, parsed⟩ | ⟨s', run', _⟩ := blockRun_cases limit m file readable rfl
  · cases same.symm.trans run'
    exact parsed
  · cases same.symm.trans run'

/-- A limit that is too small cuts the diagnostics off. -/
theorem parseTokens_of_overflow (readable : ∀ t ∈ ts, t.Readable)
    (run : blockRun limit file ts m = .ok b s) (le : n ≤ m)
    (overflow : Overflow (blockRun limit file ts n)) :
    ∃ before loc, before <+: s.log.entries ++ trailing s.rest ∧
      parseTokens ⟨.number limit, n⟩ file ts =
        .ok (abandoned (locationAt file ts 0), ⟨before ++ [Complaint.tooDeep n loc]⟩) := by
  obtain ⟨b', s', run', _⟩ | ⟨s', run', _, parsed⟩ := blockRun_cases limit n file readable rfl
  · rw [run'] at overflow
    exact overflow.elim
  refine ⟨s'.log.entries, _, ?_, parsed⟩
  have agrees := (blockRun_agree limit file ts le).agrees
  rw [run, run'] at agrees
  cases agrees with
  | inl equal => cases equal
  | inr cut => exact cut.2.trans (List.prefix_append _ _)

/-- Nor is a program reported as given up that is not. -/
theorem frank_of_blockRun (run : blockRun limit file ts n = .ok b s) :
    ∀ e ∈ s.log.entries ++ trailing s.rest, e.recovery ≠ some .abandoned := by
  have frank := frank_blockRun limit file ts n
  rw [run] at frank
  intro e member
  cases List.mem_append.mp member with
  | inl before => exact frank e before
  | inr behind =>
    rw [(recovery_of_mem_trailing behind).1]
    decide

end Parser

/-! ## The cut-off -/

open PlZero.Parser in
/-- Every list of tokens has a least limit on nesting, at most two more than there are tokens.  With
it and with every greater one the program and the diagnostics are the same, and nothing is given up;
with a smaller one the program is empty, and the diagnostics break off in one that says so. -/
theorem parseTokens_nesting_cutoff (limit : Int) (file : String) (ts : List Token)
    (readable : ∀ t ∈ ts, t.Readable) :
    ∃ d : Nat, d ≤ ts.length + 2 ∧ ∃ p log,
      (∀ e ∈ log.entries, e.recovery ≠ some .abandoned) ∧
      (∀ nesting : Int, d ≤ nesting → parseTokens ⟨.number limit, nesting⟩ file ts = .ok (p, log)) ∧
      (∀ nesting : Int, nesting < d → ∃ before loc, before <+: log.entries ∧
        parseTokens ⟨.number limit, nesting⟩ file ts =
          let start := locationAt file ts 0
          .ok (⟨⟨[], [], [], .empty start, start⟩, start⟩,
            ⟨before ++ [Complaint.tooDeep nesting loc]⟩)) ∧
      ∀ (nesting more : Int) (p' : Program) (log' : Log), nesting ≤ more →
        parseTokens ⟨.number limit, nesting⟩ file ts = .ok (p', log') →
        (∀ e ∈ log'.entries, e.recovery ≠ some .abandoned) →
        parseTokens ⟨.number limit, more⟩ file ts = .ok (p', log') := by
  obtain ⟨d, bound, least⟩ := exists_least_nesting limit file ts
  obtain ⟨b, s, run, _⟩ | ⟨s, run, _⟩ := blockRun_cases limit d file readable rfl
  case inr =>
    have overflow : Overflow (blockRun limit file ts d) := by
      rw [run]
      trivial
    exact absurd ((least d).mp overflow) (Int.lt_irrefl _)
  have enough := fun nesting : Int => parseTokens_eq_of_le (m := nesting) readable run
  have short : ∀ nesting : Int, nesting < d → _ := fun nesting lt =>
    parseTokens_of_overflow readable run (Int.le_of_lt lt) ((least nesting).mpr lt)
  refine ⟨d, bound, ⟨b, locationAt file ts 0⟩, ⟨s.log.entries ++ trailing s.rest⟩,
    frank_of_blockRun run, enough, short, ?_⟩
  intro nesting more p' log' le parsed frank
  by_cases lt : nesting < d
  · obtain ⟨before, loc, _, given⟩ := short nesting lt
    rw [given] at parsed
    cases parsed
    exact absurd rfl (frank (Complaint.tooDeep nesting loc) (by simp))
  · rw [enough nesting (Int.not_lt.mp lt)] at parsed
    cases parsed
    exact enough more (Int.le_trans (Int.not_lt.mp lt) le)

open PlZero.Parser in
/-- An open parenthesis in a statement of a block: three levels are enough, and two are not. -/
theorem parseTokens_nesting_cutoff_parenthesis :
    let ts : List Token := [⟨.identifier, "x", .nowhere⟩, ⟨.operator, ":=", .nowhere⟩,
      ⟨.delimiter, "(", .nowhere⟩, ⟨.integer, "12", .nowhere⟩]
    (∀ t ∈ ts, t.Readable) ∧
      parseTokens ⟨.number 9, 2⟩ "" ts = .ok (abandoned .nowhere, ⟨[Complaint.tooDeep 2 .nowhere]⟩) ∧
      (parseTokens ⟨.number 9, 3⟩ "" ts).toOption.map (·.2.entries.length) = some 3 ∧
      ∃ d : Nat, d ≤ ts.length + 2 ∧ ∃ p log,
        (∀ e ∈ log.entries, e.recovery ≠ some .abandoned) ∧
        (∀ nesting : Int, d ≤ nesting → parseTokens ⟨.number 9, nesting⟩ "" ts = .ok (p, log)) ∧
        (∀ nesting : Int, nesting < d → ∃ before loc, before <+: log.entries ∧
          parseTokens ⟨.number 9, nesting⟩ "" ts =
            let start := locationAt "" ts 0
            .ok (⟨⟨[], [], [], .empty start, start⟩, start⟩,
              ⟨before ++ [Complaint.tooDeep nesting loc]⟩)) ∧
        ∀ (nesting more : Int) (p' : Program) (log' : Log), nesting ≤ more →
          parseTokens ⟨.number 9, nesting⟩ "" ts = .ok (p', log') →
          (∀ e ∈ log'.entries, e.recovery ≠ some .abandoned) →
          parseTokens ⟨.number 9, more⟩ "" ts = .ok (p', log') := by
  intro ts
  have readable : ∀ t ∈ ts, t.Readable := by
    simp [ts, Token.Readable, Text.IsDigits, Text.isDigit]
  exact ⟨readable, rfl, by decide, parseTokens_nesting_cutoff 9 "" ts readable⟩

end PlZero

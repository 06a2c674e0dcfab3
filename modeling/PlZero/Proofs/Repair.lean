import PlZero.Proofs.Program
import PlZero.Proofs.Scanning

/-! # Reported repairs are faithful

Some diagnostics say how the text could be put right: a symbol that was taken as read belongs before
the token at the place of the complaint, and an operator that was taken for another one belongs in
its place.  `repair` carries this out, from what the diagnostics say and nothing else.  If no other
complaints were made, the repaired tokens are parsed as the same program without an error, so the
diagnostics tell the truth about what the parser took the text for.
-/

namespace PlZero

/-! ## Repairs -/

/-- Whether a diagnostic is about the place right before the token, or about the end of the input if
there is none. -/
def Diagnostic.isAt (d : Diagnostic) : Option Token → Bool
  | some t => !d.atEnd && d.loc = some t.loc
  | none => d.atEnd

/-- The word that a diagnostic asks for, as a token at some location. -/
def Diagnostic.expected? (d : Diagnostic) (loc : Location) : Option Token :=
  (d.expected.bind Word.quoted?).map fun w => ⟨w.1, w.2, loc⟩

/-- The tokens that diagnostics of one sort ask for before the given token, in order. -/
def asked (locate : Diagnostic → Location) (recovery : Recovery) (ds : List Diagnostic)
    (next : Option Token) : List Token :=
  (ds.filter fun d => d.recovery = some recovery && d.isAt next).filterMap fun d =>
    d.expected? (locate d)

/-- The tokens with all repairs made that the diagnostics tell of.  The new tokens are located by
`locate`. -/
def repair (locate : Diagnostic → Location) (ds : List Diagnostic) (ts : List Token) : List Token :=
  ts.flatMap (fun t => asked locate .assumedPresent ds (some t) ++
    [(asked locate .substituted ds (some t)).head?.getD t]) ++
  asked locate .assumedPresent ds none

section repair

variable {locate : Diagnostic → Location} {recovery : Recovery} {d : Diagnostic}
  {ds : List Diagnostic} {ts : List Token} {t : Token} {next : Option Token}

theorem asked_cons_of_neg (other : d.recovery ≠ some recovery ∨ d.isAt next = false) :
    asked locate recovery (d :: ds) next = asked locate recovery ds next := by
  have skipped : (decide (d.recovery = some recovery) && d.isAt next) = false := by
    rcases other with sort | elsewhere
    · simp [sort]
    · simp [elsewhere]
  simp [asked, skipped]

theorem asked_cons_of_pos (sort : d.recovery = some recovery) (here : d.isAt next = true)
    {t : Token} (named : d.expected? (locate d) = some t) :
    asked locate recovery (d :: ds) next = t :: asked locate recovery ds next := by
  simp [asked, sort, here, named]

theorem asked_eq_nil (others : ∀ d ∈ ds, d.recovery ≠ some recovery ∨ d.isAt next = false) :
    asked locate recovery ds next = [] := by
  induction ds with
  | nil => rfl
  | cons d ds ih =>
    rw [asked_cons_of_neg (others d (by simp))]
    exact ih fun d' member => others d' (List.mem_cons_of_mem _ member)

theorem repair_nil (locate : Diagnostic → Location) (ds : List Diagnostic) :
    repair locate ds [] = asked locate .assumedPresent ds none := rfl

theorem repair_cons (locate : Diagnostic → Location) (ds : List Diagnostic) (t : Token)
    (ts : List Token) :
    repair locate ds (t :: ts) = asked locate .assumedPresent ds (some t) ++
      (asked locate .substituted ds (some t)).head?.getD t :: repair locate ds ts := by
  simp [repair]

/-- A diagnostic changes nothing where it is not about. -/
theorem repair_cons_of_elsewhere (tokens : ∀ t ∈ ts, d.isAt (some t) = false)
    (atEnd : d.isAt none = false) : repair locate (d :: ds) ts = repair locate ds ts := by
  induction ts with
  | nil => rw [repair_nil, repair_nil, asked_cons_of_neg (.inr atEnd)]
  | cons t ts ih =>
    have elsewhere := tokens t (by simp)
    rw [repair_cons, repair_cons, asked_cons_of_neg (.inr elsewhere),
      asked_cons_of_neg (.inr elsewhere), ih fun t' member => tokens t' (List.mem_cons_of_mem _ member)]

/-- Without repairs nothing changes. -/
theorem repair_eq_self (noRepairs : ∀ d ∈ ds, d.recovery ≠ some .assumedPresent ∧
    d.recovery ≠ some .substituted) : repair locate ds ts = ts := by
  have none : ∀ next, asked locate .assumedPresent ds next = [] := fun next =>
    asked_eq_nil fun d member => .inl (noRepairs d member).1
  have none' : ∀ next, asked locate .substituted ds next = [] := fun next =>
    asked_eq_nil fun d member => .inl (noRepairs d member).2
  induction ts with
  | nil => rw [repair_nil, none]
  | cons t ts ih => rw [repair_cons, none, none', ih]; rfl

end repair

/-! ## What repairs say -/

/-- No token is described like the end of the input. -/
theorem Token.describe_ne_endOfInput (t : Token) : t.describe ≠ Diagnostic.endOfInput := by
  intro same
  have first := congrArg (fun s : String => s.toList.head?) same
  cases kind : t.kind <;>
    simp [Token.describe, kind, Token.Kind.name, Diagnostic.endOfInput] at first

/-- A symbol of the language is no number, so that a token for it stands for it. -/
theorem Word.word_of_spelled? {symbol : String} {w : Word} (spelled : Word.spelled? symbol = some w)
    (loc : Location) : Token.word ⟨w.1, w.2, loc⟩ = w := by
  have noNumber : w.1 ≠ .integer := by
    intro integer
    unfold Word.spelled? at spelled
    split at spelled
    · cases spelled; cases integer
    split at spelled
    · cases spelled; cases integer
    split at spelled
    · cases spelled; cases integer
    · cases spelled
  simp [Token.word, noNumber]

namespace Parser

variable {cx : Context} {wanted : Wanted} {place : Place} {recovery : Recovery} {t : Token}
  {ts r : List Token}

@[simp] theorem recovery_missingAt :
    (missingAt cx wanted place recovery r).recovery = some recovery := rfl

@[simp] theorem isAt_missingAt_nil : (missingAt cx wanted place recovery []).isAt none = true := rfl

theorem atEnd_missingAt_cons : (missingAt cx wanted place recovery (t :: ts)).atEnd = false := by
  simpa [Diagnostic.atEnd, missingAt, Complaint.missing, Complaint.found] using t.describe_ne_endOfInput

@[simp] theorem isAt_missingAt_cons :
    (missingAt cx wanted place recovery (t :: ts)).isAt none = false := atEnd_missingAt_cons

theorem isAt_missingAt_cons_some {u : Token} :
    (missingAt cx wanted place recovery (t :: ts)).isAt (some u) = decide (t.loc = u.loc) := by
  simp only [Diagnostic.isAt, atEnd_missingAt_cons, Bool.not_false, Bool.true_and]
  simp [missingAt, Complaint.missing, Context.front]

/-- A complaint about a symbol that is missing asks for that symbol. -/
theorem expected?_missingAt {symbol : String} {w : Word} (spelled : Word.spelled? symbol = some w)
    (loc : Location) :
    (missingAt cx (.symbol symbol) place recovery r).expected? loc = some ⟨w.1, w.2, loc⟩ := by
  simp only [Diagnostic.expected?, missingAt, Complaint.missing, Option.bind_some,
    Word.quoted?_symbol, spelled, Option.map_some]

/-- A complaint is about no token that stands elsewhere than the next one. -/
theorem isAt_missingAt_eq_false {u : Token} (absent : u.loc ∉ r.map Token.loc) :
    (missingAt cx wanted place recovery r).isAt (some u) = false := by
  cases r with
  | nil => rfl
  | cons t ts =>
    rw [isAt_missingAt_cons_some, decide_eq_false_iff_not]
    intro same
    exact absent (by simp [same])

/-- The repairs on a trail are about the tokens on it. -/
theorem Mended.isAt_eq_false {r r' : List Token} {ds : List Diagnostic} {ws : List Word}
    (mended : Mended cx r ds ws r') {u : Token} (absent : u.loc ∉ r.map Token.loc) :
    ∀ d ∈ ds, d.isAt (some u) = false := by
  induction mended with
  | done => simp
  | keep _ ih => exact ih fun member => absent (List.mem_cons_of_mem _ member)
  | insert place _ _ ih =>
    intro d member
    rcases List.mem_cons.mp member with rfl | behind
    · exact isAt_missingAt_eq_false absent
    · exact ih absent d behind
  | replace place _ _ ih =>
    intro d member
    rcases List.mem_cons.mp member with rfl | behind
    · exact isAt_missingAt_eq_false absent
    · exact ih (fun member => absent (List.mem_cons_of_mem _ member)) d behind

/-- A complaint about the first of some tokens is about none of the others. -/
theorem repair_cons_missingAt {ds : List Diagnostic} {locate : Diagnostic → Location}
    (distinct : ((t :: ts).map Token.loc).Nodup) :
    repair locate (missingAt cx wanted place recovery (t :: ts) :: ds) ts = repair locate ds ts := by
  refine repair_cons_of_elsewhere (fun u member => ?_) isAt_missingAt_cons
  rw [isAt_missingAt_cons_some, decide_eq_false_iff_not]
  intro same
  exact (List.nodup_cons.mp distinct).1 (same ▸ List.mem_map_of_mem member)

/-- A symbol that was taken as read comes before the tokens. -/
theorem repair_insert (cx : Context) {symbol : String} {w : Word}
    (spelled : Word.spelled? symbol = some w) (place : Place) (distinct : (r.map Token.loc).Nodup)
    (locate : Diagnostic → Location) (ds : List Diagnostic) : ∃ loc,
      repair locate (missingAt cx (.symbol symbol) place .assumedPresent r :: ds) r =
        ⟨w.1, w.2, loc⟩ :: repair locate ds r := by
  refine ⟨locate (missingAt cx (.symbol symbol) place .assumedPresent r), ?_⟩
  cases r with
  | nil =>
    rw [repair_nil, repair_nil,
      asked_cons_of_pos rfl isAt_missingAt_nil (expected?_missingAt spelled _)]
  | cons t ts =>
    have here : (missingAt cx (.symbol symbol) place .assumedPresent (t :: ts)).isAt (some t) := by
      simp [isAt_missingAt_cons_some]
    rw [repair_cons, repair_cons, repair_cons_missingAt distinct,
      asked_cons_of_pos rfl here (expected?_missingAt spelled _), asked_cons_of_neg (.inl (by simp)),
      List.cons_append]

/-- A token that was taken for another one gives way to it. -/
theorem repair_replace (cx : Context) {symbol : String} {w : Word}
    (spelled : Word.spelled? symbol = some w) (place : Place)
    (distinct : ((t :: ts).map Token.loc).Nodup) (locate : Diagnostic → Location)
    {ds : List Diagnostic} (noInsertion : asked locate .assumedPresent ds (some t) = []) : ∃ loc,
      repair locate (missingAt cx (.symbol symbol) place .substituted (t :: ts) :: ds) (t :: ts) =
        ⟨w.1, w.2, loc⟩ :: repair locate ds ts := by
  have here : (missingAt cx (.symbol symbol) place .substituted (t :: ts)).isAt (some t) := by
    simp [isAt_missingAt_cons_some]
  refine ⟨locate (missingAt cx (.symbol symbol) place .substituted (t :: ts)), ?_⟩
  rw [repair_cons, repair_cons_missingAt distinct, asked_cons_of_neg (.inl (by simp)), noInsertion,
    asked_cons_of_pos rfl here (expected?_missingAt spelled _)]
  rfl

/-- Nothing on a trail, and no complaint that is no repair, asks for a change at a token that is not
on the trail. -/
theorem Mended.asked_eq_nil {ts r' : List Token} {ds others : List Diagnostic} {ws : List Word}
    (mended : Mended cx ts ds ws r') (absent : t.loc ∉ ts.map Token.loc)
    (noRepairs : ∀ d ∈ others, d.recovery ≠ some recovery) (locate : Diagnostic → Location) :
    asked locate recovery (ds ++ others) (some t) = [] := by
  refine PlZero.asked_eq_nil fun d member => ?_
  rcases List.mem_append.mp member with onTrail | other
  · exact .inr (mended.isAt_eq_false absent d onTrail)
  · exact .inl (noRepairs d other)

/-- Repairs make a trail spell the words that it was taken to spell. -/
theorem Mended.repair {r r' : List Token} {ds others : List Diagnostic} {ws : List Word}
    (mended : Mended cx r ds ws r') (distinct : (r.map Token.loc).Nodup)
    (noInsertions : ∀ d ∈ others, d.recovery ≠ some .assumedPresent)
    (noReplacements : ∀ d ∈ others, d.recovery ≠ some .substituted)
    (locate : Diagnostic → Location) :
    ∃ repaired, PlZero.repair locate (ds ++ others) r = repaired ++ r' ∧
      repaired.map Token.word = ws := by
  induction mended with
  | done =>
    exact ⟨[], repair_eq_self fun d member => ⟨noInsertions d member, noReplacements d member⟩, rfl⟩
  -- a token that is kept is out of reach of all later repairs, which are about later tokens
  | @keep t ts r ds ws behind ih =>
    obtain ⟨absent, distinct⟩ := List.nodup_cons.mp distinct
    obtain ⟨repaired, run, words⟩ := ih distinct
    refine ⟨t :: repaired, ?_, by rw [List.map_cons, words]⟩
    rw [repair_cons, behind.asked_eq_nil absent noInsertions,
      behind.asked_eq_nil absent noReplacements, run]
    rfl
  | @insert symbol w place r r' ds ws spelled behind ih =>
    obtain ⟨repaired, run, words⟩ := ih distinct
    obtain ⟨loc, inserted⟩ := repair_insert cx spelled place distinct locate (ds ++ others)
    refine ⟨⟨w.1, w.2, loc⟩ :: repaired, ?_, ?_⟩
    · rw [List.cons_append, inserted, run, List.cons_append]
    · rw [List.map_cons, Word.word_of_spelled? spelled, words]
  | @replace symbol w place t ts r ds ws spelled behind ih =>
    obtain ⟨absent, tail⟩ := List.nodup_cons.mp distinct
    obtain ⟨repaired, run, words⟩ := ih tail
    obtain ⟨loc, replaced⟩ := repair_replace cx spelled place distinct locate
      (behind.asked_eq_nil absent noInsertions locate)
    refine ⟨⟨w.1, w.2, loc⟩ :: repaired, ?_, ?_⟩
    · rw [List.cons_append, replaced, run, List.cons_append]
    · rw [List.map_cons, Word.word_of_spelled? spelled, words]

/-- Repairs leave nothing aside. -/
theorem Mended.recovery_ne_ignored {r r' : List Token} {ds : List Diagnostic} {ws : List Word}
    (mended : Mended cx r ds ws r') : ∀ d ∈ ds, d.recovery ≠ some .ignored := by
  induction mended with
  | done => simp
  | keep _ ih => exact ih
  | insert _ _ _ ih | replace _ _ _ ih =>
    intro d member
    rcases List.mem_cons.mp member with rfl | behind
    · simp
    · exact ih d behind

end Parser

/-! ## Repaired programs -/

open PlZero.Parser in
/-- Any text is parsed to the end.  If all that is reported are repairs, and perhaps that something
follows the program, then the repaired tokens are parsed without an error as the same program, and
something is said to follow it if and only if that was said before. -/
theorem parse_repair (limit nesting : Int) (file source : String) (locate : Diagnostic → Location) :
    ∃ p log, parse ⟨.number limit, nesting⟩ file source = .ok (p, log) ∧
      ((∀ d ∈ log.entries, d.recovery = some .assumedPresent ∨ d.recovery = some .substituted ∨
        d.recovery = some .ignored) →
      ∃ q log', parseTokens ⟨.number limit, nesting⟩ file
          (repair locate log.entries (tokenize source file)) = .ok (q, log') ∧
        log'.errors = [] ∧ q.bare = p.bare ∧
        ((∃ d ∈ log'.entries, d.recovery = some .ignored) ↔
          ∃ d ∈ log.entries, d.recovery = some .ignored)) := by
  have readable : ∀ t ∈ tokenize source file, t.Readable := Scanner.readable_of_mem_tokens _
  rcases parseTokens_accounts limit nesting file readable rfl with
    ⟨b, ds, left, _, result, spelled⟩ | ⟨ds, left, _, result⟩
  · refine ⟨_, _, result, fun mendable => ?_⟩
    obtain ⟨ws, mended, good⟩ := spelled fun d member => mendable d (List.mem_append_left _ member)
    have distinct : ((tokenize source file).map Token.loc).Nodup := Scanner.nodup_loc_tokens _
    have noOther : ∀ d ∈ trailing left, d.recovery = some .ignored := fun d member =>
      (recovery_of_mem_trailing member).1
    obtain ⟨repaired, run, words⟩ := mended.repair distinct
      (fun d member => by simp [noOther d member]) (fun d member => by simp [noOther d member]) locate
    let p : Program := ⟨b, (Context.ofTokens ⟨.number limit, nesting⟩ file (tokenize source file)).front
      (tokenize source file)⟩
    -- the repaired tokens are the words of the tree itself, so the tree is read back from them
    have written : repaired.map Token.word = p.words := by rw [words, ← good.words]; rfl
    rcases parseTokens_reads limit nesting file (p := p) good.grammatical good.literals written left rfl
      with ⟨b', bare, silent⟩ | ⟨overflow, _⟩
    · rw [← run] at silent
      refine ⟨_, _, silent, ?_, by simp [Program.bare, bare, p], ?_⟩
      · exact List.filter_eq_nil_iff.mpr fun d member => by simp [(recovery_of_mem_trailing member).2]
      · constructor
        · rintro ⟨d, member, ignored⟩
          exact ⟨d, List.mem_append_right _ member, ignored⟩
        · rintro ⟨d, member, ignored⟩
          rcases List.mem_append.mp member with onTrail | behind
          · exact absurd ignored (mended.recovery_ne_ignored d onTrail)
          · exact ⟨d, behind, ignored⟩
    -- the tree was within the limit before
    · exact absurd good.depth overflow
  · refine ⟨_, _, result, fun mendable => ?_⟩
    have impossible := mendable _ (List.mem_append_right _ List.mem_cons_self)
    simp [Complaint.tooDeep] at impossible

/-- A wrong operator, a missing `end` and a word behind the program: the diagnostics are of all three
sorts, and the repaired tokens are those that were meant. -/
theorem parse_repair_of_all_sorts :
    let limits : Limits := ⟨.number 9, 9⟩
    let source := "begin x = 1 . y"
    let locate : Diagnostic → Location := fun _ => .nowhere
    let sorts : List (Option Recovery) := [some .substituted, some .assumedPresent, some .ignored]
    let meant : List Word := [.keyword "begin", .identifier "x", .operator ":=", .number (.number 1),
      .keyword "end", .delimiter ".", .identifier "y"]
    ∃ p log, parse limits "" source = .ok (p, log) ∧ log.entries.map (·.recovery) = sorts ∧
      (repair locate log.entries (tokenize source "")).map Token.word = meant ∧
      ∃ q log', parseTokens limits "" (repair locate log.entries (tokenize source "")) = .ok (q, log') ∧
        log'.errors = [] ∧ q.bare = p.bare ∧ ∃ d ∈ log'.entries, d.recovery = some .ignored := by
  intro limits source locate sorts meant
  obtain ⟨p, log, parsed, faithful⟩ := parse_repair 9 9 "" source locate
  have evaluated : (parse limits "" source).toOption.map (fun r => (r.2.entries.map (·.recovery),
      (repair locate r.2.entries (tokenize source "")).map Token.word)) = some (sorts, meant) := by
    decide +kernel
  rw [parsed] at evaluated
  obtain ⟨recoveries, words⟩ := Prod.mk.inj (Option.some.inj evaluated)
  have mendable : ∀ o ∈ log.entries.map (·.recovery),
      o = some .assumedPresent ∨ o = some .substituted ∨ o = some .ignored := by
    rw [recoveries]
    decide
  have ignoring : some .ignored ∈ log.entries.map (·.recovery) := by
    rw [recoveries]
    decide
  obtain ⟨q, log', reparsed, silent, same, ignored⟩ :=
    faithful fun d member => mendable d.recovery (List.mem_map_of_mem member)
  exact ⟨p, log, parsed, recoveries, words, q, log', reparsed, silent, same,
    ignored.mpr (List.mem_map.mp ignoring)⟩

end PlZero

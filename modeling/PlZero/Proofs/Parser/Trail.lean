import PlZero.Proofs.Grammar
import PlZero.Proofs.Numerals
import PlZero.Proofs.Parser.Run

/-! # What parsers leave behind

A parser takes tokens and makes complaints, in some order.  That order is a `Trail`: it starts with
the tokens before the parser and ends with those behind it.  If all complaints on the way are
repairs, the tokens and the repairs together spell words, and `Mended` says which: a token stands
for itself, a symbol taken as read is inserted, and a wrong operator is replaced.

`Accounts` joins the two into one judgement about a parser, to be proved production by production:
whatever the parser does is a trail, halts are of the allowed sort and have their reason in the
trail, and the words spelled on a mended trail are those of the result.  The rules follow the way
a parser is written: `take`, `insert`, `replace`, `lose` and `fault` run one primitive, `bind` and
`repeatedly` put parsers together.
-/

namespace PlZero

/-! ## Words named in complaints -/

/-- The keyword, operator or delimiter that is spelled so. -/
def Word.spelled? (s : String) : Option Word :=
  if keywords.contains s then some (.keyword s)
  else if operators.contains s then some (.operator s)
  else if delimiters.contains s then some (.delimiter s)
  else none

/-- The word that a text names by its spelling between quotes. -/
def Word.quoted? (text : String) : Option Word :=
  match text.toList with
  | '\x27' :: cs => Word.spelled? (String.ofList cs.dropLast)
  | _ => none

theorem Word.quoted?_symbol (s : String) : Word.quoted? (Wanted.symbol s).text = Word.spelled? s := by
  simp [Word.quoted?, Wanted.text]

/-- Whether a diagnostic leaves the program as it was meant: a symbol was taken as read, a wrong
operator was replaced, or what follows the program was left aside. -/
def Diagnostic.Mendable (d : Diagnostic) : Prop :=
  d.recovery = some .assumedPresent ∨ d.recovery = some .substituted ∨ d.recovery = some .ignored

namespace Parser

variable {α β : Type} {cx : Context}

@[simp] theorem mendable_missingAt {wanted : Wanted} {place : Place} {recovery : Recovery}
    {r : List Token} : (missingAt cx wanted place recovery r).Mendable ↔
      recovery = .assumedPresent ∨ recovery = .substituted ∨ recovery = .ignored := by
  simp [Diagnostic.Mendable, missingAt, Complaint.missing]

/-! ## Trails -/

/-- A complaint about a token that is taken. -/
inductive Fault (cx : Context) (t : Token) : Diagnostic → Prop
  | tooLarge : Fault cx t (Complaint.tooLarge cx.limits.maxInteger t)
  | misplaced (s last : Section) : Fault cx t (Complaint.misplacedSection s last t)
  | trailing : Fault cx t (Complaint.trailing t)

/-- `Trail cx r ds r'`: the tokens `r` are taken up to `r'`, with the complaints `ds` on the way. -/
inductive Trail (cx : Context) : List Token → List Diagnostic → List Token → Prop
  | done {r : List Token} : Trail cx r [] r
  | take {t : Token} {ts r : List Token} {ds : List Diagnostic} :
      Trail cx ts ds r → Trail cx (t :: ts) ds r
  | miss {r r' : List Token} {ds : List Diagnostic} (wanted : Wanted) (place : Place)
      (recovery : Recovery) :
      Trail cx r ds r' → Trail cx r (missingAt cx wanted place recovery r :: ds) r'
  | fault {t : Token} {ts r : List Token} {d : Diagnostic} {ds : List Diagnostic} :
      Fault cx t d → Trail cx ts ds r → Trail cx (t :: ts) (d :: ds) r
  | giveUp {r r' : List Token} {ds : List Diagnostic} : Trail cx r ds r' →
      Trail cx r (Complaint.tooDeep cx.limits.maxNesting (cx.front r) :: ds) r'

theorem Trail.trans {r r' r'' : List Token} {ds ds' : List Diagnostic} (first : Trail cx r ds r')
    (second : Trail cx r' ds' r'') : Trail cx r (ds ++ ds') r'' := by
  induction first with
  | done => exact second
  | take _ ih => exact .take (ih second)
  | miss wanted place recovery _ ih => exact .miss wanted place recovery (ih second)
  | fault about _ ih => exact .fault about (ih second)
  | giveUp _ ih => exact .giveUp (ih second)

theorem Trail.suffix {r r' : List Token} {ds : List Diagnostic} (trail : Trail cx r ds r') :
    r' <:+ r := by
  induction trail with
  | done => exact List.suffix_refl _
  | take _ ih => exact ih.trans (List.suffix_cons _ _)
  | miss _ _ _ _ ih => exact ih
  | fault _ _ ih => exact ih.trans (List.suffix_cons _ _)
  | giveUp _ ih => exact ih

theorem Trail.of_suffix {r r' : List Token} (suffix : r' <:+ r) : Trail cx r [] r' := by
  obtain ⟨taken, rfl⟩ := suffix
  induction taken with
  | nil => exact .done
  | cons t ts ih => exact .take ih

/-- All complaints on a trail are errors, but for the one about what follows the program. -/
theorem Trail.mendable_of_not_isError {r r' : List Token} {ds : List Diagnostic}
    (trail : Trail cx r ds r') : ∀ d ∈ ds, d.isError = false → d.Mendable := by
  induction trail with
  | done => simp
  | take _ ih => exact ih
  | miss wanted place recovery _ ih =>
    intro d member noError
    rcases List.mem_cons.mp member with rfl | behind
    · cases noError
    · exact ih d behind noError
  | fault about _ ih =>
    intro d member noError
    rcases List.mem_cons.mp member with rfl | behind
    · cases about with
      | tooLarge | misplaced => cases noError
      -- the only warning there is
      | trailing => exact .inr (.inr rfl)
    · exact ih d behind noError
  | giveUp _ ih =>
    intro d member noError
    rcases List.mem_cons.mp member with rfl | behind
    · cases noError
    · exact ih d behind noError

/-! ## Mended trails -/

/-- `Mended cx r ds ws r'`: on a trail whose complaints `ds` are repairs, the tokens and the repairs
spell the words `ws`. -/
inductive Mended (cx : Context) : List Token → List Diagnostic → List Word → List Token → Prop
  | done {r : List Token} : Mended cx r [] [] r
  | keep {t : Token} {ts r : List Token} {ds : List Diagnostic} {ws : List Word} :
      Mended cx ts ds ws r → Mended cx (t :: ts) ds (t.word :: ws) r
  | insert {symbol : String} {w : Word} (place : Place) {r r' : List Token} {ds : List Diagnostic}
      {ws : List Word} : Word.spelled? symbol = some w → Mended cx r ds ws r' →
      Mended cx r (missingAt cx (.symbol symbol) place .assumedPresent r :: ds) (w :: ws) r'
  | replace {symbol : String} {w : Word} (place : Place) {t : Token} {ts r : List Token}
      {ds : List Diagnostic} {ws : List Word} : Word.spelled? symbol = some w →
      Mended cx ts ds ws r →
      Mended cx (t :: ts) (missingAt cx (.symbol symbol) place .substituted (t :: ts) :: ds)
        (w :: ws) r

theorem Mended.trans {r r' r'' : List Token} {ds ds' : List Diagnostic} {ws ws' : List Word}
    (first : Mended cx r ds ws r') (second : Mended cx r' ds' ws' r'') :
    Mended cx r (ds ++ ds') (ws ++ ws') r'' := by
  induction first with
  | done => exact second
  | keep _ ih => exact .keep (ih second)
  | insert place spelled _ ih => exact .insert place spelled (ih second)
  | replace place spelled _ ih => exact .replace place spelled (ih second)

/-- Without complaints the words are those of the tokens. -/
theorem Mended.eq_of_nil {r r' : List Token} {ws : List Word} (mended : Mended cx r [] ws r') :
    ∃ taken, r = taken ++ r' ∧ taken.map Token.word = ws := by
  -- the empty list is an index here, so it has to become a variable before the induction
  generalize silent : ([] : List Diagnostic) = ds at mended
  induction mended with
  | done => exact ⟨[], rfl, rfl⟩
  | @keep t ts r ds ws _ ih =>
    obtain ⟨taken, rfl, rfl⟩ := ih silent
    exact ⟨t :: taken, rfl, rfl⟩
  | insert | replace => cases silent

/-- All repairs are errors. -/
theorem Mended.eq_nil_of_not_isError {r r' : List Token} {ds : List Diagnostic} {ws : List Word}
    (mended : Mended cx r ds ws r') (noError : ∀ d ∈ ds, d.isError = false) : ds = [] := by
  induction mended with
  | done => rfl
  | keep _ ih => exact ih noError
  | insert | replace =>
    have impossible := noError _ List.mem_cons_self
    cases impossible

/-! ## Halts -/

/-- A halt that the grammar of declarations can cause. -/
def Halt.IsMalformed : Halt → Prop
  | .malformed _ _ => True
  | _ => False

/-- A halt that nesting can cause. -/
def Halt.IsTooDeep : Halt → Prop
  | .tooDeep _ _ => True
  | _ => False

/-- A halt at the tokens `r` has its reason: a malformed declaration has just been reported there,
or the nesting has reached its limit there. -/
inductive Justified (cx : Context) : Halt → List Diagnostic → List Token → Prop
  | malformed (wanted : Wanted) (place : Place) (ds : List Diagnostic) (r : List Token) :
      Justified cx (.malformed wanted (cx.front r)) (ds ++ [missingAt cx wanted place .omitted r]) r
  | tooDeep (ds : List Diagnostic) (r : List Token) :
      Justified cx (.tooDeep cx.limits.maxNesting (cx.front r)) ds r

theorem Justified.prepend {h : Halt} {ds : List Diagnostic} {r : List Token}
    (justified : Justified cx h ds r) (before : List Diagnostic) :
    Justified cx h (before ++ ds) r := by
  cases justified with
  | malformed wanted place ds r =>
    rw [← List.append_assoc]
    exact .malformed wanted place (before ++ ds) r
  | tooDeep ds r => exact .tooDeep (before ++ ds) r

/-! ## Accounts -/

/-- What a run that started at the tokens `r` may come to.  It is back at its level of nesting and
has left a trail.  If it has a result and all complaints were repairs, `Q` holds of the result, the
words that were spelled and the tokens that are left; if it has come to a halt, that is of the
allowed sort and has its reason in the trail. -/
def Settles (cx : Context) (allowed : Halt → Prop) (r : List Token) (depth : Nat) (log : Log)
    (Q : α → List Word → List Token → Prop) : EStateM.Result Halt State α → Prop
  | .ok a s => s.depth = depth ∧ ∃ ds, s.log.entries = log.entries ++ ds ∧ Trail cx r ds s.rest ∧
      ((∀ d ∈ ds, d.Mendable) → ∃ ws, Mended cx r ds ws s.rest ∧ Q a ws s.rest)
  | .error h s => s.depth = depth ∧ ∃ ds, s.log.entries = log.entries ++ ds ∧
      Trail cx r ds s.rest ∧ allowed h ∧ Justified cx h ds s.rest

/-- The parser `p` accounts for all that it does at the tokens `r`. -/
def Accounts (cx : Context) (allowed : Halt → Prop) (p : Parser α) (r : List Token)
    (Q : α → List Word → List Token → Prop) : Prop :=
  (∀ t ∈ r, t.Readable) → ∀ (depth : Nat) (log : Log),
    Settles cx allowed r depth log Q (p ⟨r, depth, log⟩)

/-- A run that goes on from another one: the trails are joined, and so are the words. -/
theorem Settles.prepend {allowed : Halt → Prop} {r r' : List Token} {depth : Nat} {log log' : Log}
    {before : List Diagnostic} {P : List Word → Prop} {Q Q' : α → List Word → List Token → Prop}
    {result : EStateM.Result Halt State α} (trail : Trail cx r before r')
    (grown : log'.entries = log.entries ++ before)
    (spelled : (∀ d ∈ before, d.Mendable) → ∃ ws, Mended cx r before ws r' ∧ P ws)
    (joined : ∀ a ws ws' r'', P ws → Q a ws' r'' → Q' a (ws ++ ws') r'')
    (settled : Settles cx allowed r' depth log' Q result) :
    Settles cx allowed r depth log Q' result := by
  cases result with
  | ok a s =>
    obtain ⟨level, ds, grown', trail', spelled'⟩ := settled
    refine ⟨level, before ++ ds, by simp [grown', grown], trail.trans trail', fun mendable => ?_⟩
    -- both halves of the trail are mended, so each has words of its own
    obtain ⟨ws, mended, known⟩ := spelled fun d member => mendable d (by simp [member])
    obtain ⟨ws', mended', holds⟩ := spelled' fun d member => mendable d (by simp [member])
    exact ⟨ws ++ ws', mended.trans mended', joined a ws ws' _ known holds⟩
  | error h s =>
    obtain ⟨level, ds, grown', trail', permitted, reason⟩ := settled
    exact ⟨level, before ++ ds, by simp [grown', grown], trail.trans trail', permitted,
      reason.prepend before⟩

namespace Accounts

variable {allowed : Halt → Prop} {p q : Parser α} {r ts : List Token} {t : Token}
  {Q Q' : α → List Word → List Token → Prop}

theorem mono (account : Accounts cx allowed p r Q) (weaker : ∀ a ws r', Q a ws r' → Q' a ws r') :
    Accounts cx allowed p r Q' := by
  intro readable depth log
  exact (account readable depth log).prepend (P := fun ws => ws = []) .done (by simp)
    (fun _ => ⟨[], .done, rfl⟩) fun a ws ws' r'' nothing holds => by
      subst nothing
      exact weaker a ws' r'' holds

theorem same (run : ∀ depth log, p ⟨r, depth, log⟩ = q ⟨r, depth, log⟩)
    (account : Accounts cx allowed q r Q) : Accounts cx allowed p r Q := by
  intro readable depth log
  rw [run]
  exact account readable depth log

/-- The first steps of a parser, which lead from `r` to `r'` with the complaints `before`.  If they
can be mended, so that they spell words of their own, these come first. -/
theorem step {r' : List Token} {before : List Diagnostic} {P : List Word → Prop}
    (run : ∀ depth log, p ⟨r, depth, log⟩ = q ⟨r', depth, ⟨log.entries ++ before⟩⟩)
    (trail : Trail cx r before r')
    (spelled : (∀ d ∈ before, d.Mendable) → ∃ ws, Mended cx r before ws r' ∧ P ws)
    (account : Accounts cx allowed q r' fun a ws r'' => ∀ ws', P ws' → Q a (ws' ++ ws) r'') :
    Accounts cx allowed p r Q := by
  intro readable depth log
  rw [run]
  -- the account starts at later tokens, which can be read because all of them can
  exact (account (fun t member => readable t (trail.suffix.subset member)) depth _).prepend trail rfl
    spelled fun a ws ws' r'' known holds => holds ws known

theorem take (run : ∀ depth log, p ⟨t :: ts, depth, log⟩ = q ⟨ts, depth, log⟩)
    (account : Accounts cx allowed q ts fun a ws r' => Q a (t.word :: ws) r') :
    Accounts cx allowed p (t :: ts) Q := by
  have taken : Trail cx (t :: ts) [] ts := .take .done
  refine step (P := fun ws => ws = [t.word]) (q := q) ?_ taken (fun _ => ⟨_, .keep .done, rfl⟩)
    (account.mono ?_)
  · intro depth log
    rw [run, List.append_nil]
  · rintro a ws r' holds _ rfl
    exact holds

theorem insert (symbol : String) (place : Place) {w : Word} (spelled : Word.spelled? symbol = some w)
    (run : ∀ depth log, p ⟨r, depth, log⟩ =
      q ⟨r, depth, log.add (missingAt cx (.symbol symbol) place .assumedPresent r)⟩)
    (account : Accounts cx allowed q r fun a ws r' => Q a (w :: ws) r') :
    Accounts cx allowed p r Q := by
  refine step (P := fun ws => ws = [w]) run (.miss (.symbol symbol) place .assumedPresent .done)
    (fun _ => ⟨_, .insert place spelled .done, rfl⟩) (account.mono ?_)
  rintro a ws r' holds _ rfl
  exact holds

theorem replace (symbol : String) (place : Place) {w : Word} (spelled : Word.spelled? symbol = some w)
    (run : ∀ depth log, p ⟨t :: ts, depth, log⟩ =
      q ⟨ts, depth, log.add (missingAt cx (.symbol symbol) place .substituted (t :: ts))⟩)
    (account : Accounts cx allowed q ts fun a ws r' => Q a (w :: ws) r') :
    Accounts cx allowed p (t :: ts) Q := by
  refine step (P := fun ws => ws = [w]) run
    (.miss (.symbol symbol) place .substituted (.take .done))
    (fun _ => ⟨_, .replace place spelled .done, rfl⟩) (account.mono ?_)
  rintro a ws r' holds _ rfl
  exact holds

/-- Something is missing for good, so nothing has to be said about the words. -/
theorem lose {r' : List Token} (wanted : Wanted) (place : Place) (recovery : Recovery)
    (run : ∀ depth log, p ⟨r, depth, log⟩ =
      q ⟨r', depth, log.add (missingAt cx wanted place recovery r)⟩)
    (lost : ¬ (missingAt cx wanted place recovery r).Mendable) (suffix : r' <:+ r)
    (account : Accounts cx allowed q r' fun _ _ _ => True) : Accounts cx allowed p r Q := by
  refine step (P := fun _ => False) run (.miss wanted place recovery (.of_suffix suffix))
    (fun mendable => absurd (mendable _ (by simp)) lost) (account.mono ?_)
  intro a ws r' _ ws' impossible
  exact impossible.elim

theorem fault {d : Diagnostic}
    (run : ∀ depth log, p ⟨t :: ts, depth, log⟩ = q ⟨ts, depth, log.add d⟩)
    (about : Fault cx t d) (lost : ¬ d.Mendable)
    (account : Accounts cx allowed q ts fun _ _ _ => True) :
    Accounts cx allowed p (t :: ts) Q := by
  refine step (P := fun _ => False) run (.fault about .done)
    (fun mendable => absurd (mendable _ (by simp)) lost) (account.mono ?_)
  intro a ws r' _ ws' impossible
  exact impossible.elim

protected theorem pure {a : α} (holds : Q a [] r) : Accounts cx allowed (pure a) r Q := by
  intro _ depth log
  exact ⟨rfl, [], by simp, .done, fun _ => ⟨[], .done, holds⟩⟩

/-- One parser after another.  What is known of the first result becomes a premise of the second
account, because it is known only if the first trail can be mended. -/
theorem bind {f : α → Parser β} {P : α → List Word → List Token → Prop}
    {Q : β → List Word → List Token → Prop} (first : Accounts cx allowed p r P)
    (second : ∀ a r', Accounts cx allowed (f a) r' fun b ws r'' =>
      ∀ ws', P a ws' r' → Q b (ws' ++ ws) r'') :
    Accounts cx allowed (p >>= f) r Q := by
  intro readable depth log
  rw [bind_apply]
  have result := first readable depth log
  cases run : p ⟨r, depth, log⟩ with
  | error h s =>
    rw [run] at result
    exact result
  | ok a s =>
    obtain ⟨r', depth', log'⟩ := s
    rw [run] at result
    obtain ⟨rfl, before, grown, trail, spelled⟩ := result
    exact (second a r' (fun t member => readable t (trail.suffix.subset member)) depth' log').prepend
      trail grown spelled fun b ws ws' r'' known holds => holds ws known

/-! ### Halts and levels -/

theorem tooDeep : Accounts cx Halt.IsTooDeep (tooDeep cx) r Q := by
  intro _ depth log
  rw [tooDeep_apply]
  exact ⟨rfl, [], by simp, .done, trivial, .tooDeep [] r⟩

theorem malformed (wanted : Wanted) (place : Place) :
    Accounts cx Halt.IsMalformed (malformed cx wanted place) r Q := by
  intro _ depth log
  rw [malformed_apply]
  exact ⟨rfl, [missingAt cx wanted place .omitted r], rfl, .miss wanted place .omitted .done, trivial,
    .malformed wanted place [] r⟩

theorem deeper (account : Accounts cx allowed p r Q) :
    Accounts cx allowed (Parser.deeper p) r Q := by
  intro readable depth log
  have result := account readable (depth + 1) log
  simp only [Parser.deeper]
  cases run : p ⟨r, depth + 1, log⟩ with
  | ok a s =>
    rw [run] at result
    obtain ⟨level, left⟩ := result
    exact ⟨by simp [level], left⟩
  | error h s =>
    rw [run] at result
    obtain ⟨level, left⟩ := result
    exact ⟨by simp [level], left⟩

/-! ### Tokens that may be there -/

theorem peek_bind {f : Option Token → Parser α} (account : Accounts cx allowed (f r.head?) r Q) :
    Accounts cx allowed (peek >>= f) r Q :=
  same (fun _ _ => by simp) account

theorem here_bind {f : Location → Parser α} (account : Accounts cx allowed (f (cx.front r)) r Q) :
    Accounts cx allowed (here cx >>= f) r Q :=
  same (fun _ _ => by simp) account

theorem advance_bind {f : Unit → Parser α}
    (account : Accounts cx allowed (f ()) ts fun a ws r' => Q a (t.word :: ws) r') :
    Accounts cx allowed (advance >>= f) (t :: ts) Q :=
  take (fun _ _ => by simp) account

theorem accept_bind {f : Option Token → Parser α} {accepts : Token → Bool}
    (accepted : ∀ t ts, r = t :: ts → accepts t = true →
      Accounts cx allowed (f (some t)) ts fun a ws r' => Q a (t.word :: ws) r')
    (declined : (∀ t ∈ r.head?, accepts t = false) → Accounts cx allowed (f none) r Q) :
    Accounts cx allowed (accept accepts >>= f) r Q := by
  cases r with
  | nil => exact same (fun _ _ => by simp) (declined (by simp))
  | cons t ts =>
    cases accepting : accepts t with
    | true =>
      exact take (fun _ _ => by simp [accept_cons_of_pos accepting]) (accepted t ts rfl accepting)
    | false =>
      exact same (fun _ _ => by simp [accept_cons_of_neg accepting]) (declined (by simpa))

theorem acceptAs_bind {f : Option (Token × β) → Parser α} {read : Token → Option β}
    (accepted : ∀ t b ts, r = t :: ts → read t = some b →
      Accounts cx allowed (f (some (t, b))) ts fun a ws r' => Q a (t.word :: ws) r')
    (declined : (∀ t ∈ r.head?, read t = none) → Accounts cx allowed (f none) r Q) :
    Accounts cx allowed (acceptAs read >>= f) r Q := by
  cases r with
  | nil => exact same (fun _ _ => by simp) (declined (by simp))
  | cons t ts =>
    cases reading : read t with
    | some b =>
      exact take (fun _ _ => by simp [acceptAs_cons_of_some reading]) (accepted t b ts rfl reading)
    | none =>
      exact same (fun _ _ => by simp [acceptAs_cons_of_none reading]) (declined (by simpa))

theorem report_bind {f : Unit → Parser α} {wanted : Wanted} {place : Place} {recovery : Recovery}
    (lost : ¬ (missingAt cx wanted place recovery r).Mendable)
    (account : Accounts cx allowed (f ()) r fun _ _ _ => True) :
    Accounts cx allowed (report cx wanted place recovery >>= f) r Q :=
  lose wanted place recovery (fun _ _ => by simp) lost (List.suffix_refl _) account

/-- A word that is required: it is there, or it is taken as read. -/
theorem require {accepts : Token → Bool} {symbol : String} {place : Place} {w : Word}
    (spelled : Word.spelled? symbol = some w) (spells : ∀ t, accepts t = true → t.word = w) :
    Accounts cx allowed (require cx accepts symbol place) r fun _ ws _ => ws = [w] := by
  cases r with
  | nil => exact insert symbol place spelled (fun _ _ => by simp) (.pure (a := ()) rfl)
  | cons t ts =>
    cases accepting : accepts t with
    | true =>
      exact take (fun _ _ => by simp [require_cons_of_pos accepting])
        (.pure (a := ()) (by rw [spells t accepting]))
    | false =>
      exact insert symbol place spelled (fun _ _ => by simp [require_cons_of_neg accepting])
        (.pure (a := ()) rfl)

theorem requireDelimiter (symbol : String) {place : Place}
    (spelled : Word.spelled? symbol = some (.delimiter symbol)) :
    Accounts cx allowed (requireDelimiter cx symbol place) r fun _ ws _ =>
      ws = [.delimiter symbol] := by
  refine require spelled fun t accepted => ?_
  simp only [Token.isDelimiter, Bool.and_eq_true, decide_eq_true_eq] at accepted
  simp [Token.word, accepted, Word.delimiter]

theorem requireKeyword (word : String) {place : Place}
    (spelled : Word.spelled? word = some (.keyword word)) :
    Accounts cx allowed (requireKeyword cx word place) r fun _ ws _ => ws = [.keyword word] := by
  refine require spelled fun t accepted => ?_
  simp only [Token.isKeyword, Bool.and_eq_true, decide_eq_true_eq] at accepted
  simp [Token.word, accepted, Word.keyword]

/-! ### Loops -/

/-- A turn of a loop adds its words to those before it, of which the invariant `I` holds; a step that
declines has no words. -/
def Extends (I : α → List Word → Prop) (a : α) : Option α → List Word → Prop
  | some b, ws => ∀ before, I a before → I b (before ++ ws)
  | none, ws => ws = []

theorem iterate {step : α → Parser (Option α)} {I : α → List Word → Prop}
    (turn : ∀ a r, Accounts cx allowed (step a) r fun o ws _ => Extends I a o ws)
    (turns : Nat) (a : α) (r : List Token) :
    Accounts cx allowed (iterate step turns a) r fun b ws _ => Extends I a (some b) ws := by
  -- an account holds however many turns are left, so the bound of the loop plays no part
  induction turns generalizing a r with
  | zero =>
    refine .pure fun before holds => ?_
    rwa [List.append_nil]
  | succ turns ih =>
    refine (turn a r).bind fun o r' => ?_
    cases o with
    | none =>
      refine .pure ?_
      rintro _ rfl before holds
      rwa [List.append_nil, List.append_nil]
    | some b =>
      refine (ih b r').mono fun c ws r'' onwards ws' added before holds => ?_
      rw [← List.append_assoc]
      exact onwards _ (added before holds)

theorem repeatedly {step : α → Parser (Option α)} {I : α → List Word → Prop}
    (turn : ∀ a r, Accounts cx allowed (step a) r fun o ws _ => Extends I a o ws)
    (a : α) (r : List Token) :
    Accounts cx allowed (repeatedly step a) r fun b ws _ => Extends I a (some b) ws :=
  same (fun _ _ => rfl) (iterate turn r.length a r)

end Accounts

end Parser

end PlZero

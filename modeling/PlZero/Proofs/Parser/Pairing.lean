import Mathlib.Data.List.Forall2
import PlZero.Parser.Block
import PlZero.Proofs.Parser.Cut
import PlZero.Proofs.Views

/-! # Two runs side by side

A parser asks few questions about a token: of what kind it is, how it is spelled unless it is a name,
and whether a name is `else`.  Two inputs that agree in these answers, token by token, are read in the
same way, whatever else is different between them.  What the runs come to looks the same in two views,
one for each of them.

* `Token.Alike` says which tokens a parser takes for the same, and `Place.Alike` which places;
* a `Pairing` is a pair of inputs with the views, the relation between the logs, and the few facts about
  complaints and integers that depend on what the difference is;
* `Pairs m R p q r r'` is the judgement about two parsers at paired tokens, with one rule for each
  way in which parsers are put together.
-/

namespace PlZero

/-- Tokens that a parser takes for the same. -/
structure Token.Alike (v v' : View) (t t' : Token) : Prop where
  kind : t'.kind = t.kind
  lexeme : t.kind ≠ .identifier → t'.lexeme = t.lexeme
  name : t.kind = .identifier → v.name t.lexeme = v'.name t'.lexeme
  isElse : t'.isElse = t.isElse
  loc : v.loc t.loc = v'.loc t'.loc

namespace Token.Alike

variable {v v' : View} {t t' : Token}

theorem isKeyword (alike : Alike v v' t t') (word : String) : t'.isKeyword word = t.isKeyword word := by
  by_cases keyword : t.kind = .keyword
  · have same := alike.lexeme (by simp [keyword])
    simp [Token.isKeyword, alike.kind, same]
  · simp [Token.isKeyword, alike.kind, keyword]

theorem isOperator (alike : Alike v v' t t') (symbol : String) :
    t'.isOperator symbol = t.isOperator symbol := by
  by_cases operator : t.kind = .operator
  · have same := alike.lexeme (by simp [operator])
    simp [Token.isOperator, alike.kind, same]
  · simp [Token.isOperator, alike.kind, operator]

theorem isDelimiter (alike : Alike v v' t t') (symbol : String) :
    t'.isDelimiter symbol = t.isDelimiter symbol := by
  by_cases delimiter : t.kind = .delimiter
  · have same := alike.lexeme (by simp [delimiter])
    simp [Token.isDelimiter, alike.kind, same]
  · simp [Token.isDelimiter, alike.kind, delimiter]

theorem startsAssignment (alike : Alike v v' t t') :
    Parser.startsAssignment t' = Parser.startsAssignment t := by
  have word := alike.isElse
  by_cases identifier : t.kind = .identifier
  · simp only [Token.isElse, alike.kind, identifier, decide_true, Bool.true_and, decide_eq_decide] at word
    simp [Parser.startsAssignment, alike.kind, identifier, word]
  · simp [Parser.startsAssignment, alike.kind, identifier]

theorem startsStatement (alike : Alike v v' t t') :
    Parser.startsStatement t' = Parser.startsStatement t := by
  simp only [Parser.startsStatement, alike.startsAssignment, alike.isKeyword]

theorem followsStatement (alike : Alike v v' t t') :
    Parser.followsStatement t' = Parser.followsStatement t := by
  simp only [Parser.followsStatement, alike.isElse, alike.isDelimiter, alike.isKeyword]

theorem startsExpression (alike : Alike v v' t t') :
    Parser.startsExpression t' = Parser.startsExpression t := by
  simp only [Parser.startsExpression, alike.kind, alike.isDelimiter, alike.isOperator]

theorem isLandmark (alike : Alike v v' t t') : Parser.isLandmark t' = Parser.isLandmark t := by
  simp only [Parser.isLandmark, alike.kind, alike.isDelimiter]

theorem sign (alike : Alike v v' t t') : Sign.ofToken? t' = Sign.ofToken? t := by
  simp only [Sign.ofToken?, alike.isOperator]

theorem additive (alike : Alike v v' t t') : BinOp.additive? t' = BinOp.additive? t := by
  simp only [BinOp.additive?, alike.isOperator]

theorem multiplicative (alike : Alike v v' t t') : BinOp.multiplicative? t' = BinOp.multiplicative? t := by
  simp only [BinOp.multiplicative?, alike.isOperator]

theorem relation (alike : Alike v v' t t') : RelOp.ofToken? t' = RelOp.ofToken? t := by
  simp only [RelOp.ofToken?, alike.isOperator]

theorem sectionOf (alike : Alike v v' t t') : Section.ofToken? t' = Section.ofToken? t := by
  simp only [Section.ofToken?, alike.isKeyword]

end Token.Alike

/-- Places that differ at most in what a view changes. -/
inductive Place.Alike (v v' : View) : Place → Place → Prop
  | same (place : Place) : Place.notes place = [] → Alike v v' place place
  | afterConstantName {x y : String} : v.name x = v'.name y →
      Alike v v' (.afterConstantName x) (.afterConstantName y)
  | constantValue {x y : String} : v.name x = v'.name y → Alike v v' (.constantValue x) (.constantValue y)
  | assignment {x y : String} : v.name x = v'.name y → Alike v v' (.assignment x) (.assignment y)
  | after {e e' : Expr} : e.seen v = e'.seen v' → Alike v v' (.after e.written) (.after e'.written)
  | closing (opener : String) {l l' : Location} : v.loc l = v'.loc l' →
      Alike v v' (.closing opener l) (.closing opener l')

/-- Halts that differ at most in what a view changes. -/
inductive Halt.Alike (v v' : View) : Halt → Halt → Prop
  | malformed (wanted : Wanted) {l l' : Location} : Alike v v' (.malformed wanted l) (.malformed wanted l')
  | tooDeep (limit : Int) {l l' : Location} : v.loc l = v'.loc l' →
      Alike v v' (.tooDeep limit l) (.tooDeep limit l')

namespace Parser

/-- Two inputs that a parser reads in the same way. -/
structure Pairing where
  cx : Context
  cx' : Context
  view : View
  view' : View
  token : Token → Token → Prop
  logs : Log → Log → Prop
  nesting : cx'.limits.maxNesting = cx.limits.maxNesting
  endLoc : view.loc cx.endLoc = view'.loc cx'.endLoc
  alike {t t' : Token} : token t t' → t.Alike view view' t'
  integer {t t' : Token} {log log' : Log} : token t t' → t.kind = .integer → logs log log' →
    ∃ n n' after after', view.value n = view'.value n' ∧ logs after after' ∧ ∀ r r' depth depth',
      integerValue cx t ⟨r, depth, log⟩ = .ok n ⟨r, depth, after⟩ ∧
      integerValue cx' t' ⟨r', depth', log'⟩ = .ok n' ⟨r', depth', after'⟩
  missing {r r' : List Token} {log log' : Log} {place place' : Place} (wanted : Wanted)
    (recovery : Recovery) : List.Forall₂ token r r' → place.Alike view view' place' → logs log log' →
    logs (log.add (missingAt cx wanted place recovery r))
      (log'.add (missingAt cx' wanted place' recovery r'))
  misplaced {t t' : Token} {log log' : Log} (s last : Section) : token t t' →
    Section.ofToken? t = some s → logs log log' →
    logs (log.add (Complaint.misplacedSection s last t)) (log'.add (Complaint.misplacedSection s last t'))
  tooDeep {l l' : Location} {log log' : Log} (limit : Int) : view.loc l = view'.loc l' → logs log log' →
    logs (log.add (Complaint.tooDeep limit l)) (log'.add (Complaint.tooDeep limit l'))
  trailing {t t' : Token} {log log' : Log} : token t t' → logs log log' →
    logs (log.add (Complaint.trailing t)) (log'.add (Complaint.trailing t'))

variable {α β : Type} (m : Pairing)

theorem Pairing.front {m : Pairing} {r r' : List Token} (input : List.Forall₂ m.token r r') :
    m.view.loc (m.cx.front r) = m.view'.loc (m.cx'.front r') := by
  cases input with
  | nil => exact m.endLoc
  | cons pair _ => exact (m.alike pair).loc

/-- Each in its view, the two look the same. -/
abbrev Pairing.Looks (see : View → α → α) (a b : α) : Prop := see m.view a = see m.view' b

/-- Two results that look the same. -/
def Pairing.Same (R : α → α → Prop) :
    EStateM.Result Halt State α → EStateM.Result Halt State α → Prop
  | .ok a s, .ok b s' => R a b ∧ List.Forall₂ m.token s.rest s'.rest ∧ m.logs s.log s'.log
  | .error h s, .error h' s' =>
    h.Alike m.view m.view' h' ∧ List.Forall₂ m.token s.rest s'.rest ∧ m.logs s.log s'.log
  | _, _ => False

/-- Both runs give something, or both are halted. -/
theorem Pairing.Same.cases {m : Pairing} {R : α → α → Prop} {x y : EStateM.Result Halt State α}
    (same : m.Same R x y) :
    (∃ a s b s', x = .ok a s ∧ y = .ok b s' ∧ R a b ∧ List.Forall₂ m.token s.rest s'.rest ∧
      m.logs s.log s'.log) ∨
    ∃ h s h' s', x = .error h s ∧ y = .error h' s' ∧ h.Alike m.view m.view' h' ∧
      List.Forall₂ m.token s.rest s'.rest ∧ m.logs s.log s'.log := by
  cases x with
  | ok a s =>
    cases y with
    | ok b s' => exact .inl ⟨a, s, b, s', rfl, rfl, same⟩
    | error h' s' => exact same.elim
  | error h s =>
    cases y with
    | ok b s' => exact same.elim
    | error h' s' => exact .inr ⟨h, s, h', s', rfl, rfl, same⟩

/-- At the paired tokens `r` and `r'` the parsers `p` and `q` come to the same, and `R` holds of what
they give. -/
def Pairs (R : α → α → Prop) (p q : Parser α) (r r' : List Token) : Prop :=
  List.Forall₂ m.token r r' → ∀ depth depth' log log', m.logs log log' →
    m.Same R (p ⟨r, depth, log⟩) (q ⟨r', depth', log'⟩)

namespace Pairs

variable {m} {R : α → α → Prop} {p q p' q' : Parser α} {r r' ts ts' : List Token} {t t' : Token}

theorem same (run : ∀ depth log, p ⟨r, depth, log⟩ = p' ⟨r, depth, log⟩)
    (run' : ∀ depth log, q ⟨r', depth, log⟩ = q' ⟨r', depth, log⟩) (pairs : Pairs m R p' q' r r') :
    Pairs m R p q r r' := by
  intro input depth depth' log log' logged
  rw [run, run']
  exact pairs input depth depth' log log' logged

theorem take (run : ∀ depth log, p ⟨t :: ts, depth, log⟩ = p' ⟨ts, depth, log⟩)
    (run' : ∀ depth log, q ⟨t' :: ts', depth, log⟩ = q' ⟨ts', depth, log⟩)
    (pairs : m.token t t' → Pairs m R p' q' ts ts') : Pairs m R p q (t :: ts) (t' :: ts') := by
  intro input depth depth' log log' logged
  cases input with
  | cons pair behind =>
    rw [run, run']
    exact pairs pair behind depth depth' log log' logged

protected theorem pure {a b : α} (alike : R a b) : Pairs m R (pure a) (pure b) r r' := by
  intro input depth depth' log log' logged
  exact ⟨alike, input, logged⟩

theorem bind {S : β → β → Prop} {f g : α → Parser β} (first : Pairs m R p q r r')
    (second : ∀ a b r r', R a b → Pairs m S (f a) (g b) r r') :
    Pairs m S (p >>= f) (q >>= g) r r' := by
  intro input depth depth' log log' logged
  have ends := first input depth depth' log log' logged
  rw [bind_apply, bind_apply]
  obtain ⟨a, s, b, s', run, run', alike, left, grown⟩ | ⟨h, s, h', s', run, run', halted⟩ := ends.cases
  · rw [run, run']
    exact second a b s.rest s'.rest alike left s.depth s'.depth s.log s'.log grown
  · rw [run, run']
    exact halted

/-! ### Halts and levels -/

theorem tooDeep : Pairs m R (tooDeep m.cx) (tooDeep m.cx') r r' := by
  intro input depth depth' log log' logged
  rw [tooDeep_apply, tooDeep_apply, m.nesting]
  exact ⟨.tooDeep _ (m.front input), input, logged⟩

theorem deeper (pairs : Pairs m R p q r r') :
    Pairs m R (Parser.deeper p) (Parser.deeper q) r r' := by
  intro input depth depth' log log' logged
  have ends := pairs input (depth + 1) (depth' + 1) log log' logged
  rw [deeper_apply, deeper_apply]
  obtain ⟨a, s, b, s', run, run', given⟩ | ⟨h, s, h', s', run, run', halted⟩ := ends.cases
  · rw [run, run']
    exact given
  · rw [run, run']
    exact halted

theorem malformed (wanted : Wanted) {place place' : Place} (alike : place.Alike m.view m.view' place') :
    Pairs m R (malformed m.cx wanted place) (malformed m.cx' wanted place') r r' := by
  intro input depth depth' log log' logged
  rw [malformed_apply, malformed_apply]
  exact ⟨.malformed wanted, input, m.missing wanted .omitted input alike logged⟩

/-! ### Tokens and complaints -/

theorem ite {c : Prop} [Decidable c] (yes : c → Pairs m R p q r r') (no : ¬ c → Pairs m R p' q' r r') :
    Pairs m R (if c then p else p') (if c then q else q') r r' := by
  by_cases holds : c
  · rw [if_pos holds, if_pos holds]
    exact yes holds
  · rw [if_neg holds, if_neg holds]
    exact no holds

theorem peek_bind {f g : Option Token → Parser α} (nil : Pairs m R (f none) (g none) [] [])
    (cons : ∀ t t' ts ts', m.token t t' → Pairs m R (f (some t)) (g (some t')) (t :: ts) (t' :: ts')) :
    Pairs m R (peek >>= f) (peek >>= g) r r' := by
  intro input
  cases input with
  | nil => exact same (fun _ _ => by simp) (fun _ _ => by simp) nil .nil
  | cons pair behind =>
    exact same (fun _ _ => by simp) (fun _ _ => by simp) (cons _ _ _ _ pair) (.cons pair behind)

theorem here_bind {f g : Location → Parser α}
    (pairs : ∀ l l', m.view.loc l = m.view'.loc l' → Pairs m R (f l) (g l') r r') :
    Pairs m R (here m.cx >>= f) (here m.cx' >>= g) r r' := by
  intro input
  exact same (fun _ _ => by simp) (fun _ _ => by simp) (pairs _ _ (m.front input)) input

theorem advance_bind {f g : Unit → Parser α} (pairs : m.token t t' → Pairs m R (f ()) (g ()) ts ts') :
    Pairs m R (advance >>= f) (advance >>= g) (t :: ts) (t' :: ts') :=
  take (fun _ _ => by simp) (fun _ _ => by simp) pairs

theorem accept_bind {f g : Option Token → Parser α} {accepts : Token → Bool}
    (fair : ∀ {t t'}, t.Alike m.view m.view' t' → accepts t' = accepts t)
    (accepted : ∀ t t' ts ts', m.token t t' → accepts t = true →
      Pairs m R (f (some t)) (g (some t')) ts ts')
    (declined : Pairs m R (f none) (g none) r r') :
    Pairs m R (accept accepts >>= f) (accept accepts >>= g) r r' := by
  intro input
  cases input with
  | nil => exact same (fun _ _ => by simp) (fun _ _ => by simp) declined .nil
  | cons pair behind =>
    rename_i t t' ts ts'
    have answer := fair (m.alike pair)
    cases accepting : accepts t with
    | true =>
      rw [accepting] at answer
      exact take (fun _ _ => by simp [accept_cons_of_pos accepting])
        (fun _ _ => by simp [accept_cons_of_pos answer])
        (fun pair => accepted t t' ts ts' pair accepting) (.cons pair behind)
    | false =>
      rw [accepting] at answer
      exact same (fun _ _ => by simp [accept_cons_of_neg accepting])
        (fun _ _ => by simp [accept_cons_of_neg answer]) declined (.cons pair behind)

theorem acceptAs_bind {f g : Option (Token × β) → Parser α} {read : Token → Option β}
    (fair : ∀ {t t'}, t.Alike m.view m.view' t' → read t' = read t)
    (accepted : ∀ t t' b ts ts', m.token t t' → read t = some b →
      Pairs m R (f (some (t, b))) (g (some (t', b))) ts ts')
    (declined : Pairs m R (f none) (g none) r r') :
    Pairs m R (acceptAs read >>= f) (acceptAs read >>= g) r r' := by
  intro input
  cases input with
  | nil => exact same (fun _ _ => by simp) (fun _ _ => by simp) declined .nil
  | cons pair behind =>
    rename_i t t' ts ts'
    have answer := fair (m.alike pair)
    cases reading : read t with
    | some b =>
      rw [reading] at answer
      exact take (fun _ _ => by simp [acceptAs_cons_of_some reading])
        (fun _ _ => by simp [acceptAs_cons_of_some answer])
        (fun pair => accepted t t' b ts ts' pair reading) (.cons pair behind)
    | none =>
      rw [reading] at answer
      exact same (fun _ _ => by simp [acceptAs_cons_of_none reading])
        (fun _ _ => by simp [acceptAs_cons_of_none answer]) declined (.cons pair behind)

theorem advance : Pairs m (fun _ _ => True) advance advance r r' := by
  intro input depth depth' log log' logged
  cases input with
  | nil => exact ⟨trivial, .nil, logged⟩
  | cons pair behind => exact ⟨trivial, behind, logged⟩

theorem report (wanted : Wanted) {place place' : Place} (recovery : Recovery)
    (alike : place.Alike m.view m.view' place') :
    Pairs m (fun _ _ => True) (report m.cx wanted place recovery) (report m.cx' wanted place' recovery)
      r r' := by
  intro input depth depth' log log' logged
  rw [report_apply, report_apply]
  exact ⟨trivial, input, m.missing wanted recovery input alike logged⟩

/-- What is required is there in both runs or in neither. -/
theorem require {accepts : Token → Bool} {symbol : String} {place place' : Place}
    (fair : ∀ {t t'}, t.Alike m.view m.view' t' → accepts t' = accepts t)
    (alike : place.Alike m.view m.view' place') :
    Pairs m (fun _ _ => True) (require m.cx accepts symbol place)
      (require m.cx' accepts symbol place') r r' :=
  accept_bind fair (fun _ _ _ _ _ _ => .pure trivial) (report _ _ alike)

theorem requireDelimiter (symbol : String) {place place' : Place}
    (alike : place.Alike m.view m.view' place') :
    Pairs m (fun _ _ => True) (requireDelimiter m.cx symbol place)
      (requireDelimiter m.cx' symbol place') r r' :=
  require (fun tokens => tokens.isDelimiter symbol) alike

theorem requireKeyword (word : String) {place place' : Place}
    (alike : place.Alike m.view m.view' place') :
    Pairs m (fun _ _ => True) (requireKeyword m.cx word place) (requireKeyword m.cx' word place') r r' :=
  require (fun tokens => tokens.isKeyword word) alike

theorem integerValue_bind {f g : Quantity → Parser α} (pair : m.token t t') (integer : t.kind = .integer)
    (pairs : ∀ n n', m.view.value n = m.view'.value n' → Pairs m R (f n) (g n') r r') :
    Pairs m R (integerValue m.cx t >>= f) (integerValue m.cx' t' >>= g) r r' := by
  intro input depth depth' log log' logged
  obtain ⟨n, n', after, after', alike, grown, runs⟩ := m.integer pair integer logged
  rw [bind_apply, bind_apply, (runs r r' depth depth').1, (runs r r' depth depth').2]
  exact pairs n n' alike input depth depth' after after' grown

/-! ### Loops -/

theorem iterate {step step' : α → Parser (Option α)}
    (turn : ∀ a b r r', R a b → Pairs m (Option.Rel R) (step a) (step' b) r r') (turns : Nat)
    {a b : α} (alike : R a b) (r r' : List Token) :
    Pairs m R (iterate step turns a) (iterate step' turns b) r r' := by
  induction turns generalizing a b r r' with
  | zero => exact .pure alike
  | succ turns ih =>
    apply (turn a b r r' alike).bind
    intro o o' r r' given
    cases given with
    | none => exact .pure alike
    | some alike => exact ih alike r r'

/-- Paired tokens are equally many, so the two loops have the same number of turns. -/
theorem repeatedly {step step' : α → Parser (Option α)}
    (turn : ∀ a b r r', R a b → Pairs m (Option.Rel R) (step a) (step' b) r r')
    {a b : α} (alike : R a b) (r r' : List Token) :
    Pairs m R (repeatedly step a) (repeatedly step' b) r r' := by
  intro input
  have turns := iterate turn r.length alike r r'
  exact same (fun _ _ => rfl) (fun _ _ => by rw [input.length_eq]; rfl) turns input

end Pairs

end Parser

end PlZero

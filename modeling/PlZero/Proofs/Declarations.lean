import PlZero.Proofs.Complete.Block

/-! # A declaration that cannot be read hides no other

The declarations of a section stand between commas, and the last one before a semicolon.  A `Piece` is what
stands before one such delimiter, well formed or not.  One that is well formed adds its declaration; from
one that is not, the parser goes on to the delimiter behind it, wherever it was stopped (`Piece.Handled`).
So the pieces do not get in each other's way, and a section is read piece by piece.
-/

namespace PlZero

namespace Parser

variable {α : Type} {cx : Context} {limit : Int} {r ts tail : List Token} {t : Token} {depth : Nat}
  {log : Log}

/-! ## Pieces of a section -/

/-- Tokens that are meant as one declaration, and the comma or semicolon behind them. -/
structure Piece where
  chunk : List Token
  stop : Token
  inner : ∀ t ∈ chunk, t.kind ≠ .keyword ∧ t.isDelimiter "," = false ∧ t.isDelimiter ";" = false ∧
    t.isDelimiter "." = false
  closing : stop.isDelimiter "," = true ∨ stop.isDelimiter ";" = true

/-- The tokens of a piece. -/
def Piece.tokens (p : Piece) : List Token := p.chunk ++ [p.stop]

theorem Piece.flatMap_tokens_cons (p : Piece) (more : List Piece) (rest : List Token) :
    (p :: more).flatMap Piece.tokens ++ rest =
      p.chunk ++ p.stop :: (more.flatMap Piece.tokens ++ rest) := by
  simp [tokens]

/-- Every piece has a token at its end. -/
theorem Piece.length_le_flatMap_tokens (ps : List Piece) : ps.length ≤ (ps.flatMap Piece.tokens).length := by
  induction ps with
  | nil => exact Nat.le_refl 0
  | cons p ps ih =>
    simp only [List.flatMap_cons, tokens, List.length_append, List.length_cons]
    omega

theorem Piece.kind_stop (p : Piece) : p.stop.kind = .delimiter := by
  have closing := p.closing
  simp only [Token.isDelimiter, Bool.and_eq_true, decide_eq_true_eq] at closing
  exact closing.elim And.left And.left

/-- What is sought after a declaration that cannot be read is the end of its piece. -/
theorem Piece.dropWhile_isLandmark (p : Piece) {back : List Token} (inside : back ⊆ p.chunk)
    (tail : List Token) : (back ++ p.stop :: tail).dropWhile (!isLandmark ·) = p.stop :: tail := by
  have passed : ∀ t ∈ back, (!isLandmark t) = true := by
    intro t member
    obtain ⟨noKeyword, noComma, noSemicolon, noPeriod⟩ := p.inner t (inside member)
    simp [isLandmark, noKeyword, noComma, noSemicolon, noPeriod]
  have found : isLandmark p.stop = true := by
    rcases p.closing with comma | semicolon
    · simp [isLandmark, comma]
    · simp [isLandmark, semicolon]
  rw [List.dropWhile_append_of_pos passed, List.dropWhile_cons_of_neg (by simp [found])]

/-- Read as one declaration, the piece adds `added` with the complaints `report`, and the parser is
brought to its end. -/
def Piece.Handled (decl : Parser α) (p : Piece) (added : List α) (report : List Diagnostic) : Prop :=
  ∀ before tail depth log, declaration decl before ⟨p.chunk ++ p.stop :: tail, depth, log⟩ =
    .ok (before ++ added) ⟨p.stop :: tail, depth, ⟨log.entries ++ report⟩⟩

theorem Piece.handled_of_ok {decl : Parser α} {p : Piece} {d : α} {report : List Diagnostic}
    (run : ∀ tail depth log, decl ⟨p.chunk ++ p.stop :: tail, depth, log⟩ =
      .ok d ⟨p.stop :: tail, depth, ⟨log.entries ++ report⟩⟩) :
    p.Handled decl [d] report := by
  intro before tail depth log
  simp [declaration, catching, run]

/-- A complaint is about the first token only. -/
theorem missingAt_append (cx : Context) (wanted : Wanted) (place : Place) (recovery : Recovery)
    (nonempty : r ≠ []) (tail : List Token) :
    missingAt cx wanted place recovery (r ++ tail) = missingAt cx wanted place recovery r := by
  obtain ⟨t, ts, rfl⟩ := List.exists_cons_of_ne_nil nonempty
  rfl

/-- A declaration that cannot be read is left out, with all that is left of its piece. -/
theorem Piece.handled_of_malformed {decl : Parser α} {p : Piece} {front back : List Token}
    {report : List Diagnostic} {wanted : Wanted} {place : Place} (divided : p.chunk = front ++ back)
    (run : ∀ tail depth log, decl ⟨p.chunk ++ p.stop :: tail, depth, log⟩ =
      malformed cx wanted place ⟨back ++ p.stop :: tail, depth, ⟨log.entries ++ report⟩⟩) :
    p.Handled decl [] (report ++ [missingAt cx wanted place .omitted (back ++ [p.stop])]) := by
  intro before tail depth log
  have inside : back ⊆ p.chunk := by
    rw [divided]
    exact List.subset_append_right front back
  have omitted := missingAt_append cx wanted place .omitted (List.append_ne_nil_of_right_ne_nil back
    (List.cons_ne_nil p.stop [])) tail
  rw [List.append_assoc, List.singleton_append] at omitted
  simp [declaration, catching, run, p.dropWhile_isLandmark inside, omitted, Log.add]

/-! ## Sections of pieces -/

/-- The pieces of one section: a semicolon ends the last of them, and a comma every other one. -/
def Chained : Piece → List Piece → Prop
  | p, [] => p.stop.isDelimiter ";" = true
  | p, q :: more => p.stop.isDelimiter "," = true ∧ Chained q more

section Sections

variable {decl : Parser α} {added : Piece → List α} {report : Piece → List Diagnostic} {p q : Piece}
  {more : List Piece}

/-- A turn of the loop takes the comma at the end of one piece, and the next piece up to its end. -/
theorem nextDeclaration_piece (cx : Context) (handled : q.Handled decl (added q) (report q))
    (comma : t.isDelimiter "," = true) (between : Place) (before : List α) (tail : List Token)
    (depth : Nat) (log : Log) :
    nextDeclaration cx decl between before ⟨t :: (q.chunk ++ q.stop :: tail), depth, log⟩ =
      .ok (some (before ++ added q)) ⟨q.stop :: tail, depth, ⟨log.entries ++ report q⟩⟩ := by
  have accepted : accept (·.isDelimiter ",") ⟨t :: (q.chunk ++ q.stop :: tail), depth, log⟩ =
      .ok (some t) ⟨q.chunk ++ q.stop :: tail, depth, log⟩ := accept_cons_of_pos comma
  simp [nextDeclaration, accepted, handled before tail depth log]

/-- From the end of one piece on, the rest of a section is read piece by piece. -/
theorem closing_pieces (cx : Context) (chained : Chained p more)
    (handled : ∀ q ∈ more, q.Handled decl (added q) (report q)) (between behind : Place)
    (before : List α) (rest : List Token) (depth : Nat) (log : Log) {turns : Nat}
    (enough : more.length ≤ turns) :
    (do
      let all ← iterate (nextDeclaration cx decl between) turns before
      requireDelimiter cx ";" behind
      return all) ⟨p.stop :: (more.flatMap Piece.tokens ++ rest), depth, log⟩ =
      .ok (before ++ more.flatMap added)
        ⟨rest, depth, ⟨log.entries ++ more.flatMap report⟩⟩ := by
  induction more generalizing p before log turns with
  | nil =>
    have semicolon : p.stop.isDelimiter ";" = true := chained
    have declined : nextDeclaration cx decl between before ⟨p.stop :: rest, depth, log⟩ =
        .ok none ⟨p.stop :: rest, depth, log⟩ :=
      nextDeclaration_declined between semicolon before depth log
    have finished := iterate_of_declined declined turns
    have closed : require cx (·.isDelimiter ";") ";" behind ⟨p.stop :: rest, depth, log⟩ =
        .ok () ⟨rest, depth, log⟩ := require_cons_of_pos semicolon ";" behind
    simp [finished, requireDelimiter, closed]
  | cons q more ih =>
    rw [List.length_cons] at enough
    obtain ⟨turns, rfl⟩ : ∃ n, turns = n + 1 := ⟨turns - 1, by omega⟩
    obtain ⟨comma, chained⟩ := chained
    have turn := nextDeclaration_piece cx (handled q List.mem_cons_self) comma between before
      (more.flatMap Piece.tokens ++ rest) depth log
    have onwards := ih chained (fun q' member => handled q' (List.mem_cons_of_mem q member))
      (before ++ added q) ⟨log.entries ++ report q⟩ (Nat.le_of_succ_le_succ enough)
    simp only [bind_apply, List.append_assoc] at onwards
    rw [Piece.flatMap_tokens_cons]
    simp only [iterate, bind_apply, turn, List.flatMap_cons]
    exact onwards

/-- A section is read piece by piece. -/
theorem declarations_pieces (chained : Chained p more)
    (handled : ∀ q ∈ p :: more, q.Handled decl (added q) (report q)) (between behind : Place)
    (rest : List Token) (depth : Nat) (log : Log) :
    declarations cx decl between behind ⟨(p :: more).flatMap Piece.tokens ++ rest, depth, log⟩ =
      .ok ((p :: more).flatMap added)
        ⟨rest, depth, ⟨log.entries ++ (p :: more).flatMap report⟩⟩ := by
  have run := handled p List.mem_cons_self [] (more.flatMap Piece.tokens ++ rest) depth log
  have enough : more.length ≤ (p.stop :: (more.flatMap Piece.tokens ++ rest)).length := by
    have each := Piece.length_le_flatMap_tokens more
    rw [List.length_cons, List.length_append]
    omega
  have onwards := closing_pieces cx chained
    (fun q member => handled q (List.mem_cons_of_mem p member)) between behind (added p) rest depth
    ⟨log.entries ++ report p⟩ enough
  simp only [bind_apply, List.append_assoc] at onwards
  rw [Piece.flatMap_tokens_cons]
  simp only [declarations, bind_apply, run, repeatedly, List.flatMap_cons, List.nil_append]
  exact onwards

end Sections

/-! ## What becomes of a piece -/

/-- What a piece adds and what is reported about it.  If `declares` holds of its tokens, they declare what is
added (`Declares`); otherwise nothing is added, and there is one error about the omission, at the piece or
at its end.  All else that is reported is an error that `other` allows. -/
structure Piece.Settled (declares : List Token → Bool) (Declares : List Token → α → Prop)
    (other : List Token → Diagnostic → Prop) (p : Piece) (added : List α)
    (report : List Diagnostic) : Prop where
  kept : declares p.chunk = true → (∃ d, added = [d] ∧ Declares p.chunk d) ∧
    ∀ e ∈ report, e.recovery ≠ some .omitted
  omitted : declares p.chunk = false → added = [] ∧
    ∃ e, report.filter (fun e => e.recovery = some .omitted) = [e] ∧ ∃ t ∈ p.tokens, e.loc = some t.loc
  errors : ∀ e ∈ report, e.isError = true ∧ (e.recovery = some .omitted ∨ other p.chunk e)

/-- The piece is a declaration or does not start with one, as far as the first `size` tokens go. -/
def Piece.Clear (declares : List Token → Bool) (size : Nat) (p : Piece) : Prop :=
  declares p.chunk = true ∨ declares (p.chunk.take size) = false

section Settled

variable {declares : List Token → Bool} {Declares : List Token → α → Prop}
  {other : List Token → Diagnostic → Prop} {p : Piece} {report : List Diagnostic}

theorem Piece.settled_of_kept {d : α} (wellFormed : declares p.chunk = true) (declared : Declares p.chunk d)
    (others : ∀ e ∈ report, e.isError = true ∧ e.recovery ≠ some .omitted ∧ other p.chunk e) :
    p.Settled declares Declares other [d] report where
  kept _ := ⟨⟨d, rfl, declared⟩, fun e member => (others e member).2.1⟩
  omitted malformed := by simp [wellFormed] at malformed
  errors e member := ⟨(others e member).1, .inr (others e member).2.2⟩

theorem Piece.settled_of_omitted {front back : List Token} (malformed : declares p.chunk = false)
    (divided : p.chunk = front ++ back)
    (others : ∀ e ∈ report, e.isError = true ∧ e.recovery ≠ some .omitted ∧ other p.chunk e)
    (wanted : Wanted) (place : Place) :
    p.Settled declares Declares other []
      (report ++ [missingAt cx wanted place .omitted (back ++ [p.stop])]) where
  kept wellFormed := by simp [malformed] at wellFormed
  omitted _ := by
    refine ⟨rfl, missingAt cx wanted place .omitted (back ++ [p.stop]), ?_, ?_⟩
    · have none : report.filter (fun e => e.recovery = some .omitted) = [] := by
        rw [List.filter_eq_nil_iff]
        intro e member
        simpa using (others e member).2.1
      rw [List.filter_append, none]
      rfl
    · obtain ⟨t, ts, first⟩ := List.exists_cons_of_ne_nil (List.append_ne_nil_of_right_ne_nil back
        (List.cons_ne_nil p.stop []))
      refine ⟨t, ?_, by rw [first]; rfl⟩
      rw [tokens, divided, List.append_assoc, first]
      exact List.mem_append_right front List.mem_cons_self
  errors e member := by
    rcases List.mem_append.mp member with before | last
    · exact ⟨(others e before).1, .inr (others e before).2.2⟩
    · rw [List.mem_singleton.mp last]
      exact ⟨rfl, .inl rfl⟩

/-- What a piece does not have next is not there at its end either, if no delimiter is like that. -/
theorem Piece.forall_head?_append_stop (p : Piece) {P : Token → Prop} {back : List Token}
    (first : ∀ t ∈ back.head?, P t) (ended : ∀ t : Token, t.kind = .delimiter → P t) (tail : List Token) :
    ∀ t ∈ (back ++ p.stop :: tail).head?, P t := by
  cases back with
  | nil =>
    rintro _ ⟨⟩
    exact ended p.stop p.kind_stop
  | cons t ts => exact first

/-- The parser gives the piece up at some point, and has reported before what `other` allows. -/
def Piece.GivenUp (cx : Context) (decl : Parser α) (other : List Token → Diagnostic → Prop)
    (p : Piece) : Prop :=
  ∃ front back report wanted place, p.chunk = front ++ back ∧
    (∀ e ∈ report, e.isError = true ∧ e.recovery ≠ some .omitted ∧ other p.chunk e) ∧
    ∀ tail depth log, decl ⟨p.chunk ++ p.stop :: tail, depth, log⟩ =
      malformed cx wanted place ⟨back ++ p.stop :: tail, depth, ⟨log.entries ++ report⟩⟩

theorem Piece.GivenUp.settled {decl : Parser α} (givenUp : p.GivenUp cx decl other)
    (malformed : declares p.chunk = false) :
    ∃ added report, p.Handled decl added report ∧ p.Settled declares Declares other added report := by
  obtain ⟨front, back, report, wanted, place, divided, others, run⟩ := givenUp
  exact ⟨[], _, Piece.handled_of_malformed divided run,
    Piece.settled_of_omitted malformed divided others wanted place⟩

/-- Tokens whose beginning is no declaration are none as a whole. -/
theorem declares_eq_false {size : Nat} {chunk : List Token}
    (sized : ∀ chunk, declares chunk = true → chunk.length = size)
    (malformed : declares (chunk.take size) = false) : declares chunk = false := by
  by_contra holds
  rw [Bool.not_eq_false] at holds
  rw [← sized chunk holds, List.take_length, holds] at malformed
  cases malformed

end Settled

/-! ## Constants -/

/-- Whether tokens are a name, an equals sign or an assignment sign, and a number. -/
def declaresConstant : List Token → Bool
  | [name, sign, number] => name.kind = .identifier &&
    (sign.isOperator "=" || sign.isOperator ":=") && number.kind = .integer
  | _ => false

/-- The tokens declare the constant `d`, whose value is that of the number or the limit. -/
def DeclaresConstant (limit : Int) (chunk : List Token) (d : ConstDecl) : Prop :=
  ∃ name sign number n, chunk = [name, sign, number] ∧ number.value = .ok (.number n) ∧
    d = ⟨name.lexeme, .number (min n limit), name.loc⟩

/-- The diagnostic is about an assignment sign in place of an equals sign, or about a number beyond the
limit. -/
def AboutConstant (limit : Int) (chunk : List Token) (e : Diagnostic) : Prop :=
  (e.recovery = some .substituted ∧ ∃ t ∈ chunk, t.isOperator ":=" = true ∧ e.loc = some t.loc) ∨
  (e.recovery = some .saturated ∧ ∃ t ∈ chunk, t.kind = .integer ∧ e.loc = some t.loc ∧
    ∃ n, t.value = .ok (.number n) ∧ limit < n)

theorem declaresConstant_iff {chunk : List Token} : declaresConstant chunk = true ↔
    ∃ name sign number, chunk = [name, sign, number] ∧ name.kind = .identifier ∧
      (sign.isOperator "=" = true ∨ sign.isOperator ":=" = true) ∧ number.kind = .integer := by
  constructor
  · intro holds
    unfold declaresConstant at holds
    split at holds
    · rename_i name sign number
      exact ⟨name, sign, number, rfl, by simpa [and_assoc] using holds⟩
    · cases holds
  · rintro ⟨name, sign, number, rfl, holds⟩
    simpa [declaresConstant, and_assoc] using holds

/-- The complaint about an assignment sign behind the name of a constant. -/
def signReport (cx : Context) (name : String) (sign : Token) : List Diagnostic :=
  if sign.isOperator ":=" then
    [missingAt cx (.symbol "=") (.afterConstantName name) .substituted [sign]]
  else []

theorem aboutConstant_signReport {chunk : List Token} {sign : Token} (inside : sign ∈ chunk)
    (name : String) : ∀ e ∈ signReport cx name sign,
      e.isError = true ∧ e.recovery ≠ some .omitted ∧ AboutConstant limit chunk e := by
  intro e member
  unfold signReport at member
  split at member
  · rw [List.mem_singleton.mp member]
    exact ⟨rfl, nofun, .inl ⟨rfl, sign, inside, ‹_›, rfl⟩⟩
  · cases member

theorem aboutConstant_excess {chunk : List Token} {number : Token} {n : Nat} (inside : number ∈ chunk)
    (integer : number.kind = .integer) (value : number.value = .ok (.number n)) :
    ∀ e ∈ excess limit number n,
      e.isError = true ∧ e.recovery ≠ some .omitted ∧ AboutConstant limit chunk e := by
  intro e member
  unfold excess at member
  split at member
  · cases member
  · rw [List.mem_singleton.mp member]
    exact ⟨rfl, nofun, .inr ⟨rfl, number, inside, integer, rfl, n, value, by omega⟩⟩

theorem accept_of_declined {accepts : Token → Bool} (declined : ∀ t ∈ r.head?, accepts t = false)
    (depth : Nat) (log : Log) :
    accept accepts ⟨r, depth, log⟩ = .ok none ⟨r, depth, log⟩ := by
  cases r with
  | nil => rfl
  | cons t ts => exact accept_cons_of_neg (declined t rfl)

theorem constSign_apply {sign : Token}
    (signed : sign.isOperator "=" = true ∨ sign.isOperator ":=" = true) (name : String) :
    constSign cx name ⟨sign :: ts, depth, log⟩ =
      .ok () ⟨ts, depth, ⟨log.entries ++ signReport cx name sign⟩⟩ := by
  by_cases assigns : sign.isOperator ":=" = true
  · have other : sign.isOperator "=" = false := by grind [Token.isOperator]
    simp [constSign, accept, other, assigns, signReport, Log.add]
    rfl
  · have equals := signed.resolve_right assigns
    simp [constSign, accept, equals, signReport, assigns]

theorem constSign_of_missing (name : String)
    (missing : ∀ t ∈ r.head?, t.isOperator "=" = false ∧ t.isOperator ":=" = false) :
    constSign cx name ⟨r, depth, log⟩ =
      malformed cx (.symbol "=") (.afterConstantName name) ⟨r, depth, log⟩ := by
  have declined := accept_of_declined (fun t first => (missing t first).1) depth log
  cases r with
  | nil => simp [constSign, declined]
  | cons t ts => simp [constSign, declined, (missing t rfl).2]

theorem constDecl_apply (limited : cx.limits.maxInteger = .number limit) {name sign number : Token} {n : Nat}
    (identifier : name.kind = .identifier)
    (signed : sign.isOperator "=" = true ∨ sign.isOperator ":=" = true)
    (integer : number.kind = .integer) (text : Text.stripZeros number.lexeme = n.repr) :
    constDecl cx ⟨name :: sign :: number :: tail, depth, log⟩ =
      .ok ⟨name.lexeme, .number (min n limit), name.loc⟩
        ⟨tail, depth, ⟨log.entries ++ (signReport cx name.lexeme sign ++ excess limit number n)⟩⟩ := by
  simp [constDecl, accept, identifier, constSign_apply signed, integer, integerValue_apply limited text]

theorem constDecl_of_noName (missing : ∀ t ∈ r.head?, t.kind ≠ .identifier) :
    constDecl cx ⟨r, depth, log⟩ = malformed cx .identifier .inConstant ⟨r, depth, log⟩ := by
  have noName : ∀ t ∈ r.head?, decide (t.kind = .identifier) = false := by simpa using missing
  have declined := accept_of_declined noName depth log
  simp [constDecl, declined]

theorem constDecl_of_noSign {name : Token} (identifier : name.kind = .identifier)
    (missing : ∀ t ∈ r.head?, t.isOperator "=" = false ∧ t.isOperator ":=" = false) :
    constDecl cx ⟨name :: r, depth, log⟩ =
      malformed cx (.symbol "=") (.afterConstantName name.lexeme) ⟨r, depth, log⟩ := by
  simp [constDecl, accept, identifier, constSign_of_missing name.lexeme missing]

theorem constDecl_of_noNumber {name sign : Token} (identifier : name.kind = .identifier)
    (signed : sign.isOperator "=" = true ∨ sign.isOperator ":=" = true)
    (missing : ∀ t ∈ r.head?, t.kind ≠ .integer) :
    constDecl cx ⟨name :: sign :: r, depth, log⟩ =
      malformed cx .number (.constantValue name.lexeme)
        ⟨r, depth, ⟨log.entries ++ signReport cx name.lexeme sign⟩⟩ := by
  have noNumber : ∀ t ∈ r.head?, decide (t.kind = .integer) = false := by simpa using missing
  have declined := accept_of_declined noNumber depth ⟨log.entries ++ signReport cx name.lexeme sign⟩
  have named : accept (·.kind = .identifier) ⟨name :: sign :: r, depth, log⟩ =
      .ok (some name) ⟨sign :: r, depth, log⟩ := accept_cons_of_pos (by simpa using identifier)
  simp [constDecl, named, constSign_apply signed, declined]

/-- A piece that does not start as a constant is given up at its name, its sign or its number, the first
of these that is not there. -/
theorem constDecl_givenUp {p : Piece} (malformed : declaresConstant (p.chunk.take 3) = false) :
    p.GivenUp cx (constDecl cx) (AboutConstant limit) := by
  by_cases named : ∃ name ts, p.chunk = name :: ts ∧ name.kind = .identifier
  · obtain ⟨name, ts, chunk, identifier⟩ := named
    by_cases signs : ∃ sign us, ts = sign :: us ∧
        (sign.isOperator "=" = true ∨ sign.isOperator ":=" = true)
    · obtain ⟨sign, us, rfl, signed⟩ := signs
      have noNumber : ∀ t ∈ us.head?, t.kind ≠ .integer := by
        intro t first integer
        obtain ⟨us, rfl⟩ := List.head?_eq_some_iff.mp first
        have wellFormed := declaresConstant_iff.mpr ⟨name, sign, t, rfl, identifier, signed, integer⟩
        rw [chunk] at malformed
        exact absurd wellFormed (by simpa using malformed)
      refine ⟨[name, sign], us, signReport cx name.lexeme sign, .number, .constantValue name.lexeme, chunk,
        aboutConstant_signReport (by simp [chunk]) name.lexeme, fun tail depth log => ?_⟩
      rw [chunk]
      exact constDecl_of_noNumber identifier signed
        (p.forall_head?_append_stop noNumber (by simp +contextual) tail)
    · have noSign : ∀ t ∈ ts.head?, t.isOperator "=" = false ∧ t.isOperator ":=" = false := by
        intro t first
        obtain ⟨us, rfl⟩ := List.head?_eq_some_iff.mp first
        simpa using fun signed => signs ⟨t, us, rfl, signed⟩
      refine ⟨[name], ts, [], .symbol "=", .afterConstantName name.lexeme, chunk, by simp,
        fun tail depth log => ?_⟩
      rw [chunk, List.append_nil]
      exact constDecl_of_noSign identifier
        (p.forall_head?_append_stop noSign (by simp +contextual [Token.isOperator]) tail)
  · have noName : ∀ t ∈ p.chunk.head?, t.kind ≠ .identifier := by
      intro t first identifier
      obtain ⟨ts, chunk⟩ := List.head?_eq_some_iff.mp first
      exact named ⟨t, ts, chunk, identifier⟩
    refine ⟨[], p.chunk, [], .identifier, .inConstant, rfl, by simp, fun tail depth log => ?_⟩
    rw [List.append_nil]
    exact constDecl_of_noName (p.forall_head?_append_stop noName (by simp +contextual) tail)

theorem length_of_declaresConstant (chunk : List Token) (declares : declaresConstant chunk = true) :
    chunk.length = 3 := by
  obtain ⟨name, sign, number, rfl, -⟩ := declaresConstant_iff.mp declares
  rfl

theorem constDecl_settled (cx : Context) (limited : cx.limits.maxInteger = .number limit) {p : Piece}
    (readable : ∀ t ∈ p.chunk, t.Readable) (clear : p.Clear declaresConstant 3) :
    ∃ added report, p.Handled (constDecl cx) added report ∧
      p.Settled declaresConstant (DeclaresConstant limit) (AboutConstant limit) added report := by
  rcases clear with wellFormed | malformed
  · obtain ⟨name, sign, number, chunk, identifier, signed, integer⟩ := declaresConstant_iff.mp wellFormed
    obtain ⟨n, value, text⟩ := (readable number (by simp [chunk])).value_eq integer
    have declared : DeclaresConstant limit p.chunk ⟨name.lexeme, .number (min n limit), name.loc⟩ :=
      ⟨name, sign, number, n, chunk, value, rfl⟩
    refine ⟨_, signReport cx name.lexeme sign ++ excess limit number n,
      Piece.handled_of_ok fun tail depth log => ?_, Piece.settled_of_kept wellFormed declared
        (List.forall_mem_append.mpr ⟨?_, ?_⟩)⟩
    · rw [chunk]
      exact constDecl_apply limited identifier signed integer text
    · exact aboutConstant_signReport (by simp [chunk]) name.lexeme
    · exact aboutConstant_excess (by simp [chunk]) integer value
  · exact (constDecl_givenUp malformed).settled
      (declares_eq_false length_of_declaresConstant malformed)

/-! ## Variables -/

/-- Whether tokens are a name. -/
def declaresVariable : List Token → Bool
  | [name] => name.kind = .identifier
  | _ => false

/-- The tokens declare the variable `d`. -/
def DeclaresVariable (chunk : List Token) (d : VarDecl) : Prop :=
  ∃ name, chunk = [name] ∧ d = ⟨name.lexeme, name.loc⟩

theorem declaresVariable_iff {chunk : List Token} : declaresVariable chunk = true ↔
    ∃ name, chunk = [name] ∧ name.kind = .identifier := by
  constructor
  · intro holds
    unfold declaresVariable at holds
    split at holds
    · rename_i name
      exact ⟨name, rfl, by simpa using holds⟩
    · cases holds
  · rintro ⟨name, rfl, holds⟩
    simpa [declaresVariable] using holds

theorem length_of_declaresVariable (chunk : List Token) (declares : declaresVariable chunk = true) :
    chunk.length = 1 := by
  obtain ⟨name, rfl, -⟩ := declaresVariable_iff.mp declares
  rfl

theorem varDecl_apply {name : Token} (identifier : name.kind = .identifier) :
    varDecl cx ⟨name :: tail, depth, log⟩ = .ok ⟨name.lexeme, name.loc⟩ ⟨tail, depth, log⟩ := by
  simp [varDecl, accept, identifier]

theorem varDecl_of_noName (missing : ∀ t ∈ r.head?, t.kind ≠ .identifier) :
    varDecl cx ⟨r, depth, log⟩ = malformed cx .identifier .inVariable ⟨r, depth, log⟩ := by
  have noName : ∀ t ∈ r.head?, decide (t.kind = .identifier) = false := by simpa using missing
  have declined := accept_of_declined noName depth log
  simp [varDecl, declined]

/-- A piece that does not start with a name is given up where it starts. -/
theorem varDecl_givenUp {p : Piece} (malformed : declaresVariable (p.chunk.take 1) = false) :
    p.GivenUp cx (varDecl cx) fun _ _ => False := by
  have noName : ∀ t ∈ p.chunk.head?, t.kind ≠ .identifier := by
    intro t first identifier
    obtain ⟨ts, chunk⟩ := List.head?_eq_some_iff.mp first
    have wellFormed := declaresVariable_iff.mpr ⟨t, rfl, identifier⟩
    rw [chunk] at malformed
    exact absurd wellFormed (by simpa using malformed)
  refine ⟨[], p.chunk, [], .identifier, .inVariable, rfl, by simp, fun tail depth log => ?_⟩
  rw [List.append_nil]
  exact varDecl_of_noName (p.forall_head?_append_stop noName (by simp +contextual) tail)

theorem varDecl_settled (cx : Context) {p : Piece} (clear : p.Clear declaresVariable 1) :
    ∃ added report, p.Handled (varDecl cx) added report ∧
      p.Settled declaresVariable DeclaresVariable (fun _ _ => False) added report := by
  rcases clear with wellFormed | malformed
  · obtain ⟨name, chunk, identifier⟩ := declaresVariable_iff.mp wellFormed
    have declared : DeclaresVariable p.chunk ⟨name.lexeme, name.loc⟩ := ⟨name, chunk, rfl⟩
    refine ⟨_, [], Piece.handled_of_ok fun tail depth log => ?_,
      Piece.settled_of_kept wellFormed declared (by simp)⟩
    rw [chunk, List.append_nil]
    exact varDecl_apply identifier
  · exact (varDecl_givenUp malformed).settled
      (declares_eq_false length_of_declaresVariable malformed)

/-! ## Whole sections -/

/-- A section of pieces each of which is a declaration or does not start with one.  It adds what the pieces
that are declarations declare, it is left behind its semicolon, and about each other piece there is one
error, that it was left out.  All other errors are about an assignment sign or a number beyond the limit in
a declaration of a constant. -/
theorem section_settled (limit nesting : Int) (endLoc : Location) (p : Piece) (more : List Piece)
    (chained : Chained p more) (rest : List Token) (depth : Nat) (log : Log) :
    ((∀ q ∈ p :: more, (∀ t ∈ q.chunk, t.Readable) ∧ q.Clear declaresConstant 3) →
      ∃ (added : Piece → List ConstDecl) (report : Piece → List Diagnostic),
        constSection ⟨⟨.number limit, nesting⟩, endLoc⟩
            ⟨(p :: more).flatMap Piece.tokens ++ rest, depth, log⟩ =
          .ok ((p :: more).flatMap added)
            ⟨rest, depth, ⟨log.entries ++ (p :: more).flatMap report⟩⟩ ∧
        ∀ q ∈ p :: more, q.Settled declaresConstant (DeclaresConstant limit) (AboutConstant limit)
          (added q) (report q)) ∧
    ((∀ q ∈ p :: more, q.Clear declaresVariable 1) →
      ∃ (added : Piece → List VarDecl) (report : Piece → List Diagnostic),
        varSection ⟨⟨.number limit, nesting⟩, endLoc⟩
            ⟨(p :: more).flatMap Piece.tokens ++ rest, depth, log⟩ =
          .ok ((p :: more).flatMap added)
            ⟨rest, depth, ⟨log.entries ++ (p :: more).flatMap report⟩⟩ ∧
        ∀ q ∈ p :: more, q.Settled declaresVariable DeclaresVariable (fun _ _ => False)
          (added q) (report q)) := by
  constructor
  · intro clear
    choose! added report handled settled using fun q member =>
      constDecl_settled ⟨⟨.number limit, nesting⟩, endLoc⟩ rfl (clear q member).1
        (clear q member).2
    exact ⟨added, report, declarations_pieces chained handled _ _ rest depth log, settled⟩
  · intro clear
    choose! added report handled settled using fun q member =>
      varDecl_settled ⟨⟨.number limit, nesting⟩, endLoc⟩ (clear q member)
    exact ⟨added, report, declarations_pieces chained handled _ _ rest depth log, settled⟩

/-- Nothing, `a := 99` and `b 2` as constants, of which only `a` is kept, as the limit; and `x`, a number
and `y` as variables. -/
theorem section_settled_around_gaps :
    let comma : Token := ⟨.delimiter, ",", .nowhere⟩
    let semicolon : Token := ⟨.delimiter, ";", .nowhere⟩
    let gap : Piece := ⟨[], comma, by simp, by decide⟩
    let a : Piece := ⟨[⟨.identifier, "a", .nowhere⟩, ⟨.operator, ":=", .nowhere⟩,
      ⟨.integer, "99", .nowhere⟩], comma, by decide, by decide⟩
    let b : Piece := ⟨[⟨.identifier, "b", .nowhere⟩, ⟨.integer, "2", .nowhere⟩], semicolon, by decide,
      by decide⟩
    let x : Piece := ⟨[⟨.identifier, "x", .nowhere⟩], comma, by decide, by decide⟩
    let number : Piece := ⟨[⟨.integer, "2", .nowhere⟩], comma, by decide, by decide⟩
    let y : Piece := ⟨[⟨.identifier, "y", .nowhere⟩], semicolon, by decide, by decide⟩
    Chained gap [a, b] ∧ Chained x [number, y] ∧
    (∃ (added : Piece → List ConstDecl) (report : Piece → List Diagnostic),
      constSection ⟨⟨.number 7, 3⟩, .nowhere⟩ ⟨[gap, a, b].flatMap Piece.tokens ++ [semicolon], 0, {}⟩ =
        .ok ([gap, a, b].flatMap added) ⟨[semicolon], 0, ⟨[] ++ [gap, a, b].flatMap report⟩⟩ ∧
      ∀ q ∈ [gap, a, b], q.Settled declaresConstant (DeclaresConstant 7) (AboutConstant 7) (added q)
        (report q)) ∧
    ∃ (added : Piece → List VarDecl) (report : Piece → List Diagnostic),
      varSection ⟨⟨.number 7, 3⟩, .nowhere⟩ ⟨[x, number, y].flatMap Piece.tokens ++ [], 0, {}⟩ =
        .ok ([x, number, y].flatMap added) ⟨[], 0, ⟨[] ++ [x, number, y].flatMap report⟩⟩ ∧
      ∀ q ∈ [x, number, y], q.Settled declaresVariable DeclaresVariable (fun _ _ => False) (added q)
        (report q) := by
  intro comma semicolon gap a b x number y
  have constants : Chained gap [a, b] := ⟨rfl, rfl, rfl⟩
  have names : Chained x [number, y] := ⟨rfl, rfl, rfl⟩
  refine ⟨constants, names, (section_settled 7 3 .nowhere gap [a, b] constants [semicolon] 0 {}).1 ?_,
    (section_settled 7 3 .nowhere x [number, y] names [] 0 {}).2 ?_⟩
  · simp [gap, a, b, Piece.Clear, Token.Readable, Text.IsDigits, Text.isDigit, declaresConstant,
      Token.isOperator]
  · simp [x, number, y, Piece.Clear, declaresVariable]

end Parser

end PlZero

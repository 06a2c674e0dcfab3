import Mathlib.Data.List.Basic
import PlZero.Proofs.Declarations
import PlZero.Proofs.Literals
import PlZero.Proofs.Steady.Productions

/-! # Sections in any order

The sections of a block are taken in any order and number, and no declaration is lost.  All that the parser
remembers of the order is the latest section so far (`Latest`), and that is enough to tell which sections
are out of place.

A `Portion` is one section as it is written.  Whether a procedure is well formed is asked of its block alone,
read before its semicolon and nothing else (`Quiet`); productions are steady, so what is read without a
complaint there is read in the same way within any other block.
-/

namespace PlZero

theorem Section.rank_injective {s s' : Section} (same : s.rank = s'.rank) : s = s' := by
  cases s <;> cases s' <;> first | rfl | cases same

namespace Parser

variable {α : Type} {cx : Context} {room : Nat}

/-! ## Reading without a complaint -/

/-- Before the token `stop` the tokens are read as `a`, with no complaint and up to the stop. -/
def Quiet (p : Parser α) (ts : List Token) (stop : Token) (a : α) : Prop :=
  p ⟨ts ++ [stop], 0, {}⟩ = .ok a ⟨[stop], 0, {}⟩

/-- What is read without a complaint is read so anywhere. -/
theorem Quiet.apply {p : Parser α} {ts : List Token} {stop : Token} {a : α} (quiet : Quiet p ts stop a)
    (steady : Shortsighted p) (tail : List Token) (depth : Nat) (log : Log) :
    p ⟨ts ++ stop :: tail, depth, log⟩ = .ok a ⟨stop :: tail, depth, log⟩ := by
  obtain ⟨-, o, r', ds, -, -, runs⟩ := steady (ts ++ [stop])
  -- with nothing behind the stop, the run is known to leave the stop and to report nothing
  have alone := runs [] (fun _ => rfl) 0 {}
  rw [List.append_nil, List.append_nil, quiet] at alone
  cases o with
  | error h => cases alone
  | ok a' =>
    obtain ⟨rfl, same⟩ := EStateM.Result.ok.inj alone
    obtain ⟨rfl, -, silent⟩ := State.mk.inj same
    obtain rfl : [] = ds := by simpa using silent
    -- the stop hides the tail, so this is the same run
    have run := runs tail nofun depth log
    rw [List.append_assoc, List.append_nil] at run
    exact run

/-- A statement that is read without a complaint starts with no keyword of a section. -/
theorem Quiet.noSection {body : List Token} {follow : Token} {s : Stmt}
    (quiet : Quiet (statement cx room) body follow s) (rest : List Token) :
    ∀ t ∈ (body ++ follow :: rest).head?, Section.ofToken? t = none := by
  intro t first
  have first' : (body ++ [follow]).head? = some t := by
    cases body with
    | nil | cons => exact first
  obtain ⟨ts, split⟩ := List.head?_eq_some_iff.mp first'
  cases reading : Section.ofToken? t with
  | none => rfl
  | some kind =>
    rw [Quiet, split] at quiet
    obtain ⟨keyword, word⟩ := Token.isKeyword_iff.mp (Section.ofToken?_eq_some_iff.mp reading)
    cases room with
    | zero => cases quiet
    | succ room =>
      -- such a keyword neither starts nor follows a statement, so it would be skipped with a complaint
      cases kind <;>
        simp [statement, deeper_apply, statementBody, startsAssignment, followsStatement, Token.isElse,
          Token.isKeyword, Token.isDelimiter, keyword, word, Section.word, leave, Log.add] at quiet

/-! ## Sections as they are written -/

/-- The constant that a piece of three tokens declares. -/
def Piece.consts (p : Piece) : List ConstDecl :=
  match p.chunk with
  | [name, _, number] => [⟨name.lexeme, .number (Text.decimal number.lexeme), name.loc⟩]
  | _ => []

/-- The variables that the tokens of a piece are. -/
def Piece.vars (p : Piece) : List VarDecl := p.chunk.map fun name => ⟨name.lexeme, name.loc⟩

/-- The piece is a name, an equals sign and a number that is not beyond the limit. -/
def Piece.IsConstant (limit : Quantity) (p : Piece) : Prop :=
  ∃ name sign number, p.chunk = [name, sign, number] ∧ name.kind = .identifier ∧
    sign.isOperator "=" = true ∧ number.kind = .integer ∧ Text.IsDigits number.lexeme ∧
    ∃ most : Int, limit = .number most ∧ Text.decimal number.lexeme ≤ most

/-- One section of a block as it is written.  A procedure is a section by itself. -/
inductive Portion
  | const (keyword : Token) (first : Piece) (more : List Piece)
  | var (keyword : Token) (first : Piece) (more : List Piece)
  /-- Between its two semicolons a procedure has the tokens `inside`, which stand for the block. -/
  | procedure (keyword name semicolon : Token) (inside : List Token) (closing : Token) (block : Block)

namespace Portion

def kind : Portion → Section
  | const _ _ _ => .const
  | var _ _ _ => .var
  | procedure _ _ _ _ _ _ => .procedure

def keyword : Portion → Token
  | const keyword _ _ => keyword
  | var keyword _ _ => keyword
  | procedure keyword _ _ _ _ _ => keyword

def tokens : Portion → List Token
  | const keyword first more => keyword :: (first :: more).flatMap Piece.tokens
  | var keyword first more => keyword :: (first :: more).flatMap Piece.tokens
  | procedure keyword name semicolon inside closing _ =>
    keyword :: name :: semicolon :: (inside ++ [closing])

def consts : Portion → List ConstDecl
  | const _ first more => (first :: more).flatMap Piece.consts
  | _ => []

def vars : Portion → List VarDecl
  | var _ first more => (first :: more).flatMap Piece.vars
  | _ => []

def procedures : Portion → List Procedure
  | procedure keyword name _ _ _ b => [⟨name.lexeme, b, keyword.loc⟩]
  | _ => []

/-- By itself there is nothing to complain about in the section.  The block of a procedure has `room` levels
of nesting. -/
def WellFormed (cx : Context) (room : Nat) : Portion → Prop
  | const keyword first more => keyword.isKeyword "const" = true ∧ Chained first more ∧
      ∀ p ∈ first :: more, p.IsConstant cx.limits.maxInteger
  | var keyword first more => keyword.isKeyword "var" = true ∧ Chained first more ∧
      ∀ p ∈ first :: more, declaresVariable p.chunk = true
  | procedure keyword name semicolon inside closing b => keyword.isKeyword "procedure" = true ∧
      name.kind = .identifier ∧ semicolon.isDelimiter ";" = true ∧ closing.isDelimiter ";" = true ∧
      Quiet (Parser.block cx room) inside closing b

end Portion

/-! ## One section -/

/-- What is reported about a section, given the latest one before it. -/
def orderReport (last : Option Section) (s : Section) (t : Token) : List Diagnostic :=
  match last with
  | some l => if l.rank < s.rank ∨ s = .procedure then [] else [Complaint.misplacedSection s l t]
  | none => []

theorem checkOrder_apply (last : Option Section) (s : Section) (t : Token) (r : List Token) (depth : Nat)
    (log : Log) : checkOrder last s t ⟨r, depth, log⟩ =
      .ok () ⟨r, depth, ⟨log.entries ++ orderReport last s t⟩⟩ := by
  cases last with
  | none => simp [checkOrder, orderReport]
  | some l =>
    by_cases inOrder : l.rank < s.rank ∨ s = .procedure
    · simp [checkOrder, orderReport, inOrder]
    · simp [checkOrder, orderReport, inOrder, Log.add]

theorem Piece.IsConstant.handled {p : Piece} (constant : p.IsConstant cx.limits.maxInteger) :
    p.Handled (constDecl cx) p.consts [] := by
  obtain ⟨name, sign, number, chunk, identifier, equals, integer, digits, most, limited, within⟩ := constant
  have unchanged : min (Text.decimal number.lexeme : Int) most = Text.decimal number.lexeme :=
    Int.min_eq_left within
  have noReport : signReport cx name.lexeme sign = [] := by
    rw [signReport, if_neg]
    grind [Token.isOperator]
  have noExcess : excess most number (Text.decimal number.lexeme) = [] := if_pos within
  rw [consts, chunk]
  refine Piece.handled_of_ok fun tail depth log => ?_
  rw [chunk]
  refine (constDecl_apply limited identifier (.inl equals) integer
    (Text.stripZeros_eq_repr_decimal digits)).trans ?_
  rw [unchanged, noReport, noExcess]
  rfl

theorem Piece.handled_vars {p : Piece} (name : declaresVariable p.chunk = true) :
    p.Handled (varDecl cx) p.vars [] := by
  obtain ⟨name, chunk, identifier⟩ := declaresVariable_iff.mp name
  rw [vars, chunk]
  refine Piece.handled_of_ok fun tail depth log => ?_
  rw [chunk, List.append_nil]
  exact varDecl_apply identifier

/-- A section of pieces about which there is nothing to complain. -/
theorem declarations_apply {decl : Parser α} {added : Piece → List α} {first : Piece} {more : List Piece}
    (chained : Chained first more) (handled : ∀ q ∈ first :: more, q.Handled decl (added q) [])
    (between behind : Place) (tail : List Token) (depth : Nat) (log : Log) :
    declarations cx decl between behind ⟨(first :: more).flatMap Piece.tokens ++ tail, depth, log⟩ =
      .ok ((first :: more).flatMap added) ⟨tail, depth, log⟩ := by
  have silent : (first :: more).flatMap (fun _ => ([] : List Diagnostic)) = [] := by simp
  refine (declarations_pieces chained handled between behind tail depth log).trans ?_
  rw [silent, List.append_nil]

theorem procedure_apply {block : Parser Block} {name semicolon closing : Token} {inside : List Token}
    {b : Block} (identifier : name.kind = .identifier) (header : semicolon.isDelimiter ";" = true)
    (footer : closing.isDelimiter ";" = true)
    (run : ∀ tail depth log,
      block ⟨inside ++ closing :: tail, depth, log⟩ = .ok b ⟨closing :: tail, depth, log⟩)
    (t : Token) (tail : List Token) (depth : Nat) (log : Log) :
    procedure cx block t ⟨name :: semicolon :: (inside ++ closing :: tail), depth, log⟩ =
      .ok [⟨name.lexeme, b, t.loc⟩] ⟨tail, depth, log⟩ := by
  simp [procedure, requireDelimiter, require, accept, identifier, header, run, footer]

/-- What is declared behind one more section. -/
def Declared.add (d : Declared) (p : Portion) : Declared where
  consts := d.consts ++ p.consts
  vars := d.vars ++ p.vars
  procedures := d.procedures ++ p.procedures
  last := some (Section.latest d.last p.kind)

/-- A turn of the loop takes one section.  It adds what the section declares, and looks at nothing but the
latest section before it. -/
theorem nextSection_portion {p : Portion} (wellFormed : p.WellFormed cx room) (d : Declared)
    (tail : List Token) (depth : Nat) (log : Log) :
    nextSection cx (block cx room) d ⟨p.tokens ++ tail, depth, log⟩ =
      .ok (some (d.add p)) ⟨tail, depth, ⟨log.entries ++ orderReport d.last p.kind p.keyword⟩⟩ := by
  cases p with
  | const keyword first more =>
    obtain ⟨opening, chained, constants⟩ := wellFormed
    have chosen : Section.ofToken? keyword = some .const := Section.ofToken?_eq_some_iff.mpr opening
    have run (log : Log) : constSection cx ⟨(first :: more).flatMap Piece.tokens ++ tail, depth, log⟩ =
        .ok ((first :: more).flatMap Piece.consts) ⟨tail, depth, log⟩ :=
      declarations_apply chained (fun q member => (constants q member).handled) _ _ tail depth log
    simp only [nextSection, Portion.tokens, List.cons_append, bind_apply, acceptAs_cons_of_some chosen,
      checkOrder_apply, run]
    simp [Declared.add, Portion.consts, Portion.vars, Portion.procedures, Portion.kind, Portion.keyword]
  | var keyword first more =>
    obtain ⟨opening, chained, names⟩ := wellFormed
    have chosen : Section.ofToken? keyword = some .var := Section.ofToken?_eq_some_iff.mpr opening
    have run (log : Log) : varSection cx ⟨(first :: more).flatMap Piece.tokens ++ tail, depth, log⟩ =
        .ok ((first :: more).flatMap Piece.vars) ⟨tail, depth, log⟩ :=
      declarations_apply chained (fun q member => Piece.handled_vars (names q member)) _ _ tail depth log
    simp only [nextSection, Portion.tokens, List.cons_append, bind_apply, acceptAs_cons_of_some chosen,
      checkOrder_apply, run]
    simp [Declared.add, Portion.consts, Portion.vars, Portion.procedures, Portion.kind, Portion.keyword]
  | procedure keyword name semicolon inside closing b =>
    obtain ⟨opening, identifier, header, footer, quiet⟩ := wellFormed
    have chosen : Section.ofToken? keyword = some .procedure := Section.ofToken?_eq_some_iff.mpr opening
    have run (log : Log) : procedure cx (block cx room) keyword
        ⟨name :: semicolon :: (inside ++ closing :: tail), depth, log⟩ =
        .ok [⟨name.lexeme, b, keyword.loc⟩] ⟨tail, depth, log⟩ :=
      procedure_apply identifier header footer (quiet.apply (block_steady cx room)) keyword tail depth log
    have split : (Portion.procedure keyword name semicolon inside closing b).tokens ++ tail =
        keyword :: name :: semicolon :: (inside ++ closing :: tail) := by simp [Portion.tokens]
    rw [split]
    simp only [nextSection, bind_apply, acceptAs_cons_of_some chosen, checkOrder_apply, run]
    simp [Declared.add, Portion.consts, Portion.vars, Portion.procedures, Portion.kind, Portion.keyword]

/-! ## All sections -/

/-- What is reported about sections, one after the other, behind the latest section before them. -/
def orderReports (last : Option Section) : List Portion → List (List Diagnostic)
  | [] => []
  | p :: parts =>
    orderReport last p.kind p.keyword :: orderReports (some (Section.latest last p.kind)) parts

/-- The loop over the sections takes them one by one. -/
theorem sections_portions {parts : List Portion} (wellFormed : ∀ p ∈ parts, p.WellFormed cx room)
    {behind : List Token} (noSection : ∀ t ∈ behind.head?, Section.ofToken? t = none) (d : Declared)
    (depth : Nat) (log : Log) :
    repeatedly (nextSection cx (block cx room)) d ⟨parts.flatMap Portion.tokens ++ behind, depth, log⟩ =
      .ok (parts.foldl Declared.add d)
        ⟨behind, depth, ⟨log.entries ++ (orderReports d.last parts).flatten⟩⟩ := by
  have unfolded (d : Declared) : repeatedly (nextSection cx (block cx room)) d = _ :=
    repeatedly_eq (Steady.progress (nextSection_steady (block_steady cx room))) (fun _ _ _ => rfl) d
  -- on the sections still to come; those before them are in what is declared, and in the log
  induction parts generalizing d log with
  | nil =>
    have declined : nextSection cx (block cx room) d ⟨behind, depth, log⟩ =
        .ok none ⟨behind, depth, log⟩ := nextSection_declined noSection d depth log
    rw [unfolded, bind_apply]
    simp [declined, orderReports]
  | cons p parts ih =>
    obtain ⟨first, others⟩ := List.forall_mem_cons.mp wellFormed
    have turn := nextSection_portion first d (parts.flatMap Portion.tokens ++ behind) depth log
    have onwards := ih others (d.add p) ⟨log.entries ++ orderReport d.last p.kind p.keyword⟩
    rw [unfolded, bind_apply, List.flatMap_cons, List.append_assoc, turn]
    simp only [List.foldl_cons, orderReports, List.flatten_cons, ← List.append_assoc]
    exact onwards

theorem Declared.foldl_add (parts : List Portion) (d : Declared) :
    (parts.foldl add d).consts = d.consts ++ parts.flatMap Portion.consts ∧
    (parts.foldl add d).vars = d.vars ++ parts.flatMap Portion.vars ∧
    (parts.foldl add d).procedures = d.procedures ++ parts.flatMap Portion.procedures := by
  induction parts generalizing d with
  | nil => simp
  | cons p parts ih =>
    obtain ⟨consts, vars, procedures⟩ := ih (d.add p)
    rw [List.foldl_cons, consts, vars, procedures]
    simp [add]

/-! ## Which sections are out of place -/

/-- The latest of the given sections in the order of the grammar. -/
def Latest (before : List Portion) : Option Section → Prop
  | none => before = []
  | some m => (∃ q ∈ before, q.kind = m) ∧ ∀ q ∈ before, q.kind.rank ≤ m.rank

/-- What is reported about a section behind the sections `before`.  A procedure is never reported, nor is a
section that comes after all of them in order.  Any other is reported by one error at its keyword, which
names the latest of them, unless the section is of the same kind. -/
structure Portion.Judged (before : List Portion) (p : Portion) (report : List Diagnostic) : Prop where
  inOrder : (p.kind = .procedure ∨ ∀ q ∈ before, q.kind.rank < p.kind.rank) → report = []
  misplaced : p.kind ≠ .procedure → ∀ m ∈ before, (∀ q ∈ before, q.kind.rank ≤ m.kind.rank) →
    p.kind.rank ≤ m.kind.rank → ∃ e, report = [e] ∧ e.isError = true ∧ e.recovery = some .accepted ∧
      e.loc = some p.keyword.loc ∧
      e.message =
        if p.kind.rank = m.kind.rank then
          "Duplicate '" ++ p.kind.word ++ "' section; list all of them in one section"
        else "'" ++ p.kind.word ++ "' declarations must come before '" ++ m.kind.word ++ "' declarations"

section Order

variable {before : List Portion} {last : Option Section}

theorem Latest.append (latest : Latest before last) (p : Portion) :
    Latest (before ++ [p]) (some (Section.latest last p.kind)) := by
  cases last with
  | none =>
    obtain rfl : before = [] := latest
    simp [Latest, Section.latest]
  | some l =>
    obtain ⟨⟨q, member, rfl⟩, greatest⟩ := latest
    rw [Section.latest]
    split
    · next later =>
      refine ⟨⟨p, by simp, rfl⟩, fun q' member' => ?_⟩
      rcases List.mem_append.mp member' with inside | isLast
      · exact Nat.le_of_lt (Nat.lt_of_le_of_lt (greatest q' inside) later)
      · rw [List.mem_singleton.mp isLast]
    · next notLater =>
      refine ⟨⟨q, by simp [member], rfl⟩, fun q' member' => ?_⟩
      rcases List.mem_append.mp member' with inside | isLast
      · exact greatest q' inside
      · rw [List.mem_singleton.mp isLast]
        exact Nat.le_of_not_lt notLater

/-- The latest section so far is all that has to be known of the sections before. -/
theorem Latest.judged (latest : Latest before last) (p : Portion) :
    p.Judged before (orderReport last p.kind p.keyword) := by
  cases last with
  | none =>
    obtain rfl : before = [] := latest
    exact ⟨fun _ => rfl, fun _ m member => by cases member⟩
  | some l =>
    obtain ⟨⟨q, member, rfl⟩, greatest⟩ := latest
    constructor
    · intro fine
      exact if_pos (fine.elim .inr fun later => .inl (later q member))
    · intro other m member' greatest' notLater
      -- two sections that are both the latest are of one kind
      have same : q.kind = m.kind :=
        Section.rank_injective (Nat.le_antisymm (greatest' q member) (greatest m member'))
      have late : ¬ (q.kind.rank < p.kind.rank ∨ p.kind = .procedure) := by
        rw [same]
        exact not_or.mpr ⟨Nat.not_lt.mpr notLater, other⟩
      refine ⟨_, if_neg late, rfl, rfl, rfl, ?_⟩
      have alike : p.kind = q.kind ↔ p.kind.rank = q.kind.rank :=
        ⟨congrArg Section.rank, Section.rank_injective⟩
      simp only [Complaint.misplacedSection, ← same, alike]

theorem length_orderReports (last : Option Section) (parts : List Portion) :
    (orderReports last parts).length = parts.length := by
  induction parts generalizing last with
  | nil => rfl
  | cons p parts ih => simp [orderReports, ih]

/-- Each section is judged by all sections before it, those before the list included. -/
theorem orderReports_judged (latest : Latest before last) (between : List Portion) (p : Portion)
    (after : List Portion) : ∃ report,
      (orderReports last (between ++ p :: after))[between.length]? = some report ∧
      p.Judged (before ++ between) report := by
  induction between generalizing before last with
  | nil => exact ⟨_, rfl, by simpa using latest.judged p⟩
  | cons q between ih =>
    obtain ⟨report, found, judged⟩ := ih (latest.append q)
    exact ⟨report, by simpa [orderReports] using found, by simpa using judged⟩

end Order

/-- A block of well-formed sections, in any order and number, and a statement about which there is nothing
to complain.  The block has all that the sections declare, in the order of the text, and each section is
reported as it deserves. -/
theorem block_in_any_order (cx : Context) (room : Nat) (parts : List Portion) (body : List Token)
    (follow : Token) (s : Stmt) (wellFormed : ∀ p ∈ parts, p.WellFormed cx room)
    (quiet : Quiet (statement cx room) body follow s) (rest : List Token) (depth : Nat) (log : Log) :
    let tokens := parts.flatMap Portion.tokens ++ (body ++ follow :: rest)
    ∃ reports : List (List Diagnostic),
      block cx (room + 1) ⟨tokens, depth, log⟩ =
        .ok ⟨parts.flatMap Portion.consts, parts.flatMap Portion.vars, parts.flatMap Portion.procedures, s,
            cx.front tokens⟩
          ⟨follow :: rest, depth, ⟨log.entries ++ reports.flatten⟩⟩ ∧
      reports.length = parts.length ∧
      ∀ before p after, parts = before ++ p :: after →
        ∃ report, reports[before.length]? = some report ∧ p.Judged before report := by
  intro tokens
  refine ⟨orderReports none parts, ?_, length_orderReports none parts, ?_⟩
  · have sections := sections_portions wellFormed (quiet.noSection rest) {} (depth + 1) log
    have statement := quiet.apply (statement_shortsighted cx room) rest (depth + 1)
      ⟨log.entries ++ (orderReports none parts).flatten⟩
    obtain ⟨consts, vars, procedures⟩ := Declared.foldl_add parts {}
    rw [block, deeper_apply, blockBody]
    simp only [bind_apply, here_apply, tokens, sections, statement, pure_apply, consts, vars, procedures]
    rfl
  · rintro before p after rfl
    have start : Latest [] none := rfl
    exact orderReports_judged start before p after

/-- Variables, constants, variables again and a procedure, with nothing behind them but a period. -/
theorem block_in_any_order_shuffled :
    let cx : Context := ⟨⟨.number 7, 3⟩, .nowhere⟩
    let semicolon : Token := ⟨.delimiter, ";", .nowhere⟩
    let period : Token := ⟨.delimiter, ".", .nowhere⟩
    let x : Piece := ⟨[⟨.identifier, "x", .nowhere⟩], semicolon, by decide, by decide⟩
    let a : Piece := ⟨[⟨.identifier, "a", .nowhere⟩, ⟨.operator, "=", .nowhere⟩,
      ⟨.integer, "07", .nowhere⟩], semicolon, by decide, by decide⟩
    let names : Portion := .var ⟨.keyword, "var", .nowhere⟩ x []
    let numbers : Portion := .const ⟨.keyword, "const", .nowhere⟩ a []
    let inner : Block := ⟨[], [⟨"x", .nowhere⟩], [], .empty .nowhere, .nowhere⟩
    let work : Portion := .procedure ⟨.keyword, "procedure", .nowhere⟩ ⟨.identifier, "p", .nowhere⟩ semicolon
      names.tokens semicolon inner
    let parts := [names, numbers, names, work]
    (∀ p ∈ parts, p.WellFormed cx 2) ∧ Quiet (statement cx 2) [] period (.empty .nowhere) ∧
    ∃ e e' : Diagnostic,
      block cx 3 ⟨parts.flatMap Portion.tokens ++ [period], 0, {}⟩ =
        .ok ⟨[⟨"a", .number 7, .nowhere⟩], [⟨"x", .nowhere⟩, ⟨"x", .nowhere⟩], [⟨"p", inner, .nowhere⟩],
          .empty .nowhere, .nowhere⟩ ⟨[period], 0, ⟨[e, e']⟩⟩ ∧
      e.message = "'const' declarations must come before 'var' declarations" ∧
      e'.message = "Duplicate 'var' section; list all of them in one section" := by
  intro cx semicolon period x a names numbers inner work parts
  have forNames : names.WellFormed cx 2 := ⟨rfl, rfl, by simp [x, declaresVariable]⟩
  have forNumbers : numbers.WellFormed cx 2 := by
    refine ⟨rfl, rfl, fun p member => ?_⟩
    obtain rfl := List.mem_singleton.mp member
    exact ⟨_, _, _, rfl, rfl, rfl, rfl, by simp [Text.IsDigits, Text.isDigit], 7, rfl, by decide⟩
  have forWork : work.WellFormed cx 2 := ⟨rfl, rfl, rfl, rfl, rfl⟩
  have wellFormed : ∀ p ∈ parts, p.WellFormed cx 2 := by
    simp [parts, forNames, forNumbers, forWork]
  have quiet : Quiet (statement cx 2) [] period (.empty .nowhere) := rfl
  obtain ⟨reports, run, length, judged⟩ := block_in_any_order cx 2 parts [] period (.empty .nowhere)
    wellFormed quiet [] 0 {}
  obtain ⟨first, reports, rfl⟩ := List.exists_cons_of_length_eq_add_one length
  obtain ⟨second, third, fourth, rfl⟩ := List.length_eq_three.mp (Nat.succ.inj length)
  obtain ⟨_, ⟨⟩, nothing⟩ := judged [] names [numbers, names, work] rfl
  obtain ⟨_, ⟨⟩, early⟩ := judged [names] numbers [names, work] rfl
  obtain ⟨_, ⟨⟩, again⟩ := judged [names, numbers] names [work] rfl
  obtain ⟨_, ⟨⟩, never⟩ := judged [names, numbers, names] work [] rfl
  obtain rfl := nothing.inOrder (by simp)
  obtain ⟨e, rfl, -, -, -, message⟩ := early.misplaced (by decide) names (by simp) (by simp) (by decide)
  obtain ⟨e', rfl, -, -, -, message'⟩ := again.misplaced (by decide) names (by simp)
    (by simp; decide) (by decide)
  obtain rfl := never.inOrder (.inl rfl)
  exact ⟨wellFormed, quiet, e, e', run, message, message'⟩

end Parser

end PlZero

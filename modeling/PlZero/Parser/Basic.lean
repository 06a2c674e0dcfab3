import PlZero.Diagnostic.Log
import PlZero.Limits
import PlZero.Parser.Complaint

/-! # Parsers

A `Parser` works on the tokens that are left, the log of diagnostics and a count of how deep it is
in nested constructs; it gives a result or comes to a halt, and either way leaves a state behind.
A complaint does not stop a parser: it is put into the log, and reading goes on.

* `peek`, `advance`, `accept` and `acceptAs` look at the next token and take it;
* `report` and `require` complain about what is missing;
* `deeper` counts one level of nesting, which ends with the parser it is given;
* `catching` turns a halt into a value;
* `repeatedly` is the only loop: its step takes a token or declines, so that the number of tokens
  left bounds the number of turns.
-/

namespace PlZero

/-- Why a parser stopped. -/
inductive Halt
  /-- A declaration cannot be read. -/
  | malformed (wanted : Wanted) (loc : Location)
  /-- The program nests too deep. -/
  | tooDeep (limit : Int) (loc : Location)
  /-- The lexeme of an integer is no integer. -/
  | unreadable (cause : Text.Unreadable)
  /-- An integer was to be compared with a limit that is blank. -/
  | blankLimit
deriving DecidableEq, Repr

/-- The words for the reason of a halt. -/
def Halt.message : Halt → String
  | .malformed wanted _ => "Expected " ++ wanted.text
  | .tooDeep limit _ => Complaint.nestingMessage limit
  | .unreadable cause => cause.message
  | .blankLimit => "'<=' not supported between instances of 'int' and 'list'"

namespace Parser

/-- What a parser knows from the start: its limits and where the input ends. -/
structure Context where
  limits : Limits
  endLoc : Location
deriving DecidableEq, Repr, Inhabited

/-- What a parser changes: the tokens left, the levels it is in, and what it has reported. -/
structure State where
  rest : List Token
  depth : Nat := 0
  log : Log := {}
deriving DecidableEq, Repr, Inhabited

end Parser

/-- A parser with results in `α`. -/
abbrev Parser (α : Type) : Type := EStateM Halt Parser.State α

namespace Parser

variable {α β : Type}

/-! ## Tokens -/

/-- The next token, if there is one. -/
def peek : Parser (Option Token) := fun s => .ok s.rest.head? s

/-- Takes the next token. -/
def advance : Parser Unit := fun s => .ok () { s with rest := s.rest.tail }

/-- Where the next token stands, or the end of the input. -/
def here (cx : Context) : Parser Location := do
  match ← peek with
  | some t => return t.loc
  | none => return cx.endLoc

/-- Takes the next token if it can be read as an `α`. -/
def acceptAs (f : Token → Option α) : Parser (Option (Token × α)) := do
  match ← peek with
  | some t =>
    match f t with
    | some a =>
      advance
      return some (t, a)
    | none => return none
  | none => return none

/-- Takes the next token if it satisfies `p`. -/
def accept (p : Token → Bool) : Parser (Option Token) := do
  match ← peek with
  | some t =>
    if p t then
      advance
      return some t
    else
      return none
  | none => return none

/-- Skips tokens while they satisfy `p`. -/
def skipWhile (p : Token → Bool) : Parser Unit := fun s =>
  .ok () { s with rest := s.rest.dropWhile p }

/-- Skips all that is left. -/
def skipAll : Parser Unit := fun s => .ok () { s with rest := [] }

/-! ## Complaints -/

/-- Puts a diagnostic into the log. -/
def record (d : Diagnostic) : Parser Unit := fun s => .ok () { s with log := s.log.add d }

/-- Complains that something is missing here. -/
def report (cx : Context) (wanted : Wanted) (place : Place) (recovery : Recovery) :
    Parser Unit := do
  let next ← peek
  record (Complaint.missing wanted place recovery next (← here cx))

/-- Takes the token that `p` describes and `symbol` spells; if it is not there, complains and goes
on as if it were. -/
def require (cx : Context) (p : Token → Bool) (symbol : String) (place : Place) :
    Parser Unit := do
  match ← accept p with
  | some _ => return ()
  | none => report cx (.symbol symbol) place .assumedPresent

/-- Takes a delimiter or goes on as if it were there. -/
def requireDelimiter (cx : Context) (symbol : String) (place : Place) : Parser Unit :=
  require cx (·.isDelimiter symbol) symbol place

/-- Takes a keyword or goes on as if it were there. -/
def requireKeyword (cx : Context) (word : String) (place : Place) : Parser Unit :=
  require cx (·.isKeyword word) word place

/-! ## Halts -/

/-- Comes to a halt. -/
def halt (h : Halt) : Parser α := fun s => .error h s

/-- Complains and gives up the declaration that is being read. -/
def malformed (cx : Context) (wanted : Wanted) (place : Place) : Parser α := do
  report cx wanted place .omitted
  halt (.malformed wanted (← here cx))

/-- Comes to a halt because no further level of nesting is allowed. -/
def tooDeep (cx : Context) : Parser α := do
  halt (.tooDeep cx.limits.maxNesting (← here cx))

/-- Turns a halt into a value; what was read and reported before it stays so. -/
def catching (p : Parser α) : Parser (Except Halt α) := fun s =>
  match p s with
  | .ok a s => .ok (.ok a) s
  | .error h s => .ok (.error h) s

/-- Runs `p` one level deeper, and comes back to the present level however `p` ends. -/
def deeper (p : Parser α) : Parser α := fun s =>
  match p { s with depth := s.depth + 1 } with
  | .ok a s => .ok a { s with depth := s.depth - 1 }
  | .error h s => .error h { s with depth := s.depth - 1 }

/-! ## Loops -/

/-- Takes a step as often as it goes, but at most `turns` times. -/
def iterate (step : α → Parser (Option α)) : Nat → α → Parser α
  | 0, a => return a
  | turns + 1, a => do
    match ← step a with
    | some b => iterate step turns b
    | none => return a

/-- Takes a step until it declines.  A step that does not decline takes a token, and at the end of
the input a step declines, so there are at most as many turns as tokens left. -/
def repeatedly (step : α → Parser (Option α)) (a : α) : Parser α := fun s =>
  iterate step s.rest.length a s

end Parser

end PlZero

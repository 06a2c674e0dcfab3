import PlZero.Parser.Block
import PlZero.Token.Scanner

/-! # Parsing token lists and texts

A `Session` is a list of tokens that is parsed step by step: each call asks for one production and
goes on where the call before it stopped, also if that one came to a halt.  `parseTokens` and
`parse` are the one-call sessions that read a whole program.
-/

namespace PlZero

/-- The location just behind the last token.  Without tokens it is the start of `file`. -/
def endLocation (file : String) (tokens : List Token) : Location :=
  match tokens.getLast? with
  | none => { file := file, line := 1, column := 1, offset := some 0 }
  | some t =>
    { file := (tokens.head?.map (·.loc.file)).getD file
      line := t.loc.endLine.getD t.loc.line
      column := t.loc.endColumn.getD t.loc.column
      offset := t.loc.offset.map (· + t.lexeme.length) }

/-- The productions of the grammar that can be asked for. -/
inductive Production
  | program
  | block
  | statement
  | condition
  | expression
  | constDecl
  | varDecl
deriving DecidableEq, Repr, Inhabited

/-- The parser of a production that has `room` levels of nesting left. -/
def Production.parser (cx : Parser.Context) (room : Nat) : Production → Parser Tree
  | .program => .program <$> Parser.program cx room
  | .block => .block <$> Parser.block cx room
  | .statement => .stmt <$> Parser.statement cx room
  | .condition => .condition <$> Parser.condition cx (Parser.expression cx room)
  | .expression => .expr <$> Parser.expression cx room
  | .constDecl => .const <$> Parser.constDecl cx
  | .varDecl => .var <$> Parser.varDecl cx

/-- A list of tokens that is parsed step by step. -/
structure Session where
  tokens : List Token
  context : Parser.Context
  state : Parser.State

namespace Session

/-- A session before its first call. -/
def start (limits : Limits) (file : String) (tokens : List Token) : Session where
  tokens := tokens
  context := ⟨limits, endLocation file tokens⟩
  state := { rest := tokens }

/-- The number of tokens that have been taken. -/
def pos (s : Session) : Nat := s.tokens.length - s.state.rest.length

/-- The levels of nesting that are still allowed. -/
def room (s : Session) : Nat := (s.context.limits.maxNesting - s.state.depth).toNat

/-- Asks for a production. -/
def call (s : Session) (p : Production) : Except Halt Tree × Session :=
  match p.parser s.context s.room s.state with
  | .ok t state => (.ok t, { s with state := state })
  | .error h state => (.error h, { s with state := state })

end Session

/-- Parses a list of tokens as a program.  `file` is the name of the file if there are none. -/
def parseTokens (limits : Limits) (file : String) (tokens : List Token) :
    Except Halt (Program × Log) :=
  let s := Session.start limits file tokens
  match Parser.program s.context s.room s.state with
  | .ok p state => .ok (p, state.log)
  | .error h _ => .error h

/-- Parses a text as a program. -/
def parse (limits : Limits) (file source : String) : Except Halt (Program × Log) :=
  parseTokens limits file (tokenize source file)

end PlZero

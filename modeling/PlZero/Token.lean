import PlZero.Location
import PlZero.Text.Integer

/-! # Tokens

A token is a kind, the characters it was read from (its lexeme) and a location.  Nothing ties the
three together: a token made by hand may claim any kind for any lexeme, and every function here is
total on such tokens too.  The vocabulary of the language is at the end.
-/

namespace PlZero

/-- What sort of word a token is. -/
inductive Token.Kind
  | identifier
  | integer
  | operator
  | delimiter
  | keyword
  | unknown
deriving DecidableEq, Repr, Inhabited

/-- The name of a kind in listings and messages. -/
def Token.Kind.name : Token.Kind → String
  | .identifier => "Identifier"
  | .integer => "IntegerLiteral"
  | .operator => "Operator"
  | .delimiter => "Delimiter"
  | .keyword => "Keyword"
  | .unknown => "Unknown"

/-- A word of the language and the place where it stands. -/
structure Token where
  kind : Token.Kind
  lexeme : String
  loc : Location
deriving DecidableEq, Repr, Inhabited

/-- What a token stands for: a number, or just its lexeme. -/
inductive Token.Payload
  | number (value : Int)
  | word (lexeme : String)
deriving DecidableEq, Repr

namespace Token

/-- The payload of a token.  The lexeme of an integer is read piece by piece, so that its length
does not matter. -/
def value (t : Token) : Except Text.Unreadable Payload :=
  match t.kind with
  | .integer => .number <$> Text.readChunks t.lexeme
  | _ => .ok (.word t.lexeme)

/-- Whether `t` is the given keyword. -/
def isKeyword (t : Token) (word : String) : Bool := t.kind = .keyword && t.lexeme = word

/-- Whether `t` is the given operator. -/
def isOperator (t : Token) (symbol : String) : Bool := t.kind = .operator && t.lexeme = symbol

/-- Whether `t` is the given delimiter. -/
def isDelimiter (t : Token) (symbol : String) : Bool := t.kind = .delimiter && t.lexeme = symbol

/-- Whether `t` is the word `else`, which is no keyword: it is known by its lexeme alone. -/
def isElse (t : Token) : Bool := t.kind = .identifier && t.lexeme = "else"

/-- The token in messages: its kind and its lexeme in quotes. -/
def describe (t : Token) : String := t.kind.name ++ " " ++ Text.quote t.lexeme

/-- The token in a listing: its kind and its payload, an integer without leading zeros. -/
def listing (t : Token) : String :=
  t.kind.name ++ ": " ++
    match t.kind with
    | .integer => Text.stripZeros t.lexeme
    | _ => t.lexeme

end Token

/-! ## Vocabulary -/

/-- The reserved words. -/
def keywords : List String :=
  ["begin", "end", "if", "then", "while", "do", "call", "const", "var", "procedure", "odd", "read",
    "write"]

/-- The operators. -/
def operators : List String := ["+", "-", "*", "/", "=", "<", ">", "<=", ">=", "<>", ":="]

/-- The delimiters. -/
def delimiters : List String := [",", ".", ";", "(", ")"]

end PlZero

import PlZero.Cli.Help
import PlZero.Cli.Source
import PlZero.Node.Outline
import PlZero.Node.Record
import PlZero.Parser.Session

/-! # What the tool answers

The answer to a command line is an `Outcome`: an exit code and what goes to the two output streams.
It depends on the words of the command line and the bytes of the source and on nothing else.  There
is no outcome if the parser comes to a halt, as it does before an integer that a blank limit leaves
undecided.
-/

namespace PlZero.Cli

/-- How a run ends. -/
structure Outcome where
  exit : Nat
  stdout : String := ""
  stderr : String := ""
deriving DecidableEq, Repr

/-- Lines, each with its end. -/
def unlines (ls : List String) : String := String.join (ls.map (· ++ "\n"))

/-- The outcome of a command line that asks for no source. -/
def Verdict.outcome : Verdict → Outcome
  | .help level => { exit := 0, stdout := Level.help level }
  | .version => { exit := 0, stdout := toolName ++ " " ++ toolVersion ++ "\n" }
  | .misuse level cause =>
    { exit := 2
      stderr := Level.usage level ++ Level.invokedAs level ++ ": error: " ++ cause.message ++ "\n" }

/-! ## Reports -/

/-- The lines about one diagnostic. -/
def diagnosticLines (d : Diagnostic) : List String :=
  d.text :: d.notes.map ("  note: " ++ ·)

/-- The line that counts errors and warnings. -/
def summaryLine (l : Log) : String :=
  toString l.errors.length ++ " error(s), " ++ toString l.warnings.length ++ " warning(s)"

/-- The lines about all diagnostics, and none if there are none. -/
def reportLines (l : Log) : List String :=
  if l.entries.isEmpty then [] else l.entries.flatMap diagnosticLines ++ [summaryLine l]

/-! ## Commands -/

/-- The name of a source in locations. -/
def sourceName (file : String) : String := if file = "-" then "<stdin>" else file

/-- A tree in the given format. -/
def treeText (f : Format) (p : Program) : String :=
  match f with
  | .json => p.toNode.toJson.text
  | .sexp =>
    match p.toNode.outline Node.standardIndent with
    | .ok text => text
    | .error cause => cause.outlineMessage

/-- What is told about a source when much is to be told. -/
def readLine (name source : String) : String :=
  "DEBUG: pl0lib.cli: read " ++ toString source.length ++ " characters from " ++ name

/-- What is told about a parse when much is to be told. -/
def parsedLine (tokens : List Token) (l : Log) : String :=
  "DEBUG: pl0lib.parser.parser: parsed " ++ toString tokens.length ++ " tokens with " ++
    toString l.entries.length ++ " diagnostic(s)"

/-- The outcome of parsing a source. -/
def parseOutcome (i : Invocation) (source : String) : Except Halt Outcome := do
  let name := sourceName i.file
  let tokens := tokenize source name
  let (program, log) ← parseTokens i.limits name tokens
  let debug := if i.verbose then [readLine name source, parsedLine tokens log] else []
  return {
    exit := if log.hasErrors then 1 else 0
    stdout := if i.command = .ast then treeText i.format program ++ "\n" else ""
    stderr := unlines (debug ++ reportLines log) }

/-- The outcome of listing the tokens of a source. -/
def listOutcome (i : Invocation) (source : String) : Outcome :=
  let name := sourceName i.file
  { exit := 0
    stdout := unlines ((tokenize source name).map Token.listing)
    stderr := if i.verbose then unlines [readLine name source] else "" }

/-- The outcome of an invocation on the bytes of its source. -/
def Invocation.outcome (i : Invocation) (bytes : Except ReadError (List UInt8)) :
    Except Halt Outcome :=
  match bytes.bind decodeSource with
  | .error cause =>
    .ok { exit := 2, stderr := "Error: cannot read " ++ i.file ++ ": " ++ cause.message ++ "\n" }
  | .ok source => if i.command = .tokens then .ok (listOutcome i source) else parseOutcome i source

/-- The outcome of a command line in a directory. -/
def run (d : Directory) (stdin : List UInt8) (words : List String) : Except Halt Outcome :=
  match Invocation.ofArguments words with
  | .error verdict => .ok verdict.outcome
  | .ok i => i.outcome (if i.file = "-" then .ok stdin else d.read i.file)

end PlZero.Cli

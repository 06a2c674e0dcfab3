import PlZero.Cli.Arguments

/-! # Usage and help

The texts that explain the command line.
-/

namespace PlZero.Cli

/-- The name of the tool. -/
def toolName : String := "pl0lib"

/-- The version of the tool. -/
def toolVersion : String := "0.1.0"

/-- What is typed to get to a level. -/
def Level.invokedAs : Level → String
  | none => toolName
  | some c => toolName ++ " " ++ c.name

/-- The line that shows how a level is used. -/
def Level.usage (level : Level) : String :=
  "usage: " ++ Level.invokedAs level ++
  (match level with
    | none => " [-h] [--version] \x7btokens,ast,check\x7d ..."
    | some .ast => " [-h] [-v] [--max-integer MAX_INTEGER] [-f \x7bsexp,json\x7d] FILE"
    | some _ => " [-h] [-v] [--max-integer MAX_INTEGER] FILE") ++
  "\n"

/-- What the tool does, what it takes, and examples. -/
def toolHelp : String :=
  "\nPL/0 compiler front end: lexical and syntax analysis\n" ++
  "\npositional arguments:\n" ++
  "  \x7btokens,ast,check\x7d\n" ++
  "    tokens            print the token listing\n" ++
  "    ast               print the syntax tree\n" ++
  "    check             print diagnostics only\n" ++
  "\noptions:\n" ++
  "  -h, --help          show this help message and exit\n" ++
  "  --version           show program's version number and exit\n" ++
  "\nExamples:\n" ++
  "  pl0lib tokens square.pl0           # Token listing, one per line\n" ++
  "  pl0lib ast square.pl0              # Syntax tree as an S-expression\n" ++
  "  pl0lib ast square.pl0 -f json      # Syntax tree as JSON\n" ++
  "  pl0lib check - < square.pl0        # Diagnostics only, source from stdin\n" ++
  "        \n"

/-- What every command takes. -/
def commandHelp : String :=
  "\npositional arguments:\n" ++
  "  FILE                  PL/0 source file, or '-' for stdin\n" ++
  "\noptions:\n" ++
  "  -h, --help            show this help message and exit\n" ++
  "  -v, --verbose         verbose debugging output\n" ++
  "  --max-integer MAX_INTEGER\n" ++
  "                        largest integer literal accepted without a diagnostic\n" ++
  "                        (default: 9223372036854775807)\n"

/-- What only the command for trees takes. -/
def formatHelp : String :=
  "  -f \x7bsexp,json\x7d, --format \x7bsexp,json\x7d\n" ++
  "                        tree output format (default: sexp)\n"

/-- The help of a level. -/
def Level.help (level : Level) : String :=
  Level.usage level ++
  match level with
  | none => toolHelp
  | some .ast => commandHelp ++ formatHelp
  | some _ => commandHelp

end PlZero.Cli

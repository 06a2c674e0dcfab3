import PlZero.Limits
import PlZero.Text.Integer

/-! # Command lines

    TOOL [-h] [--version] COMMAND ...
    TOOL COMMAND [-h] [-v] [--max-integer N] [-f FORMAT] FILE

The words of a command line are first told apart (`Word`): operands, switches, and words that look
like a switch and are none.  Then they are taken from left to right (`take`).  A long switch may be
cut short as long as it is the only one that starts so; short ones may be joined in one word; a
value may be a word of its own or part of the switch's word, and there the divider `--` stands for
no value.  The first operand of the tool is the command and takes all words behind it; that of a
command is the file.  Words that nobody takes are complained about last.
-/

namespace PlZero.Cli

/-! ## Vocabulary -/

/-- What the tool can be asked to do. -/
inductive Command
  | tokens
  | ast
  | check
deriving DecidableEq, Repr, Inhabited

/-- The name of a command. -/
def Command.name : Command → String
  | .tokens => "tokens"
  | .ast => "ast"
  | .check => "check"

/-- The commands in the order in which they are listed. -/
def Command.all : List Command := [.tokens, .ast, .check]

/-- The command of the given name. -/
def Command.ofName? (name : String) : Option Command := Command.all.find? fun c => c.name = name

/-- How trees are written. -/
inductive Format
  | sexp
  | json
deriving DecidableEq, Repr, Inhabited

/-- The name of a format. -/
def Format.name : Format → String
  | .sexp => "sexp"
  | .json => "json"

/-- The formats in the order in which they are listed. -/
def Format.all : List Format := [.sexp, .json]

/-- The format of the given name. -/
def Format.ofName? (name : String) : Option Format := Format.all.find? fun f => f.name = name

/-- The switches without a value. -/
inductive Flag
  | help
  | version
  | verbose
deriving DecidableEq, Repr, Inhabited

/-- The switches with a value. -/
inductive Setting
  | maxInteger
  | format
deriving DecidableEq, Repr, Inhabited

/-- The switches. -/
inductive Switch
  | flag (f : Flag)
  | setting (s : Setting)
deriving DecidableEq, Repr, Inhabited

/-- A switch as it is used. -/
inductive Use
  | flag (f : Flag)
  | setting (s : Setting) (value : String)
deriving DecidableEq, Repr

/-- The spellings of a flag. -/
def Flag.spellings : Flag → List String
  | .help => ["-h", "--help"]
  | .version => ["--version"]
  | .verbose => ["-v", "--verbose"]

/-- The spellings of a setting. -/
def Setting.spellings : Setting → List String
  | .maxInteger => ["--max-integer"]
  | .format => ["-f", "--format"]

/-- The spellings of a switch. -/
def Switch.spellings : Switch → List String
  | .flag f => f.spellings
  | .setting s => s.spellings

/-- A flag in messages. -/
def Flag.title (f : Flag) : String := "/".intercalate f.spellings

/-- A setting in messages. -/
def Setting.title (s : Setting) : String := "/".intercalate s.spellings

/-- The tool itself, or one of its commands. -/
abbrev Level := Option Command

/-- The switches that are known at a level. -/
def Level.switches : Level → List Switch
  | none => [.flag .help, .flag .version]
  | some .ast => [.flag .help, .flag .verbose, .setting .maxInteger, .setting .format]
  | some _ => [.flag .help, .flag .verbose, .setting .maxInteger]

/-- The spellings that are known at a level. -/
def Level.spellings (level : Level) : List (String × Switch) :=
  (Level.switches level).flatMap fun s => s.spellings.map fun spelling => (spelling, s)

/-! ## Misuse -/

/-- What is wrong with a command line. -/
inductive Misuse
  | ambiguous (word : String) (candidates : List String)
  | ignoredValue (f : Flag) (value : String)
  | missingValue (s : Setting)
  | badInteger (value : String)
  | badFormat (value : String)
  | badCommand (word : String)
  | missingOperand (name : String)
  | unrecognized (words : List String)
deriving DecidableEq, Repr

/-- The complaint about a word that is none of several. -/
def choiceMessage (word : String) (choices : List String) : String :=
  "invalid choice: " ++ Text.quote word ++ " (choose from " ++
    ", ".intercalate (choices.map Text.quote) ++ ")"

/-- The words for what is wrong with a command line. -/
def Misuse.message : Misuse → String
  | .ambiguous word candidates =>
    "ambiguous option: " ++ word ++ " could match " ++ ", ".intercalate candidates
  | .ignoredValue f value =>
    "argument " ++ f.title ++ ": ignored explicit argument " ++ Text.quote value
  | .missingValue s => "argument " ++ s.title ++ ": expected one argument"
  | .badInteger value =>
    "argument " ++ Setting.maxInteger.title ++ ": invalid int value: " ++ Text.quote value
  | .badFormat value =>
    "argument " ++ Setting.format.title ++ ": " ++ choiceMessage value (Format.all.map Format.name)
  | .badCommand word =>
    "argument command: " ++ choiceMessage word (Command.all.map Command.name)
  | .missingOperand name => "the following arguments are required: " ++ name
  | .unrecognized words => "unrecognized arguments: " ++ " ".intercalate words

/-- How a command line can end before anything is read. -/
inductive Verdict
  | help (level : Level)
  | version
  | misuse (level : Level) (cause : Misuse)
deriving DecidableEq, Repr

/-! ## Telling words apart -/

/-- The word that divides switches from operands. -/
def dividerWord : String := "--"

/-- What a word can be. -/
inductive Reading
  | operand
  /-- The divider, behind which all words are operands. -/
  | divider
  /-- A switch and the characters that are joined to it, without an equals sign between them. -/
  | switch (s : Switch) (short : Bool) (attached : Option (List Char))
  /-- A word that looks like a switch, but none is known that it could be. -/
  | stranger
deriving DecidableEq, Repr

/-- A word and what it is. -/
structure Word where
  text : String
  reading : Reading
deriving DecidableEq, Repr

/-- Whether a spelling has one dash. -/
def isShort (spelling : List Char) : Bool :=
  match spelling with
  | '-' :: '-' :: _ => false
  | _ => true

/-- Whether characters are digits of any script, and at least one. -/
def isDigits (cs : List Char) : Bool := !cs.isEmpty && cs.all Text.isNumeral

/-- Whether a word is a negative number and so no switch: digits, or a point with digits behind it
and perhaps before it.  A line feed at the end does not count. -/
def isNegativeNumber (cs : List Char) : Bool :=
  match if cs.getLast? = some '\n' then cs.dropLast else cs with
  | '-' :: ds =>
    isDigits ds ||
      match ds.dropWhile Text.isNumeral with
      | '.' :: fraction => isDigits fraction
      | _ => false
  | _ => false

/-- The readings of a word as a switch that is cut short or joined with something. -/
def candidates (level : Level) (word : List Char) : List (String × Reading) :=
  let name := word.takeWhile (· ≠ '=')
  let attached : Option (List Char) :=
    match word.dropWhile (· ≠ '=') with
    | _ :: value => some value
    | [] => none
  (Level.spellings level).filterMap fun (spelling, s) =>
    if isShort word then
      if spelling.toList = word.take 2 then
        some (spelling, .switch s true (some (word.drop 2)))
      else
        none
    else if name.isPrefixOf spelling.toList then
      some (spelling, .switch s false attached)
    else
      none

/-- A word with a dash in front that is no switch spelled out in full. -/
def classifyDashed (level : Level) (word : String) : Except Misuse Reading :=
  match candidates level word.toList with
  | [(_, reading)] => .ok reading
  | [] =>
    if isNegativeNumber word.toList || word.toList.contains ' ' then .ok .operand
    else .ok .stranger
  | several => .error (.ambiguous word (several.map Prod.fst))

/-- What a word is if no divider comes before it. -/
def classify (level : Level) (word : String) : Except Misuse Reading :=
  match word.toList with
  | ['-'] => .ok .operand
  | '-' :: _ =>
    let known := Level.spellings level
    let name := word.toList.takeWhile (· ≠ '=')
    match known.lookup word with
    | some s => .ok (.switch s (isShort word.toList) none)
    | none =>
      match word.toList.dropWhile (· ≠ '='), known.lookup (String.ofList name) with
      | _ :: value, some s => .ok (.switch s (isShort name) (some value))
      | _, _ => classifyDashed level word
  | _ => .ok .operand

/-- What the words of a command line are. -/
def classifyAll (level : Level) : List String → Except Misuse (List Word)
  | [] => .ok []
  | w :: ws =>
    if w = dividerWord then .ok (⟨w, .divider⟩ :: ws.map fun text => ⟨text, .operand⟩)
    else do
      let reading ← classify level w
      let rest ← classifyAll level ws
      return ⟨w, reading⟩ :: rest

/-! ## Joined switches -/

/-- The switches in one word: those that are complete, and one whose value is the next word. -/
structure Cluster where
  complete : List Use := []
  awaiting : Option Setting := none
deriving DecidableEq, Repr

/-- A switch with nothing joined to it. -/
def Cluster.single : Switch → Cluster
  | .flag f => { complete := [.flag f] }
  | .setting s => { awaiting := some s }

/-- Puts a flag in front. -/
def Cluster.cons (f : Flag) (c : Cluster) : Cluster :=
  { c with complete := .flag f :: c.complete }

/-- The switches in a short switch with characters joined to it: the value of a setting, and
further switches behind a flag.  What is no switch there is a value, and a flag takes none. -/
def joined (level : Level) : Switch → List Char → Except Misuse Cluster
  | .setting s, cs => .ok { complete := [.setting s (String.ofList cs)] }
  | .flag f, [] => .error (.ignoredValue f "")
  | .flag f, c :: cs =>
    match (Level.spellings level).lookup (String.ofList ['-', c]) with
    | none => .error (.ignoredValue f (String.ofList (c :: cs)))
    | some next =>
      if cs.isEmpty then .ok (.cons f (.single next))
      else (Cluster.cons f) <$> joined level next cs

/-- The switches in one word. -/
def cluster (level : Level) (s : Switch) (short : Bool) :
    Option (List Char) → Except Misuse Cluster
  | none => .ok (.single s)
  | some cs =>
    if short then joined level s cs
    else
      match s with
      | .setting s => .ok { complete := [.setting s (String.ofList cs)] }
      | .flag f => .error (.ignoredValue f (String.ofList cs))

/-! ## Taking words -/

/-- What has been taken from a command line so far. -/
structure Tally where
  operand : Option String := none
  /-- The words behind the operand, where it takes them all. -/
  tail : List String := []
  /-- Whether the word before was the operand. -/
  fresh : Bool := false
  extras : List String := []
  verbose : Bool := false
  limits : Limits := {}
  format : Format := .sexp
deriving DecidableEq, Repr

/-- Leaves a word aside. -/
def Tally.leave (t : Tally) (word : String) : Tally :=
  { t with extras := t.extras ++ [word], fresh := false }

/-- The limit that a word sets.  The divider sets a blank. -/
def limitOfWord? (value : String) : Option Quantity :=
  if value = dividerWord then some .blank else (Text.readInteger? value.toList).map .number

/-- The format that a word sets.  The divider sets the one that goes without saying. -/
def formatOfWord? (value : String) : Option Format :=
  if value = dividerWord then some .sexp else Format.ofName? value

/-- Puts a switch into effect. -/
def Tally.apply (level : Level) (t : Tally) : Use → Except Verdict Tally
  | .flag .help => .error (.help level)
  | .flag .version => .error .version
  | .flag .verbose => .ok { t with verbose := true }
  | .setting .maxInteger value =>
    match limitOfWord? value with
    | some limit => .ok { t with limits := { t.limits with maxInteger := limit } }
    | none => .error (.misuse level (.badInteger value))
  | .setting .format value =>
    match formatOfWord? value with
    | some f => .ok { t with format := f }
    | none => .error (.misuse level (.badFormat value))

/-- Puts several switches into effect, one after the other. -/
def Tally.applyAll (level : Level) (t : Tally) : List Use → Except Verdict Tally
  | [] => .ok t
  | u :: us => do
    let t ← t.apply level u
    t.applyAll level us

/-- Puts the switches of a word into effect, and behind them the one whose value is the next word,
if there is one. -/
def Tally.applyCluster (level : Level) (t : Tally) (c : Cluster) (last : List Use) :
    Except Verdict Tally :=
  Tally.applyAll level { t with fresh := false } (c.complete ++ last)

/-- Takes the words of a command line from left to right.  The first operand of the tool itself
takes all words behind it, also if it is a divider with something behind it. -/
def take (level : Level) : List Word → Tally → Except Verdict Tally
  | [], t => .ok t
  | w :: ws, t =>
    match w.reading with
    | .stranger => take level ws (t.leave w.text)
    | .operand =>
      if t.operand.isSome then take level ws (t.leave w.text)
      else if level.isNone then .ok { t with operand := some w.text, tail := ws.map Word.text }
      else take level ws { t with operand := some w.text, fresh := true }
    | .divider =>
      if t.fresh then take level ws { t with fresh := false }
      else if t.operand.isSome || ws.isEmpty then take level ws (t.leave w.text)
      else if level.isNone then .ok { t with operand := some w.text, tail := ws.map Word.text }
      else take level ws t
    | .switch s short attached =>
      match cluster level s short attached with
      | .error cause => .error (.misuse level cause)
      | .ok c =>
        match c.awaiting with
        | none => do
          let t ← t.applyCluster level c []
          take level ws t
        | some last =>
          match ws with
          | ⟨value, .operand⟩ :: ws => do
            let t ← t.applyCluster level c [.setting last value]
            take level ws t
          | _ => .error (.misuse level (.missingValue last))

/-- Tells the words of a level apart and takes them. -/
def takeAll (level : Level) (words : List String) : Except Verdict Tally :=
  match classifyAll level words with
  | .error cause => .error (.misuse level cause)
  | .ok ws => take level ws {}

/-! ## Invocations -/

/-- What the tool is asked to do. -/
structure Invocation where
  command : Command
  file : String
  verbose : Bool
  limits : Limits
  format : Format
deriving DecidableEq, Repr

/-- Reads a command line. -/
def Invocation.ofArguments (words : List String) : Except Verdict Invocation := do
  let outer ← takeAll none words
  match outer.operand with
  | none => .error (.misuse none (.missingOperand "command"))
  | some name =>
    match Command.ofName? name with
    | none => .error (.misuse none (.badCommand name))
    | some command =>
      let inner ← takeAll (some command) outer.tail
      match inner.operand with
      | none => .error (.misuse (some command) (.missingOperand "FILE"))
      | some file =>
        let extras := outer.extras ++ inner.extras
        if extras.isEmpty then
          return ⟨command, file, inner.verbose, inner.limits, inner.format⟩
        else
          .error (.misuse none (.unrecognized extras))

end PlZero.Cli

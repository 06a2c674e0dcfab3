import PlZero.Diagnostic
import PlZero.Quantity
import PlZero.Token

/-! # What the parser complains about

The wording of every diagnostic about syntax.  A complaint about something that is missing is made
of what was wanted (`Wanted`), where it was wanted (`Place`) and the token that stands there
instead; the other complaints have a function each.
-/

namespace PlZero

/-- Something that the grammar asks for. -/
inductive Wanted
  /-- A particular keyword, operator or delimiter. -/
  | symbol (s : String)
  | identifier
  | number
  | procedureName
  | statement
  | expression
  | relation
deriving DecidableEq, Repr, Inhabited

/-- The words for what the grammar asks for. -/
def Wanted.text : Wanted → String
  | .symbol s => "'" ++ s ++ "'"
  | .identifier => "identifier"
  | .number => "number"
  | .procedureName => "procedure name"
  | .statement => "statement"
  | .expression => "expression"
  | .relation => "relational operator"

/-- The part of a program in which something is missing. -/
inductive Place
  | anywhere
  | endOfProgram
  | inConstant
  | afterConstantName (name : String)
  | constantValue (name : String)
  | betweenConstants
  | afterConstants
  | inVariable
  | betweenVariables
  | afterVariables
  | afterProcedureHeader
  | afterProcedureBody
  | assignment (name : String)
  | betweenStatements
  | afterCondition (keyword : String)
  /-- Right behind the given words. -/
  | after (words : String)
  /-- At the end of what `opener` has opened. -/
  | closing (opener : String) (loc : Location)
deriving DecidableEq, Repr, Inhabited

/-- The words for a place, to be put behind what is wanted. -/
def Place.text : Place → String
  | .anywhere => ""
  | .endOfProgram => " at end of program"
  | .inConstant => " in constant declaration"
  | .afterConstantName name => " after constant name '" ++ name ++ "'"
  | .constantValue name => " as the value of constant '" ++ name ++ "'"
  | .betweenConstants => " between constant declarations"
  | .afterConstants => " after constant declarations"
  | .inVariable => " in variable declaration"
  | .betweenVariables => " between variable names"
  | .afterVariables => " after variable declarations"
  | .afterProcedureHeader => " after procedure header"
  | .afterProcedureBody => " after procedure body"
  | .assignment name => " in assignment to '" ++ name ++ "'"
  | .betweenStatements => " between statements"
  | .afterCondition keyword => " after '" ++ keyword ++ "' condition"
  | .after words => " after '" ++ words ++ "'"
  | .closing opener _ => " to close '" ++ opener ++ "'"

/-- What there is to say about a place beyond its name: where it was opened. -/
def Place.notes : Place → List String
  | .closing opener loc => ["'" ++ opener ++ "' is at " ++ loc.text]
  | _ => []

/-- The sections of declarations, in the order in which a block has them. -/
inductive Section
  | const
  | var
  | procedure
deriving DecidableEq, Repr, Inhabited

namespace Section

/-- The keyword that starts a section. -/
def word : Section → String
  | .const => "const"
  | .var => "var"
  | .procedure => "procedure"

/-- The position of a section among the others. -/
def rank : Section → Nat
  | .const => 0
  | .var => 1
  | .procedure => 2

/-- The section that a token starts. -/
def ofToken? (t : Token) : Option Section :=
  if t.isKeyword "const" then some .const
  else if t.isKeyword "var" then some .var
  else if t.isKeyword "procedure" then some .procedure
  else none

/-- The later of two sections. -/
def latest (last : Option Section) (s : Section) : Section :=
  match last with
  | some l => if l.rank < s.rank then s else l
  | none => s

end Section

namespace Complaint

/-- What is found at a place: a token or the end of the input. -/
def found : Option Token → String
  | some t => t.describe
  | none => Diagnostic.endOfInput

/-- A token that belongs to no program is pointed out. -/
def strangerNotes : Option Token → List String
  | some t =>
    if t.kind = .unknown then [Text.quote t.lexeme ++ " is not a valid PL/0 character"] else []
  | none => []

/-- Something is missing before the token `next`, which stands at `loc`. -/
def missing (wanted : Wanted) (place : Place) (recovery : Recovery) (next : Option Token)
    (loc : Location) : Diagnostic where
  severity := .error
  message := "Expected " ++ wanted.text ++ place.text ++ " (got " ++ found next ++ ")"
  loc := some loc
  notes := place.notes ++ strangerNotes next
  expected := some wanted.text
  found := some (found next)
  recovery := some recovery

/-- An integer is greater than the greatest allowed. -/
def tooLarge (limit : Quantity) (t : Token) : Diagnostic where
  severity := .error
  message := "Integer literal " ++ Text.stripZeros t.lexeme ++ " exceeds the maximum of " ++
    limit.text
  loc := some t.loc
  expected := some ("integer <= " ++ limit.text)
  found := some t.describe
  recovery := some .saturated

/-- A section comes after one that it should precede, or a second time. -/
def misplacedSection (s last : Section) (t : Token) : Diagnostic where
  severity := .error
  message :=
    if s = last then "Duplicate '" ++ s.word ++ "' section; list all of them in one section"
    else "'" ++ s.word ++ "' declarations must come before '" ++ last.word ++ "' declarations"
  loc := some t.loc
  found := some t.describe
  recovery := some .accepted

/-- The words for a program that nests too deep. -/
def nestingMessage (limit : Int) : String :=
  "Nesting deeper than " ++ toString limit ++ " levels"

/-- The program nests deeper than allowed. -/
def tooDeep (limit : Int) (loc : Location) : Diagnostic where
  severity := .error
  message := nestingMessage limit
  loc := some loc
  recovery := some .abandoned

/-- Something follows the end of the program. -/
def trailing (t : Token) : Diagnostic where
  severity := .warning
  message := "Unexpected " ++ t.describe ++ " after end of program"
  loc := some t.loc
  found := some t.describe
  recovery := some .ignored

end Complaint

end PlZero

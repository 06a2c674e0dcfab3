import PlZero.Location

/-! # Diagnostics

A diagnostic is one message about a source text.  A message about its syntax also says what was
expected, what was found instead and how reading went on all the same.
-/

namespace PlZero

/-- How serious a message is. -/
inductive Severity
  | error
  | warning
  | info
deriving DecidableEq, Repr, Inhabited

/-- The word for a severity in messages. -/
def Severity.name : Severity → String
  | .error => "error"
  | .warning => "warning"
  | .info => "info"

/-- How reading went on after a problem. -/
inductive Recovery
  /-- A missing token was taken as read. -/
  | assumedPresent
  /-- Another token was taken in place of the expected one. -/
  | substituted
  /-- A token was skipped. -/
  | skipped
  /-- Something missing is marked as such in the tree. -/
  | placeholder
  /-- A declaration was left out of the tree. -/
  | omitted
  /-- A section out of order was taken as it is. -/
  | accepted
  /-- A number was cut down to the greatest allowed. -/
  | saturated
  /-- What follows the program was left aside. -/
  | ignored
  /-- The rest of the input was given up. -/
  | abandoned
deriving DecidableEq, Repr, Inhabited

/-- The words for a recovery in messages. -/
def Recovery.text : Recovery → String
  | .assumedPresent => "assumed present"
  | .substituted => "treated as the expected token"
  | .skipped => "token skipped"
  | .placeholder => "replaced by placeholder"
  | .omitted => "declaration omitted"
  | .accepted => "accepted as written"
  | .saturated => "clamped to the maximum"
  | .ignored => "ignored"
  | .abandoned => "rest of input skipped"

/-- One message about a source text. -/
structure Diagnostic where
  severity : Severity
  message : String
  loc : Option Location := none
  notes : List String := []
  expected : Option String := none
  found : Option String := none
  recovery : Option Recovery := none
deriving DecidableEq, Repr, Inhabited

namespace Diagnostic

/-- What stands for the token that was found when there was none. -/
def endOfInput : String := "end of input"

/-- Whether the input ended where something else was expected. -/
def atEnd (d : Diagnostic) : Bool := d.found = some endOfInput

/-- Whether the message is an error. -/
def isError (d : Diagnostic) : Bool := d.severity = .error

/-- The message as one line: place, severity, message and recovery. -/
def text (d : Diagnostic) : String :=
  (match d.loc with
    | some l => l.text ++ ": "
    | none => "") ++
  d.severity.name ++ ": " ++ d.message ++
  (match d.recovery with
    | some r => " (" ++ r.text ++ ")"
    | none => "")

end Diagnostic

end PlZero

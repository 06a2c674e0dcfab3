import PlZero.Diagnostic

/-! # Logs of diagnostics

A log holds diagnostics in the order in which they were reported.  It only ever grows.
-/

namespace PlZero

/-- The diagnostics reported so far, oldest first. -/
structure Log where
  entries : List Diagnostic := []
deriving DecidableEq, Repr, Inhabited

namespace Log

/-- The log before anything was reported. -/
def empty : Log := {}

/-- Reports one more diagnostic. -/
def add (l : Log) (d : Diagnostic) : Log := ⟨l.entries ++ [d]⟩

/-- The errors among the diagnostics. -/
def errors (l : Log) : List Diagnostic := l.entries.filter Diagnostic.isError

/-- The warnings among the diagnostics. -/
def warnings (l : Log) : List Diagnostic := l.entries.filter fun d => d.severity = .warning

/-- Whether an error has been reported. -/
def hasErrors (l : Log) : Bool := l.entries.any Diagnostic.isError

/-- All diagnostics, one to a line. -/
def text (l : Log) : String := "\n".intercalate (l.entries.map Diagnostic.text)

@[simp] theorem entries_add (l : Log) (d : Diagnostic) : (l.add d).entries = l.entries ++ [d] := rfl

end Log

end PlZero

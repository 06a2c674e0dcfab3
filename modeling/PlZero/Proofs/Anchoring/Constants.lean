import PlZero.Proofs.Anchoring.Order

/-! # Constants and their numbers

A constant speaks of two tokens, its name and its number, and has the location of the first alone.  Which
number it is follows from how constants are written: it stands two behind the name, with a sign in between.
Every constant of a tree has three such tokens in a row, in whatever section, block or procedure it was
declared and whatever could not be read around it.
-/

namespace PlZero

mutual

/-- The constants of a block, those of its procedures included. -/
def Block.constants : Block → List ConstDecl
  | ⟨cs, _, ps, _, _⟩ => cs ++ Procedure.constantsList ps

def Procedure.constants : Procedure → List ConstDecl
  | ⟨_, b, _⟩ => b.constants

def Procedure.constantsList : List Procedure → List ConstDecl
  | [] => []
  | p :: ps => p.constants ++ Procedure.constantsList ps

end

def Program.constants (p : Program) : List ConstDecl := p.block.constants

theorem Procedure.constantsList_append (ps ps' : List Procedure) :
    constantsList (ps ++ ps') = constantsList ps ++ constantsList ps' := by
  induction ps with
  | nil => rfl
  | cons p ps ih => simp [constantsList, ih]

/-- Three tokens in a row are the name of the constant, a sign and its number. -/
def ConstDecl.WrittenIn (limit : Int) (ts : List Token) (d : ConstDecl) : Prop :=
  ∃ name sign number, [name, sign, number] <:+: ts ∧
    Mention.Fits limit ⟨.word (.identifier d.name), some d.anchor⟩ name ∧
    (sign.isOperator "=" = true ∨ sign.isOperator ":=" = true) ∧
    Mention.Fits limit ⟨.integer d.value, none⟩ number

/-- All of the constants are written in the tokens. -/
def AllWritten (limit : Int) (cs : List ConstDecl) (ts : List Token) : Prop :=
  ∀ d ∈ cs, d.WrittenIn limit ts

namespace AllWritten

variable {limit : Int} {cs cs' : List ConstDecl} {ts ts' : List Token}

theorem nil : AllWritten limit [] ts := by
  intro d member
  cases member

theorem mono (written : AllWritten limit cs ts) (inside : ts <:+: ts') : AllWritten limit cs ts' := by
  intro d member
  obtain ⟨name, sign, number, row, fits⟩ := written d member
  exact ⟨name, sign, number, row.trans inside, fits⟩

/-- Of two lots of constants, the tokens of one are followed by those of the other. -/
theorem append {all : List ConstDecl} (first : AllWritten limit cs ts) (second : AllWritten limit cs' ts')
    (among : ∀ d ∈ all, d ∈ cs ∨ d ∈ cs') : AllWritten limit all (ts ++ ts') := by
  intro d member
  cases among d member with
  | inl before => exact first.mono (List.prefix_append ts ts').isInfix d before
  | inr behind => exact second.mono (List.suffix_append ts ts').isInfix d behind

theorem extend (more : List Token) (written : AllWritten limit cs ts) : AllWritten limit cs (ts ++ more) :=
  written.mono (List.prefix_append ts more).isInfix

end AllWritten

namespace Parser

variable {cx : Context} {limit : Int}

/-- The parser gives something whose constants are written in the tokens that it takes. -/
abbrev Writes {α : Type} (limit : Int) (constants : α → List ConstDecl) (p : Parser α) (r : List Token) :
    Prop :=
  Takes p r fun a taken => AllWritten limit (constants a) taken

theorem constSign_takes_sign (name : String) (r : List Token) :
    Takes (constSign cx name) r fun _ taken => ∃ sign : Token, taken = [sign] ∧
      (sign.isOperator "=" = true ∨ sign.isOperator ":=" = true) := by
  apply Takes.accept_bind
  · intro sign ts _ equals
    exact .pure ⟨sign, rfl, .inl equals⟩
  apply Takes.peek_bind
  · exact .malformed _ _
  intro sign ts _
  apply Takes.ite
  · intro assigns
    apply Takes.report_bind
    exact .take (fun _ _ => rfl) (.pure ⟨sign, rfl, .inr assigns⟩)
  · intro _
    exact .malformed _ _

theorem constDecl_writes (limited : cx.limits.maxInteger = .number limit) (r : List Token) :
    Takes (constDecl cx) r fun d taken => d.WrittenIn limit taken := by
  apply Takes.accept_bind
  · intro name ts _ identifier
    apply (constSign_takes_sign name.lexeme ts).bind
    rintro _ _ r' ⟨sign, rfl, isSign⟩
    apply Takes.accept_bind
    · intro number ts readable integer
      have integer : number.kind = .integer := by simpa using integer
      apply Takes.integerValue_bind readable integer limited
      intro n value
      have fits := fits_word limit (word_of_identifier (by simpa using identifier)) .const
      exact .pure ⟨name, sign, number, List.infix_refl _, fits, isSign, ⟨integer, n, value, rfl⟩, by simp⟩
    · exact .malformed _ _
  · exact .malformed _ _

theorem constSection_writes (limited : cx.limits.maxInteger = .number limit) (r : List Token) :
    Takes (constSection cx) r (AllWritten limit) := by
  refine declarations_takes ?_ ?_ .nil (constDecl_writes limited) _ _ r
  · intro ds before d taken written last
    have single : AllWritten limit [d] taken := by
      intro d' member
      rwa [List.mem_singleton.mp member]
    exact written.append single fun _ => List.mem_append.mp
  · intro ds before more written
    exact written.extend more

section Blocks

variable {blk : Parser Block} {stmt : Parser Stmt} {t : Token}

theorem procedureBody_writes (inner : ∀ r, Writes limit Block.constants blk r) {f : Block → List Procedure}
    (made : ∀ b, ∀ d ∈ Procedure.constantsList (f b), d ∈ b.constants) (r : List Token) :
    Writes limit Procedure.constantsList (do
        requireDelimiter cx ";" .afterProcedureHeader
        let b ← blk
        requireDelimiter cx ";" .afterProcedureBody
        return f b) r := by
  apply Takes.require.bind
  intro _ between r' _
  apply (inner r').bind
  intro b taken r'' written
  apply Takes.require.bind
  intro _ closing _ _
  apply Takes.pure
  intro d member
  have inside : taken <:+: between ++ (taken ++ (closing ++ [])) := ⟨between, closing, by simp⟩
  exact written.mono inside d (made b d member)

theorem procedure_writes (inner : ∀ r, Writes limit Block.constants blk r) (r : List Token) :
    Writes limit Procedure.constantsList (procedure cx blk t) r := by
  apply Takes.accept_bind
  · intro name ts _ _
    refine (procedureBody_writes inner (f := fun b => [⟨name.lexeme, b, t.loc⟩]) ?_ ts).mono ?_
    · intro b d member
      simpa [Procedure.constantsList, Procedure.constants] using member
    · intro ps taken written
      exact written.mono (List.suffix_cons name taken).isInfix
  · apply Takes.report_bind
    apply procedureBody_writes inner (f := fun _ => [])
    intro b d member
    cases member

/-- The constants that the sections of a block have declared so far. -/
def Declared.constants (d : Declared) : List ConstDecl := d.consts ++ Procedure.constantsList d.procedures

theorem nextSection_writes (limited : cx.limits.maxInteger = .number limit)
    (inner : ∀ r, Writes limit Block.constants blk r) (d : Declared) (before r : List Token)
    (written : AllWritten limit d.constants before) :
    Takes (nextSection cx blk d) r
      (Takes.Grows (fun d => AllWritten limit (Declared.constants d)) before) := by
  apply Takes.acceptAs_bind
  · intro t s ts _
    apply (checkOrder_takes d.last s ts).bind
    rintro _ _ r' rfl
    cases s with
    | const =>
      apply (constSection_writes limited r').bind
      intro cs taken _ added
      have added' : AllWritten limit cs (t :: taken) := added.mono (List.suffix_cons t taken).isInfix
      apply Takes.pure
      simp only [Takes.Grows, List.nil_append, List.append_nil]
      apply written.append added'
      simp only [Declared.constants, List.mem_append]
      tauto
    | var =>
      have vars : Grounds limit (fun vs => vs.flatMap VarDecl.mentions) (varSection cx) r' :=
        declarations_grounds varDecl_grounds _ _ r'
      apply vars.bind
      intro vs taken _ _
      exact .pure (written.extend _)
    | procedure =>
      apply (procedure_writes inner r').bind
      intro ps taken _ added
      have added' : AllWritten limit (Procedure.constantsList ps) (t :: taken) :=
        added.mono (List.suffix_cons t taken).isInfix
      apply Takes.pure
      simp only [Takes.Grows, List.nil_append, List.append_nil]
      apply written.append added'
      simp only [Declared.constants, Procedure.constantsList_append, List.mem_append]
      tauto
  · exact .pure rfl

theorem blockBody_writes (limited : cx.limits.maxInteger = .number limit)
    (innerBlock : ∀ r, Writes limit Block.constants blk r)
    (innerStmt : ∀ r, Takes stmt r fun _ _ => True) (r : List Token) :
    Writes limit Block.constants (blockBody cx blk stmt) r := by
  have start : AllWritten limit (Declared.constants {}) [] := .nil
  apply Takes.here_bind
  intro loc
  apply (Takes.repeatedly (nextSection_writes limited innerBlock) start r).bind
  intro d taken r' written
  apply (innerStmt r').bind
  intro body more r'' _
  apply Takes.pure
  simp only [Block.constants]
  exact written.extend _

end Blocks

theorem block_writes (limited : cx.limits.maxInteger = .number limit) (room : Nat) (r : List Token) :
    Writes limit Block.constants (block cx room) r := by
  induction room generalizing r with
  | zero => exact .tooDeep
  | succ room ih =>
    exact .deeper (blockBody_writes limited ih
      (fun r => (statement_grounds limited room r).mono fun _ _ _ => trivial) r)

theorem closedBlock_writes (limited : cx.limits.maxInteger = .number limit) (room : Nat) (r : List Token) :
    Writes limit Block.constants (closedBlock cx room) r := by
  apply (block_writes limited room r).bind
  intro b taken r' written
  apply Takes.require.bind
  intro _ closing _ _
  exact .pure (written.extend _)

/-- The constants of a program are written in its tokens. -/
theorem constants_of_parseTokens {nesting : Int} {file : String} {ts : List Token}
    (readable : ∀ t ∈ ts, t.Readable) {p : Program} {log : Log}
    (parsed : parseTokens ⟨.number limit, nesting⟩ file ts = .ok (p, log)) :
    AllWritten limit p.constants ts := by
  obtain ⟨_, _, taken, again, front, written⟩ :=
    parseTokens_takes (closedBlock_writes rfl nesting.toNat ts) (fun _ => .nil) readable
  obtain ⟨rfl, rfl⟩ := Prod.mk.inj (Except.ok.inj (again.symm.trans parsed))
  exact written.mono front.isInfix

end Parser

end PlZero

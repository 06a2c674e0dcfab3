import PlZero.Parser.Statement

/-! # Declarations, blocks and programs

    program := block '.'
    block   := ['const' identifier '=' number {',' identifier '=' number} ';']
               ['var' identifier {',' identifier} ';']
               {'procedure' identifier ';' block ';'}
               statement

Sections are taken in any order and number, so that no declaration is lost, but those out of order
are reported.  A declaration that cannot be read is left out, and reading goes on behind it.
-/

namespace PlZero

namespace Parser

variable {α : Type}

/-! ## Declarations -/

/-- The equals sign behind the name of a constant, or the assignment sign in its place. -/
def constSign (cx : Context) (name : String) : Parser Unit := do
  match ← accept (·.isOperator "=") with
  | some _ => return ()
  | none =>
    match ← peek with
    | some t =>
      if t.isOperator ":=" then
        report cx (.symbol "=") (.afterConstantName name) .substituted
        advance
      else
        malformed cx (.symbol "=") (.afterConstantName name)
    | none => malformed cx (.symbol "=") (.afterConstantName name)

/-- The declaration of a constant. -/
def constDecl (cx : Context) : Parser ConstDecl := do
  match ← accept (·.kind = .identifier) with
  | none => malformed cx .identifier .inConstant
  | some name =>
    constSign cx name.lexeme
    match ← accept (·.kind = .integer) with
    | none => malformed cx .number (.constantValue name.lexeme)
    | some number => return ⟨name.lexeme, ← integerValue cx number, name.loc⟩

/-- The declaration of a variable. -/
def varDecl (cx : Context) : Parser VarDecl := do
  match ← accept (·.kind = .identifier) with
  | none => malformed cx .identifier .inVariable
  | some name => return ⟨name.lexeme, name.loc⟩

/-! ## Sections -/

/-- Whether reading can go on at a token after a declaration that could not be read. -/
def isLandmark (t : Token) : Bool :=
  t.kind = .keyword || t.isDelimiter "," || t.isDelimiter ";" || t.isDelimiter "."

/-- One more declaration; if it cannot be read, it is left out and the next landmark is sought. -/
def declaration (decl : Parser α) (before : List α) : Parser (List α) := do
  match ← catching decl with
  | .ok d => return before ++ [d]
  | .error (.malformed _ _) =>
    skipWhile (!isLandmark ·)
    return before
  | .error h => halt h

/-- One more declaration of a section, if there is one.  Before a name the comma may be missing. -/
def nextDeclaration (cx : Context) (decl : Parser α) (between : Place) (before : List α) :
    Parser (Option (List α)) := do
  match ← accept (·.isDelimiter ",") with
  | some _ => return some (← declaration decl before)
  | none =>
    match ← peek with
    | some t =>
      if t.kind = .identifier then
        report cx (.symbol ",") between .assumedPresent
        return some (← declaration decl before)
      else
        return none
    | none => return none

/-- The declarations of a section and the semicolon behind them. -/
def declarations (cx : Context) (decl : Parser α) (between behind : Place) :
    Parser (List α) := do
  let first ← declaration decl []
  let all ← repeatedly (nextDeclaration cx decl between) first
  requireDelimiter cx ";" behind
  return all

/-- The section of constants behind its keyword. -/
def constSection (cx : Context) : Parser (List ConstDecl) :=
  declarations cx (constDecl cx) .betweenConstants .afterConstants

/-- The section of variables behind its keyword. -/
def varSection (cx : Context) : Parser (List VarDecl) :=
  declarations cx (varDecl cx) .betweenVariables .afterVariables

/-- A procedure behind its keyword `t`.  One without a name is read, but left out. -/
def procedure (cx : Context) (block : Parser Block) (t : Token) : Parser (List Procedure) := do
  let name ← accept (·.kind = .identifier)
  if name.isNone then
    report cx .procedureName (.after "procedure") .omitted
  requireDelimiter cx ";" .afterProcedureHeader
  let b ← block
  requireDelimiter cx ";" .afterProcedureBody
  match name with
  | some n => return [⟨n.lexeme, b, t.loc⟩]
  | none => return []

/-! ## Blocks -/

/-- What the sections of a block have declared so far, and the latest of them in order. -/
structure Declared where
  consts : List ConstDecl := []
  vars : List VarDecl := []
  procedures : List Procedure := []
  last : Option Section := none

/-- Complains about a section that does not come after all sections before it.  Of procedures there
may be any number. -/
def checkOrder (last : Option Section) (s : Section) (t : Token) : Parser Unit :=
  match last with
  | some l =>
    if l.rank < s.rank || s = .procedure then return ()
    else record (Complaint.misplacedSection s l t)
  | none => return ()

/-- One more section of a block, if there is one. -/
def nextSection (cx : Context) (block : Parser Block) (d : Declared) :
    Parser (Option Declared) := do
  match ← acceptAs Section.ofToken? with
  | none => return none
  | some (t, s) =>
    checkOrder d.last s t
    let d := { d with last := some (Section.latest d.last s) }
    match s with
    | .const => return some { d with consts := d.consts ++ (← constSection cx) }
    | .var => return some { d with vars := d.vars ++ (← varSection cx) }
    | .procedure => return some { d with procedures := d.procedures ++ (← procedure cx block t) }

/-- A block, given the parsers of the blocks and the statement inside. -/
def blockBody (cx : Context) (block : Parser Block) (stmt : Parser Stmt) : Parser Block := do
  let loc ← here cx
  let d ← repeatedly (nextSection cx block) {}
  let body ← stmt
  return ⟨d.consts, d.vars, d.procedures, body, loc⟩

/-- A block that has `room` levels of nesting left, itself counted. -/
def block (cx : Context) : Nat → Parser Block
  | 0 => tooDeep cx
  | room + 1 => deeper (blockBody cx (block cx room) (statement cx room))

/-! ## Programs -/

/-- The program that stands for one that was given up. -/
def abandoned (loc : Location) : Program := ⟨⟨[], [], [], .empty loc, loc⟩, loc⟩

/-- The period at the end of a program.  What follows it is reported once and left aside. -/
def endOfProgram (cx : Context) : Parser Unit := do
  requireDelimiter cx "." .endOfProgram
  match ← peek with
  | some t =>
    record (Complaint.trailing t)
    skipAll
  | none => return ()

/-- A program.  One that nests too deep is given up. -/
def program (cx : Context) (room : Nat) : Parser Program := do
  let loc ← here cx
  match ← catching (block cx room) with
  | .ok b =>
    endOfProgram cx
    return ⟨b, loc⟩
  | .error (.tooDeep limit place) =>
    record (Complaint.tooDeep limit place)
    skipAll
    return abandoned loc
  | .error h => halt h

end Parser

end PlZero

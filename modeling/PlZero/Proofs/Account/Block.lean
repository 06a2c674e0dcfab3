import PlZero.Parser.Block
import PlZero.Proofs.Account.Statement

/-! # Accounts of declarations and blocks

A declaration that cannot be read is the only thing that halts for another reason than nesting, and
that halt never leaves its section: `declaration` turns it into a gap, which has been complained
about.  The loop over sections keeps the words of a block in the order of its fields, because a
section out of order has been complained about too.
-/

namespace PlZero

/-! ## Lists of declarations -/

theorem commaWords_append {α : Type} (words : α → List Word) {ds : List α} (d : α) (some : ds ≠ []) :
    commaWords words (ds ++ [d]) = commaWords words ds ++ .delimiter "," :: words d := by
  cases ds with
  | nil => exact absurd rfl some
  | cons e es => simp [commaWords]

/-- Declarations, at least one of them and all of them good, whose words are `ws`. -/
structure Listed {α : Type} (words : α → List Word) (good : α → Prop) (ds : List α)
    (ws : List Word) : Prop where
  nonempty : ds ≠ []
  words : commaWords words ds = ws
  good : ∀ d ∈ ds, good d

theorem Listed.append {α : Type} {words : α → List Word} {good : α → Prop} {ds : List α}
    {ws : List Word} (listed : Listed words good ds ws) {d : α} (last : good d) :
    Listed words good (ds ++ [d]) (ws ++ .delimiter "," :: words d) where
  nonempty := by simp
  words := by rw [commaWords_append words d listed.nonempty, listed.words]
  good := by
    intro e member
    rcases List.mem_append.mp member with before | isLast
    · exact listed.good e before
    · rw [List.mem_singleton.mp isLast]
      exact last

theorem Listed.sectionWords {α : Type} {words : α → List Word} {good : α → Prop} {ds : List α}
    {ws : List Word} (listed : Listed words good ds ws) (keyword : String) :
    sectionWords keyword words ds = .keyword keyword :: ws ++ [.delimiter ";"] := by
  cases ds with
  | nil => exact absurd rfl listed.nonempty
  | cons d ds => rw [PlZero.sectionWords, listed.words]

/-- A constant that the grammar derives and the limit allows. -/
def ConstDecl.Good (limit : Int) (d : ConstDecl) : Prop := d.Grammatical ∧ d.value.AtMost limit

/-! ## Spelled blocks -/

/-- A block whose words are `ws` and which stays within the limits. -/
structure Block.Spelled (limit : Int) (room : Nat) (b : Block) (ws : List Word) : Prop where
  grammatical : b.Grammatical
  words : b.words = ws
  depth : b.depth ≤ room
  literals : ∀ v ∈ b.literals, v.AtMost limit

namespace Parser

/-- Sections whose words are `ws`, in the order of the fields, and which stay within the limits. -/
structure Declared.Spelled (limit : Int) (room : Nat) (d : Declared) (ws : List Word) : Prop where
  words : sectionWords "const" ConstDecl.words d.consts ++
    sectionWords "var" VarDecl.words d.vars ++ Procedure.wordsList d.procedures = ws
  noConsts : d.last = none → d.consts = []
  noVars : d.last = none ∨ d.last = some .const → d.vars = []
  noProcedures : d.last ≠ some .procedure → d.procedures = []
  consts : ∀ c ∈ d.consts, c.Good limit
  procedures : ∀ p ∈ d.procedures, p.block.Grammatical ∧ p.block.depth ≤ room ∧
    ∀ v ∈ p.block.literals, v.AtMost limit

variable {α : Type} {cx : Context} {limit : Int} {room : Nat}

/-! ## Declarations -/

theorem constSign_accounts (name : String) (r : List Token) :
    Accounts cx Halt.IsMalformed (constSign cx name) r fun _ ws _ => ws = [.operator "="] := by
  refine .accept_bind (fun t ts _ equals => .pure ?_) fun _ => .peek_bind ?_
  · rw [Token.word_eq_operator_iff.mpr equals]
  cases r with
  | nil => exact .malformed _ _
  | cons t ts =>
    simp only [List.head?_cons]
    split
    · exact .replace "=" (.afterConstantName name) (by decide) (fun _ _ => by simp)
        (.pure (a := ()) rfl)
    · exact .malformed _ _

theorem constDecl_accounts (limited : cx.limits.maxInteger = .number limit) (r : List Token) :
    Accounts cx Halt.IsMalformed (constDecl cx) r fun d ws _ => d.words = ws ∧ d.Good limit := by
  refine .accept_bind (fun name ts _ identifier => ?_) fun _ => .malformed _ _
  rw [Token.word_eq_identifier_iff.mpr ⟨by simpa using identifier, rfl⟩]
  refine (constSign_accounts name.lexeme ts).bind fun _ r' => ?_
  cases r' with
  | nil => exact .same (fun _ _ => by simp) (.malformed .number (.constantValue name.lexeme))
  | cons t ts =>
    by_cases integer : t.kind = .integer
    · refine .takeInteger limited integer (f := fun v => pure ⟨name.lexeme, v, name.loc⟩)
        (fun _ _ => by simp [accept, integer]) fun v => .pure ?_
      rintro ⟨n, rfl, le, word⟩ _ rfl
      rw [word]
      exact ⟨rfl, ⟨n, Int.natCast_nonneg n, rfl⟩, le⟩
    · exact .same (fun _ _ => by simp [accept, integer])
        (.malformed .number (.constantValue name.lexeme))

theorem varDecl_accounts (r : List Token) :
    Accounts cx Halt.IsMalformed (varDecl cx) r fun d ws _ => d.words = ws ∧ True := by
  refine .accept_bind (fun name ts _ identifier => .pure ?_) fun _ => .malformed _ _
  rw [Token.word_eq_identifier_iff.mpr ⟨by simpa using identifier, rfl⟩]
  exact ⟨rfl, trivial⟩

/-! ## Sections -/

/-- A declaration is added, or it is left out under protest; it never halts. -/
theorem declaration_accounts {allowed : Halt → Prop} {decl : Parser α} {r : List Token}
    {P : α → List Word → Prop}
    (account : Accounts cx Halt.IsMalformed decl r fun d ws _ => P d ws) (before : List α) :
    Accounts cx allowed (declaration decl before) r fun ds ws _ =>
      ∃ d, ds = before ++ [d] ∧ P d ws := by
  intro readable depth log
  have result := account readable depth log
  cases run : decl ⟨r, depth, log⟩ with
  | ok d s =>
    rw [run] at result
    obtain ⟨level, ds, grown, trail, spelled⟩ := result
    simp only [declaration, catching, bind_apply, run, pure_apply]
    refine ⟨level, ds, grown, trail, fun mendable => ?_⟩
    obtain ⟨ws, mended, holds⟩ := spelled mendable
    exact ⟨ws, mended, d, rfl, holds⟩
  | error h s =>
    rw [run] at result
    obtain ⟨level, ds, grown, trail, allowed, reason⟩ := result
    cases reason with
    | tooDeep => exact allowed.elim
    | malformed wanted place ds r' =>
      simp only [declaration, catching, bind_apply, run, pure_apply]
      refine ⟨level, _, grown, ?_, fun mendable => ?_⟩
      -- the search for a landmark goes on with the same trail, and the omission is on record
      · have skipped := trail.trans (.of_suffix (List.dropWhile_suffix (!isLandmark ·)))
        rwa [List.append_nil] at skipped
      · have omitted := mendable (missingAt cx wanted place .omitted s.rest) (by simp)
        simp at omitted

theorem nextDeclaration_accounts {decl : Parser α} {words : α → List Word} {good : α → Prop}
    (account : ∀ r, Accounts cx Halt.IsMalformed decl r fun d ws _ => words d = ws ∧ good d)
    (between : Place) (before : List α) (r : List Token) :
    Accounts cx Halt.IsTooDeep (nextDeclaration cx decl between before) r fun o ws _ =>
      Accounts.Extends (Listed words good) before o ws := by
  have next : ∀ r, Accounts cx Halt.IsTooDeep (do return some (← declaration decl before)) r
      fun o ws _ => Accounts.Extends (Listed words good) before o (.delimiter "," :: ws) := by
    intro r
    refine (declaration_accounts (account r) before).bind fun all r' => .pure ?_
    rintro _ ⟨d, rfl, rfl, last⟩ ws listed
    rw [List.append_nil]
    exact listed.append last
  refine .accept_bind (fun t ts _ comma => ?_) fun _ => .peek_bind ?_
  · rw [Token.word_eq_delimiter_iff.mpr comma]
    exact next ts
  cases r with
  | nil => exact .pure rfl
  | cons t ts =>
    by_cases identifier : t.kind = .identifier
    · exact .insert "," between (by decide) (fun _ _ => by simp [identifier]) (next (t :: ts))
    · exact .same (fun _ _ => by simp [identifier]) (.pure (a := none) rfl)

theorem declarations_accounts {decl : Parser α} {words : α → List Word} {good : α → Prop}
    (account : ∀ r, Accounts cx Halt.IsMalformed decl r fun d ws _ => words d = ws ∧ good d)
    (between behind : Place) (r : List Token) :
    Accounts cx Halt.IsTooDeep (declarations cx decl between behind) r fun ds ws _ =>
      ∃ ws', Listed words good ds ws' ∧ ws = ws' ++ [.delimiter ";"] := by
  refine (declaration_accounts (account r) []).bind fun first r' => ?_
  refine (Accounts.repeatedly (nextDeclaration_accounts account between) first r').bind
    fun all r'' => ?_
  refine (Accounts.requireDelimiter ";" (by decide)).bind fun _ behind => .pure ?_
  rintro _ rfl ws onwards _ ⟨d, rfl, rfl, single⟩
  have listed : Listed words good [d] (words d) := ⟨by simp, by simp [commaWords], by simpa using single⟩
  exact ⟨_, onwards _ listed, by simp⟩

theorem procedure_accounts {block : Parser Block}
    (account : ∀ r, Accounts cx Halt.IsTooDeep block r fun b ws _ => b.Spelled limit room ws)
    (t : Token) (r : List Token) :
    Accounts cx Halt.IsTooDeep (procedure cx block t) r fun ps ws _ =>
      ∃ name b wsB, ps = [⟨name, b, t.loc⟩] ∧ b.Spelled limit room wsB ∧
        ws = .identifier name :: .delimiter ";" :: wsB ++ [.delimiter ";"] := by
  refine .accept_bind (fun name ts _ identifier => ?_) fun _ => ?_
  · rw [Token.word_eq_identifier_iff.mpr ⟨by simpa using identifier, rfl⟩]
    refine (Accounts.requireDelimiter ";" (by decide)).bind fun _ r' => ?_
    refine (account r').bind fun b r'' => ?_
    refine (Accounts.requireDelimiter ";" (by decide)).bind fun _ behind => .pure ?_
    rintro _ rfl wsB spelled _ rfl
    exact ⟨name.lexeme, b, wsB, rfl, spelled, by simp⟩
  -- without a name the procedure is lost, but what it does is still accounted for
  · refine .report_bind (by simp) ?_
    refine (Accounts.requireDelimiter ";" (by decide)).bind fun _ r' => ?_
    refine (account r').bind fun b r'' => ?_
    refine (Accounts.requireDelimiter ";" (by decide)).bind fun _ behind => .pure ?_
    intros
    trivial

/-! ## Blocks -/

/-- Whether a section may come behind the latest one before it without a complaint. -/
def InOrder (last : Option Section) (s : Section) : Prop :=
  ∀ l, last = some l → l.rank < s.rank ∨ s = .procedure

theorem checkOrder_apply_of_inOrder {last : Option Section} {s : Section} (t : Token)
    (inOrder : InOrder last s) (state : State) : checkOrder last s t state = .ok () state := by
  cases last with
  | none => rfl
  | some l => simp [checkOrder, inOrder l rfl]

theorem checkOrder_apply_of_not_inOrder {last : Option Section} {s : Section} (t : Token)
    (outOfOrder : ¬ InOrder last s) : ∃ l, ∀ state : State,
      checkOrder last s t state =
        .ok () { state with log := state.log.add (Complaint.misplacedSection s l t) } := by
  cases last with
  | none => exact absurd (fun _ impossible => by cases impossible) outOfOrder
  | some l =>
    have late : ¬ (l.rank < s.rank ∨ s = .procedure) := by
      intro fine
      refine outOfOrder fun l' same => ?_
      cases same
      exact fine
    refine ⟨l, fun state => ?_⟩
    simp [checkOrder, late]
    rfl

/-- The keyword of a section that is taken, with a complaint if it comes too late. -/
theorem Accounts.takeSection {allowed : Halt → Prop} {p : Parser α} {t : Token} {ts : List Token}
    (last : Option Section) (s : Section) {f : Unit → Parser α}
    {Q : α → List Word → List Token → Prop}
    (run : ∀ depth log, p ⟨t :: ts, depth, log⟩ = (checkOrder last s t >>= f) ⟨ts, depth, log⟩)
    (account : Accounts cx allowed (f ()) ts fun a ws r => InOrder last s → Q a (t.word :: ws) r) :
    Accounts cx allowed p (t :: ts) Q := by
  by_cases inOrder : InOrder last s
  · refine .take (q := f ()) (fun depth log => ?_)
      (account.mono fun a ws r holds => holds inOrder)
    simp [run, checkOrder_apply_of_inOrder t inOrder]
  · obtain ⟨l, complaint⟩ := checkOrder_apply_of_not_inOrder t inOrder
    refine .fault (q := f ()) (fun depth log => ?_) (.misplaced s l)
      (by simp [Diagnostic.Mendable, Complaint.misplacedSection])
      (account.mono fun _ _ _ _ => trivial)
    simp [run, complaint]

namespace Declared.Spelled

variable {d : Declared} {ws : List Word}

theorem start : Declared.Spelled limit room {} [] where
  words := rfl
  noConsts := fun _ => rfl
  noVars := fun _ => rfl
  noProcedures := fun _ => rfl
  consts := by simp
  procedures := by simp

/-- Constants come first. -/
theorem addConsts (spelled : d.Spelled limit room ws) (inOrder : InOrder d.last .const)
    {cs : List ConstDecl} {wsC : List Word}
    (listed : Listed ConstDecl.words (ConstDecl.Good limit) cs wsC) :
    Declared.Spelled limit room
      { d with last := some (Section.latest d.last .const), consts := d.consts ++ cs }
      (ws ++ .keyword "const" :: wsC ++ [.delimiter ";"]) := by
  -- only the very first section can hold constants without a complaint
  have first : d.last = none := by
    cases last : d.last with
    | none => rfl
    | some l =>
      have fine := inOrder l last
      cases l <;> simp [Section.rank] at fine
  have noConsts := spelled.noConsts first
  have noVars := spelled.noVars (.inl first)
  have noProcedures := spelled.noProcedures (by simp [first])
  have words := spelled.words
  simp only [noConsts, noVars, noProcedures, sectionWords_nil, Procedure.wordsList,
    List.append_nil] at words
  refine ⟨?_, by simp, fun _ => noVars, fun _ => noProcedures, ?_, spelled.procedures⟩
  · simp [noConsts, noVars, noProcedures, ← words, listed.sectionWords, Procedure.wordsList]
  · simpa [noConsts] using listed.good

/-- Variables come behind constants. -/
theorem addVars (spelled : d.Spelled limit room ws) (inOrder : InOrder d.last .var)
    {vs : List VarDecl} {wsV : List Word} (listed : Listed VarDecl.words (fun _ => True) vs wsV) :
    Declared.Spelled limit room
      { d with last := some (Section.latest d.last .var), vars := d.vars ++ vs }
      (ws ++ .keyword "var" :: wsV ++ [.delimiter ";"]) := by
  -- so no procedures have come yet, and their words are still empty
  have early : d.last = none ∨ d.last = some .const := by
    cases last : d.last with
    | none => exact .inl rfl
    | some l =>
      have fine := inOrder l last
      cases l <;> simp [Section.rank] at fine ⊢
  have latest : Section.latest d.last .var = .var := by
    rcases early with last | last <;> simp [last, Section.latest, Section.rank]
  have noVars := spelled.noVars early
  have noProcedures : d.procedures = [] := by
    apply spelled.noProcedures
    rcases early with last | last <;> simp [last]
  have words := spelled.words
  simp only [noVars, noProcedures, sectionWords_nil, Procedure.wordsList, List.append_nil] at words
  refine ⟨?_, by simp, by simp [latest], fun _ => noProcedures, spelled.consts, spelled.procedures⟩
  simp [noVars, noProcedures, ← words, listed.sectionWords, Procedure.wordsList]

/-- Procedures come last, any number of them. -/
theorem addProcedure (spelled : d.Spelled limit room ws) {name : String} {b : Block}
    {wsB : List Word} (block : b.Spelled limit room wsB) (loc : Location) :
    Declared.Spelled limit room
      { d with
        last := some (Section.latest d.last .procedure)
        procedures := d.procedures ++ [⟨name, b, loc⟩] }
      (ws ++ .keyword "procedure" :: .identifier name :: .delimiter ";" :: wsB ++
        [.delimiter ";"]) := by
  have latest : Section.latest d.last .procedure = .procedure := by
    cases last : d.last with
    | none => rfl
    | some l => cases l <;> rfl
  refine ⟨?_, by simp, by simp [latest], by simp [latest], spelled.consts, fun p member => ?_⟩
  · simp [← spelled.words, Procedure.wordsList, Procedure.words, block.words]
  · rcases List.mem_append.mp member with before | isLast
    · exact spelled.procedures p before
    · rw [List.mem_singleton.mp isLast]
      exact ⟨block.grammatical, block.depth, block.literals⟩

end Declared.Spelled

theorem nextSection_accounts (limited : cx.limits.maxInteger = .number limit) {block : Parser Block}
    (account : ∀ r, Accounts cx Halt.IsTooDeep block r fun b ws _ => b.Spelled limit room ws)
    (d : Declared) (r : List Token) :
    Accounts cx Halt.IsTooDeep (nextSection cx block d) r fun o ws _ =>
      Accounts.Extends (Declared.Spelled limit room) d o ws := by
  cases r with
  | nil => exact .same (fun _ _ => by simp [nextSection]) (.pure (a := none) rfl)
  | cons t ts =>
    cases reading : Section.ofToken? t with
    | none =>
      exact .same (fun _ _ => by simp [nextSection, acceptAs_cons_of_none reading])
        (.pure (a := none) rfl)
    | some s =>
      have word := Token.word_eq_keyword_iff.mpr (Section.ofToken?_eq_some_iff.mp reading)
      cases s with
      | const =>
        refine .takeSection d.last .const (f := fun _ => do
            let cs ← constSection cx
            return some { d with
              last := some (Section.latest d.last .const)
              consts := d.consts ++ cs })
          (fun _ _ => by simp [nextSection, acceptAs_cons_of_some reading])
          ((declarations_accounts (constDecl_accounts limited) _ _ ts).bind fun cs r' => .pure ?_)
        rintro _ ⟨wsC, listed, rfl⟩ inOrder before spelled
        rw [word]
        simpa [Section.word] using spelled.addConsts inOrder listed
      | var =>
        refine .takeSection d.last .var (f := fun _ => do
            let vs ← varSection cx
            return some { d with
              last := some (Section.latest d.last .var)
              vars := d.vars ++ vs })
          (fun _ _ => by simp [nextSection, acceptAs_cons_of_some reading])
          ((declarations_accounts varDecl_accounts _ _ ts).bind fun vs r' => .pure ?_)
        rintro _ ⟨wsV, listed, rfl⟩ inOrder before spelled
        rw [word]
        simpa [Section.word] using spelled.addVars inOrder listed
      | procedure =>
        refine .takeSection d.last .procedure (f := fun _ => do
            let ps ← procedure cx block t
            return some { d with
              last := some (Section.latest d.last .procedure)
              procedures := d.procedures ++ ps })
          (fun _ _ => by simp [nextSection, acceptAs_cons_of_some reading])
          ((procedure_accounts account t ts).bind fun ps r' => .pure ?_)
        rintro _ ⟨name, b, wsB, rfl, block, rfl⟩ inOrder before spelled
        rw [word]
        simpa [Section.word] using spelled.addProcedure block t.loc

theorem blockBody_accounts (limited : cx.limits.maxInteger = .number limit) {block : Parser Block}
    {stmt : Parser Stmt}
    (account : ∀ r, Accounts cx Halt.IsTooDeep block r fun b ws _ => b.Spelled limit room ws)
    (statement : ∀ r, Accounts cx Halt.IsTooDeep stmt r (Stmt.Spelled limit room))
    (r : List Token) :
    Accounts cx Halt.IsTooDeep (blockBody cx block stmt) r fun b ws _ =>
      b.Spelled limit (room + 1) ws := by
  refine .here_bind ?_
  refine (Accounts.repeatedly (nextSection_accounts limited account) {} r).bind fun d r' => ?_
  refine (statement r').bind fun body r'' => .pure fun ws spelled before onwards => ?_
  have declared := onwards [] .start
  refine ⟨.mk (fun c member => (declared.consts c member).1)
    (fun p member => (declared.procedures p member).1) spelled.grammatical, ?_, ?_, ?_⟩
  · simp [Block.words, declared.words, spelled.words]
  · have procedures : Procedure.depthList d.procedures ≤ room :=
      Procedure.depthList_le_iff.mpr fun p member => p.depth_eq ▸ (declared.procedures p member).2.1
    exact Nat.succ_le_succ (Nat.max_le.mpr ⟨procedures, spelled.depth⟩)
  · intro v member
    simp only [Block.literals, List.append_assoc, List.mem_append, List.mem_map,
      Procedure.mem_literalsList] at member
    rcases member with ⟨c, inConsts, rfl⟩ | ⟨p, inProcedures, member⟩ | inBody
    · exact (declared.consts c inConsts).2
    · exact (declared.procedures p inProcedures).2.2 v (p.literals_eq ▸ member)
    · exact spelled.literals v inBody

theorem block_accounts (limited : cx.limits.maxInteger = .number limit) (room : Nat)
    (r : List Token) :
    Accounts cx Halt.IsTooDeep (block cx room) r fun b ws _ => b.Spelled limit room ws := by
  induction room generalizing r with
  | zero => exact .tooDeep
  | succ room ih => exact .deeper (blockBody_accounts limited ih (statement_accounts limited room) r)

end Parser

end PlZero

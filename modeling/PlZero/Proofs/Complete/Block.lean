import PlZero.Proofs.Account.Block
import PlZero.Proofs.Complete.Statement

/-! # Grammatical blocks are read back

Tokens that stand for the words of a grammatical block are read as that block, if a semicolon or a
period stands behind them.  The sections come in the order of the fields, so the loop over sections
takes at most one turn for the constants, at most one for the variables and then one for each
procedure, none of them with a complaint.
-/

namespace PlZero

namespace Parser

variable {α : Type} {cx : Context} {limit : Int} {fits : Prop} {ts tail : List Token} {t : Token}

/-! ## Declarations -/

theorem constDecl_reads (limited : cx.limits.maxInteger = .number limit) {d : ConstDecl}
    (good : d.Good limit) (written : ts.map Token.word = d.words) :
    Reads cx fits (constDecl cx) ts tail fun d' => d'.bare = d.bare := by
  obtain ⟨⟨n, natural, value⟩, within⟩ := good
  obtain ⟨name, ts, rfl, word, behind⟩ := List.map_eq_cons_iff.mp written
  obtain ⟨sign, ts, rfl, equals, last⟩ := List.map_eq_cons_iff.mp behind
  obtain ⟨number, rfl, digits⟩ := List.map_eq_singleton_iff.mp last
  obtain ⟨identifier, named⟩ := Token.word_eq_identifier_iff.mp word
  rw [Token.word_eq_operator_iff] at equals
  rw [value] at digits within
  obtain ⟨integer, read⟩ := integerValue_of_word limited natural digits within
  have signed : Reads cx fits (constSign cx name.lexeme) [sign] ([number] ++ tail) fun _ => True :=
    .accept_bind_of_pos equals (.pure trivial)
  refine .accept_bind_of_pos (by simpa using identifier) ?_
  -- the sign is a parser of its own, so the tokens are split behind it
  rw [show [sign, number] = [sign] ++ [number] from rfl]
  refine .bind signed fun _ _ => ?_
  refine .accept_bind_of_pos (by simpa using integer) ?_
  simp only [read]
  exact .bind_pure (.pure rfl) fun v same => by simp [ConstDecl.bare, named, value, same]

theorem varDecl_reads {d : VarDecl} (written : ts.map Token.word = d.words) :
    Reads cx fits (varDecl cx) ts tail fun d' => d'.bare = d.bare := by
  obtain ⟨name, rfl, word⟩ := List.map_eq_singleton_iff.mp written
  obtain ⟨identifier, named⟩ := Token.word_eq_identifier_iff.mp word
  exact .accept_bind_of_pos (by simpa using identifier) (.pure (by simp [VarDecl.bare, named]))

theorem declaration_reads {decl : Parser α} {P : α → Prop} (reads : Reads cx fits decl ts tail P)
    (before : List α) :
    Reads cx fits (declaration decl before) ts tail fun all => ∃ d, all = before ++ [d] ∧ P d := by
  intro depth log
  rcases reads depth log with ⟨d, run, holds⟩ | ⟨overflow, loc, r, level, run⟩
  · exact .inl ⟨before ++ [d], by simp [declaration, catching, run], d, rfl, holds⟩
  · exact .inr ⟨overflow, loc, r, level, by simp [declaration, catching, run]⟩

/-! ## Sections -/

theorem nextDeclaration_row {decl : Parser α} {words : α → List Word} {bare : α → α} {ds : List α}
    (each : ∀ d ∈ ds, ∀ ts tail, ts.map Token.word = words d →
      Reads cx fits decl ts tail fun d' => bare d' = bare d)
    (between : Place) (before : List α) (behind : List Token)
    (written : behind.map Token.word = ds.flatMap fun d => .delimiter "," :: words d) :
    Row cx fits (nextDeclaration cx decl between) before behind tail fun all =>
      all.map bare = before.map bare ++ ds.map bare := by
  induction ds generalizing before behind with
  | nil =>
    obtain rfl := List.map_eq_nil_iff.mp written
    exact .refl (by simp)
  | cons d ds ih =>
    rw [List.flatMap_cons] at written
    obtain ⟨first, behind, rfl, writtenFirst, writtenBehind⟩ := List.map_eq_append_iff.mp written
    obtain ⟨t, ts, rfl, comma, writtenDecl⟩ := List.map_eq_cons_iff.mp writtenFirst
    have reads := declaration_reads (each d (by simp) ts (behind ++ tail) writtenDecl) before
    refine .trans (P := fun all => all.map bare = before.map bare ++ [bare d])
      (.single ?_ (by simp)) fun all same => ?_
    · refine .accept_bind_of_pos (Token.word_eq_delimiter_iff.mp comma) (.bind_pure reads ?_)
      rintro _ ⟨d', rfl, same⟩
      exact ⟨_, rfl, by simp [same]⟩
    · have row := ih (fun d' member => each d' (List.mem_cons_of_mem _ member)) all behind
        writtenBehind
      simpa [same] using row

theorem nextDeclaration_declined {decl : Parser α} (between : Place)
    (semicolon : t.isDelimiter ";" = true) (before : List α) (depth : Nat) (log : Log) :
    nextDeclaration cx decl between before ⟨t :: ts, depth, log⟩ =
      .ok none ⟨t :: ts, depth, log⟩ := by
  have comma : t.isDelimiter "," = false := by grind [Token.isDelimiter]
  have noName : t.kind ≠ .identifier := by grind [Token.isDelimiter]
  simp [nextDeclaration, accept, comma, noName]

theorem declarations_reads {decl : Parser α} {words : α → List Word} {bare : α → α} {d : α}
    {ds : List α} (each : ∀ d' ∈ d :: ds, ∀ ts tail, ts.map Token.word = words d' →
      Reads cx fits decl ts tail fun d'' => bare d'' = bare d')
    (between behind : Place)
    (written : ts.map Token.word = commaWords words (d :: ds) ++ [.delimiter ";"]) :
    Reads cx fits (declarations cx decl between behind) ts tail fun all =>
      all.map bare = (d :: ds).map bare := by
  simp only [commaWords, List.append_assoc] at written
  obtain ⟨first, ts, rfl, writtenFirst, others⟩ := List.map_eq_append_iff.mp written
  obtain ⟨more, ts, rfl, writtenMore, last⟩ := List.map_eq_append_iff.mp others
  obtain ⟨t, rfl, semicolon⟩ := List.map_eq_singleton_iff.mp last
  rw [Token.word_eq_delimiter_iff] at semicolon
  refine .bind (declaration_reads (each d (by simp) first _ writtenFirst) []) ?_
  rintro _ ⟨d', rfl, same⟩
  have row : Row cx fits (nextDeclaration cx decl between) ([] ++ [d']) more (t :: tail) fun all =>
      all.map bare = ([] ++ [d']).map bare ++ ds.map bare :=
    nextDeclaration_row (fun d' member => each d' (List.mem_cons_of_mem _ member)) between _ more
      writtenMore
  refine .bind (row.reads fun all depth log _ =>
    nextDeclaration_declined between semicolon all depth log) fun all bares => ?_
  exact .require_bind semicolon (.pure (by simp [bares, same]))

/-! ## Blocks -/

/-- A semicolon or a period is next, if anything is. -/
def EndsBlock (tail : List Token) : Prop :=
  ∀ t ∈ tail.head?, t.isDelimiter ";" = true ∨ t.isDelimiter "." = true

theorem EndsBlock.follows (ends : EndsBlock tail) (s : Stmt) : Follows s tail := by
  intro t isHead
  have delimiter := ends t isHead
  refine ⟨?_, fun _ => ?_⟩
  · rcases delimiter with semicolon | period
    · simp [followsStatement, semicolon]
    · simp [followsStatement, period]
  · grind [Token.isElse, Token.isDelimiter]

theorem endsBlock_cons :
    EndsBlock (t :: ts) ↔ t.isDelimiter ";" = true ∨ t.isDelimiter "." = true := by
  simp [EndsBlock]

/-- The parser reads the block back from its words. -/
def ReadsBlock (cx : Context) (fits : Prop) (p : Parser Block) (b : Block) : Prop :=
  ∀ ts tail, ts.map Token.word = b.words → EndsBlock tail →
    Reads cx fits p ts tail fun b' => b'.bare = b.bare

variable {block : Parser Block}

theorem procedure_reads {p : Procedure} (inner : ReadsBlock cx fits block p.block) (t : Token)
    (written : ts.map Token.word =
      .identifier p.name :: .delimiter ";" :: (p.block.words ++ [.delimiter ";"])) :
    Reads cx fits (procedure cx block t) ts tail fun ps => ps.map Procedure.bare = [p.bare] := by
  obtain ⟨name, ts, rfl, word, header⟩ := List.map_eq_cons_iff.mp written
  obtain ⟨t', ts, rfl, first, inside⟩ := List.map_eq_cons_iff.mp header
  obtain ⟨body, ts, rfl, writtenBody, last⟩ := List.map_eq_append_iff.mp inside
  obtain ⟨t'', rfl, second⟩ := List.map_eq_singleton_iff.mp last
  rw [Token.word_eq_delimiter_iff] at first second
  obtain ⟨identifier, named⟩ := Token.word_eq_identifier_iff.mp word
  refine .accept_bind_of_pos (by simpa using identifier) (.require_bind first ?_)
  refine .bind (inner body _ writtenBody (endsBlock_cons.mpr (.inl second))) fun b bare => ?_
  refine .require_bind second (.pure ?_)
  simp [Procedure.bare_eq, named, bare]

theorem Reads.checkOrder_bind {last : Option Section} {s : Section} {f : Unit → Parser α}
    {P : α → Prop} (inOrder : InOrder last s) (reads : Reads cx fits (f ()) ts tail P) :
    Reads cx fits (checkOrder last s t >>= f) ts tail P :=
  same (fun _ _ => by simp [checkOrder_apply_of_inOrder t inOrder]) reads

/-- What the sections taken so far have declared. -/
structure Declared.Bare (d : Declared) (cs : List ConstDecl) (vs : List VarDecl)
    (ps : List Procedure) : Prop where
  consts : d.consts.map ConstDecl.bare = cs.map ConstDecl.bare
  vars : d.vars.map VarDecl.bare = vs.map VarDecl.bare
  procedures : d.procedures.map Procedure.bare = ps.map Procedure.bare

theorem constSection_row (limited : cx.limits.maxInteger = .number limit) {cs : List ConstDecl}
    (good : ∀ c ∈ cs, c.Good limit)
    (written : ts.map Token.word = sectionWords "const" ConstDecl.words cs) :
    Row cx fits (nextSection cx block) {} ts tail fun d =>
      d.Bare cs [] [] ∧ d.last ≠ some .var ∧ d.last ≠ some .procedure := by
  cases cs with
  | nil =>
    obtain rfl := List.map_eq_nil_iff.mp written
    exact .refl ⟨⟨rfl, rfl, rfl⟩, by simp, by simp⟩
  | cons c cs =>
    obtain ⟨t, ts, rfl, keyword, behind⟩ := List.map_eq_cons_iff.mp written
    have chosen : Section.ofToken? t = some .const :=
      Section.ofToken?_eq_some_iff.mpr (Token.word_eq_keyword_iff.mp keyword)
    refine .single (.acceptAs_bind_of_some chosen (.checkOrder_bind nofun ?_)) (by simp)
    refine .bind_pure (declarations_reads (fun c member ts tail => constDecl_reads limited
      (good c member)) _ _ behind) fun all bares => ⟨_, rfl, ⟨by simpa using bares, rfl, rfl⟩, ?_, ?_⟩
    · simp [Section.latest]
    · simp [Section.latest]

theorem varSection_row {cs : List ConstDecl} {vs : List VarDecl} {d : Declared}
    (sofar : d.Bare cs [] []) (noVars : d.last ≠ some .var) (noProcedures : d.last ≠ some .procedure)
    (written : ts.map Token.word = sectionWords "var" VarDecl.words vs) :
    Row cx fits (nextSection cx block) d ts tail fun d' => d'.Bare cs vs [] := by
  cases vs with
  | nil =>
    obtain rfl := List.map_eq_nil_iff.mp written
    exact .refl sofar
  | cons v vs =>
    obtain ⟨t, ts, rfl, keyword, behind⟩ := List.map_eq_cons_iff.mp written
    have chosen : Section.ofToken? t = some .var :=
      Section.ofToken?_eq_some_iff.mpr (Token.word_eq_keyword_iff.mp keyword)
    -- at most the constants have come before
    have inOrder : InOrder d.last .var := by
      intro l last
      cases l with
      | const => exact .inl (by decide)
      | var => exact absurd last noVars
      | procedure => exact absurd last noProcedures
    refine .single (.acceptAs_bind_of_some chosen (.checkOrder_bind inOrder ?_)) (by simp)
    refine .bind_pure (declarations_reads (fun v _ ts tail => varDecl_reads) _ _ behind) ?_
    intro all bares
    exact ⟨_, rfl, sofar.consts, by simp [sofar.vars, bares], sofar.procedures⟩

theorem procedures_row {cs : List ConstDecl} {vs : List VarDecl} {before ps : List Procedure}
    (inner : ∀ p ∈ ps, ReadsBlock cx fits block p.block) {d : Declared} (sofar : d.Bare cs vs before)
    (written : ts.map Token.word = Procedure.wordsList ps) :
    Row cx fits (nextSection cx block) d ts tail fun d' => d'.Bare cs vs (before ++ ps) := by
  -- on the procedures still to come; any number of them is in order
  induction ps generalizing before d ts with
  | nil =>
    obtain rfl := List.map_eq_nil_iff.mp written
    exact .refl (by simpa using sofar)
  | cons p ps ih =>
    obtain ⟨first, behind, rfl, writtenFirst, writtenBehind⟩ := List.map_eq_append_iff.mp written
    rw [Procedure.words_eq] at writtenFirst
    obtain ⟨t, ts, rfl, keyword, header⟩ := List.map_eq_cons_iff.mp writtenFirst
    have chosen : Section.ofToken? t = some .procedure :=
      Section.ofToken?_eq_some_iff.mpr (Token.word_eq_keyword_iff.mp keyword)
    refine .trans (P := fun d' => d'.Bare cs vs (before ++ [p])) (.single ?_ (by simp)) ?_
    · refine .acceptAs_bind_of_some chosen (.checkOrder_bind (fun _ _ => .inr rfl) ?_)
      refine .bind_pure (procedure_reads (inner p (by simp)) t header) fun all bares => ?_
      exact ⟨_, rfl, sofar.consts, sofar.vars, by simp [sofar.procedures, bares]⟩
    · intro d' sofar'
      have row := ih (fun p' member => inner p' (List.mem_cons_of_mem _ member)) sofar' writtenBehind
      simpa using row

/-- The first word of a statement starts no section. -/
theorem noSection_of_words {s : Stmt} (written : ts.map Token.word = s.words) (ends : EndsBlock tail) :
    ∀ t ∈ (ts ++ tail).head?, Section.ofToken? t = none := by
  intro t isHead
  cases ts with
  | nil =>
    have delimiter := ends t isHead
    grind [Section.ofToken?, Token.isDelimiter, Token.isKeyword]
  | cons t' ts =>
    obtain rfl : t' = t := by simpa using isHead
    have word : s.words.head? = some t'.word := by simp [← written]
    cases reading : Section.ofToken? t' with
    | none => rfl
    | some section' =>
      rw [Token.word_eq_keyword_iff.mpr (Section.ofToken?_eq_some_iff.mp reading)] at word
      -- every statement that has words starts with another keyword or with a name
      rcases s with _ | _ | ⟨_ | _, _⟩ | _ | _ | _ | _ | _ <;> cases section' <;>
        simp [Stmt.words, Section.word, Word.keyword, Word.identifier] at word

theorem nextSection_declined {r : List Token} (noSection : ∀ t ∈ r.head?, Section.ofToken? t = none)
    (d : Declared) (depth : Nat) (log : Log) :
    nextSection cx block d ⟨r, depth, log⟩ = .ok none ⟨r, depth, log⟩ := by
  cases r with
  | nil => simp [nextSection]
  | cons t ts => simp [nextSection, acceptAs_cons_of_none (noSection t (by simp))]

theorem blockBody_reads (limited : cx.limits.maxInteger = .number limit) {stmt : Parser Stmt}
    {cs : List ConstDecl} {vs : List VarDecl} {ps : List Procedure} {s : Stmt}
    (good : ∀ c ∈ cs, c.Good limit) (inner : ∀ p ∈ ps, ReadsBlock cx fits block p.block)
    (body : ReadsStmt cx fits stmt s) (loc : Location) :
    ReadsBlock cx fits (blockBody cx block stmt) ⟨cs, vs, ps, s, loc⟩ := by
  intro ts tail written ends
  simp only [Block.words, List.append_assoc] at written
  obtain ⟨consts, ts, rfl, writtenConsts, behind⟩ := List.map_eq_append_iff.mp written
  obtain ⟨vars, ts, rfl, writtenVars, behind'⟩ := List.map_eq_append_iff.mp behind
  obtain ⟨procedures, ts, rfl, writtenProcedures, writtenBody⟩ := List.map_eq_append_iff.mp behind'
  have row : Row cx fits (nextSection cx block) {} (consts ++ (vars ++ procedures)) (ts ++ tail)
      fun d => d.Bare cs vs ps := by
    refine (constSection_row limited good writtenConsts).trans fun d first => ?_
    obtain ⟨sofar, noVars, noProcedures⟩ := first
    refine (varSection_row sofar noVars noProcedures writtenVars).trans fun d sofar => ?_
    exact procedures_row inner sofar writtenProcedures
  refine .here_bind fun loc' => ?_
  rw [show consts ++ (vars ++ (procedures ++ ts)) = consts ++ (vars ++ procedures) ++ ts by simp]
  refine .bind (row.reads fun d depth log _ =>
    nextSection_declined (noSection_of_words writtenBody ends) d depth log) fun d declared => ?_
  refine .bind_pure (body ts tail writtenBody (ends.follows s)) fun s' bare => ?_
  simp [Block.bare, Procedure.bareList_eq_map, declared.consts, declared.vars, declared.procedures,
    bare]

theorem block_reads (limited : cx.limits.maxInteger = .number limit) {b : Block}
    (grammatical : b.Grammatical) (within : ∀ v ∈ b.literals, v.AtMost limit) (room : Nat)
    (fit : fits → b.depth ≤ room) : ReadsBlock cx fits (Parser.block cx room) b := by
  induction grammatical generalizing room with
  | @mk cs vs ps s loc consts _ body ih =>
    simp only [Block.literals, Block.depth, List.mem_append, List.mem_map] at within fit
    cases room with
    | zero =>
      intro ts tail _ _
      refine .tooDeep fun allowed => ?_
      have depth := fit allowed
      omega
    | succ room =>
      intro ts tail written ends
      refine .deeper (blockBody_reads limited (fun c member => ?_) (fun p member => ?_) ?_ loc ts tail
        written ends)
      · exact ⟨consts c member, within _ (.inl (.inl ⟨c, member, rfl⟩))⟩
      · refine ih p member (fun v inside => ?_) room fun allowed => ?_
        · exact within v (.inl (.inr (Procedure.mem_literalsList.mpr
            ⟨p, member, p.literals_eq ▸ inside⟩)))
        · have depth := fit allowed
          exact p.depth_eq ▸ Procedure.depthList_le_iff.mp (by omega) p member
      · refine statement_reads limited body (fun v inside => within v (.inr inside)) room fun allowed => ?_
        have depth := fit allowed
        omega

end Parser

end PlZero

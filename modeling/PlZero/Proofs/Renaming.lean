import PlZero.Node.Outline
import PlZero.Node.Record
import PlZero.Proofs.Forgetting
import PlZero.Proofs.Pairing.Productions

/-! # Names and places do not matter

The parser looks at a name only to see whether it is `else`, and it never looks at a location.  So two
lists of tokens that differ in names and places are read in the same way: the second tree is the first
one with the other names, and the complaints are the same ones, made in the same order.  If not even the
names differ, all that is left of the difference are the locations.
-/

namespace PlZero

/-- The token `t'` is the token `t` with another name, and maybe at another place. -/
structure Token.Renamed (f : String → String) (t t' : Token) : Prop where
  kind : t'.kind = t.kind
  lexeme : t'.lexeme = if t.kind = .identifier then f t.lexeme else t.lexeme

/-- Diagnostics about tokens of which one is the other with another name. -/
structure Diagnostic.Renamed (f : String → String) (d d' : Diagnostic) : Prop where
  severity : d'.severity = d.severity
  expected : d'.expected = d.expected
  recovery : d'.recovery = d.recovery
  notes : d'.notes.length = d.notes.length
  message : f = id → d'.message = d.message
  found : f = id → d'.found = d.found

namespace Token.Renamed

variable {f : String → String} {t t' : Token}

theorem alike (renamed : t.Renamed f t') (keepsElse : ∀ x, f x = "else" ↔ x = "else") :
    t.Alike (View.bare { name := f }) (View.bare {}) t' where
  kind := renamed.kind
  lexeme other := by rw [renamed.lexeme, if_neg other]
  name identifier := by
    rw [renamed.lexeme, if_pos identifier]
    rfl
  isElse := by
    by_cases identifier : t.kind = .identifier
    · have word : t'.lexeme = "else" ↔ t.lexeme = "else" := by
        rw [renamed.lexeme, if_pos identifier, keepsElse]
      simp [Token.isElse, renamed.kind, identifier, word]
    · simp [Token.isElse, renamed.kind, identifier]
  loc := rfl

theorem lexeme_eq (renamed : t.Renamed f t') (same : f = id) : t'.lexeme = t.lexeme := by
  rw [renamed.lexeme, same]
  simp

theorem describe_eq (renamed : t.Renamed f t') (same : f = id) : t'.describe = t.describe := by
  rw [describe, describe, renamed.kind, renamed.lexeme_eq same]

end Token.Renamed

namespace Parser

variable {f : String → String}

/-! ## Complaints -/

section Complaints

variable {t t' : Token} {r r' : List Token}

theorem renamed_found (next : List.Forall₂ (Token.Renamed f) r r') (same : f = id) :
    Complaint.found r'.head? = Complaint.found r.head? := by
  cases next with
  | nil => rfl
  | cons renamed _ => exact renamed.describe_eq same

theorem renamed_strangerNotes (next : List.Forall₂ (Token.Renamed f) r r') :
    (Complaint.strangerNotes r'.head?).length = (Complaint.strangerNotes r.head?).length := by
  cases next with
  | nil => rfl
  | cons renamed _ =>
    simp only [Complaint.strangerNotes, List.head?_cons, renamed.kind]
    split
    · rfl
    · rfl

theorem renamed_notes {v v' : View} {place place' : Place} (alike : place.Alike v v' place') :
    place'.notes.length = place.notes.length := by
  cases alike with
  | same | afterConstantName | constantValue | assignment | after | closing => rfl

theorem renamed_text {place place' : Place}
    (alike : place.Alike (View.bare {}) (View.bare {}) place') : place'.text = place.text := by
  cases alike with
  | same | closing => rfl
  | @afterConstantName x y same =>
    have same : x = y := same
    rw [same]
  | @constantValue x y same =>
    have same : x = y := same
    rw [same]
  | @assignment x y same =>
    have same : x = y := same
    rw [same]
  | @after e e' same =>
    -- what is written of an expression does not depend on where it stands
    rw [← Expr.bare_seen, ← Expr.bare_seen, Expr.seen_self, Expr.seen_self] at same
    rw [Expr.written_eq_of_bare same]

theorem renamed_missing {cx cx' : Context} (wanted : Wanted) (recovery : Recovery) {place place' : Place}
    (alike : place.Alike (View.bare { name := f }) (View.bare {}) place')
    (next : List.Forall₂ (Token.Renamed f) r r') :
    (missingAt cx wanted place recovery r).Renamed f (missingAt cx' wanted place' recovery r') where
  severity := rfl
  expected := rfl
  recovery := rfl
  notes := by
    simp only [missingAt, Complaint.missing, List.length_append]
    rw [renamed_notes alike, renamed_strangerNotes next]
  message same := by
    subst same
    simp only [missingAt, Complaint.missing]
    rw [renamed_text alike, renamed_found next rfl]
  found same := by
    simp only [missingAt, Complaint.missing]
    rw [renamed_found next same]

theorem renamed_tooLarge (limit : Quantity) (renamed : t.Renamed f t') :
    (Complaint.tooLarge limit t).Renamed f (Complaint.tooLarge limit t') where
  severity := rfl
  expected := rfl
  recovery := rfl
  notes := rfl
  message same := by simp only [Complaint.tooLarge, renamed.lexeme_eq same]
  found same := by simp only [Complaint.tooLarge, renamed.describe_eq same]

theorem renamed_misplaced (s last : Section) (renamed : t.Renamed f t') :
    (Complaint.misplacedSection s last t).Renamed f (Complaint.misplacedSection s last t') where
  severity := rfl
  expected := rfl
  recovery := rfl
  notes := rfl
  message _ := rfl
  found same := by simp only [Complaint.misplacedSection, renamed.describe_eq same]

theorem renamed_trailing (renamed : t.Renamed f t') :
    (Complaint.trailing t).Renamed f (Complaint.trailing t') where
  severity := rfl
  expected := rfl
  recovery := rfl
  notes := rfl
  message same := by simp only [Complaint.trailing, renamed.describe_eq same]
  found same := by simp only [Complaint.trailing, renamed.describe_eq same]

theorem renamed_tooDeep (limit : Int) (l l' : Location) :
    (Complaint.tooDeep limit l).Renamed f (Complaint.tooDeep limit l') :=
  ⟨rfl, rfl, rfl, rfl, fun _ => rfl, fun _ => rfl⟩

end Complaints

/-! ## Runs -/

/-- Logs whose diagnostics are those of each other with other names. -/
def RenamedLogs (f : String → String) (log log' : Log) : Prop :=
  List.Forall₂ (Diagnostic.Renamed f) log.entries log'.entries

theorem RenamedLogs.add {log log' : Log} {d d' : Diagnostic} (logged : RenamedLogs f log log')
    (renamed : d.Renamed f d') : RenamedLogs f (log.add d) (log'.add d') :=
  List.rel_append logged (.cons renamed .nil)

/-- An integer has the same value under every renaming, for it is no name. -/
theorem renamed_integerValue {cx cx' : Context} {limit : Int}
    (limited : cx.limits.maxInteger = .number limit) (limited' : cx'.limits.maxInteger = .number limit)
    {t t' : Token} (renamed : t.Renamed f t') (readable : t.Readable) (integer : t.kind = .integer)
    {log log' : Log} (logged : RenamedLogs f log log') :
    ∃ n after after', RenamedLogs f after after' ∧ ∀ r r' depth depth',
      integerValue cx t ⟨r, depth, log⟩ = .ok n ⟨r, depth, after⟩ ∧
      integerValue cx' t' ⟨r', depth', log'⟩ = .ok n ⟨r', depth', after'⟩ := by
  obtain ⟨n, _, text⟩ := Text.readInteger_stripZeros (readable integer)
  have lexeme : t'.lexeme = t.lexeme := by rw [renamed.lexeme, if_neg (by simp [integer])]
  have value := integerValue_of_repr limited text.symm
  have value' := integerValue_of_repr (t := t') limited' (by rw [lexeme, text])
  -- the limit is the same too, so both runs keep the number or both cut it down
  by_cases le : (n : Int) ≤ limit
  · refine ⟨.number n, log, log', logged, fun r r' depth depth' => ?_⟩
    rw [value, value', if_pos le, if_pos le]
    exact ⟨rfl, rfl⟩
  · refine ⟨.number limit, _, _, logged.add (renamed_tooLarge (.number limit) renamed),
      fun r r' depth depth' => ?_⟩
    rw [value, value', if_neg le, if_neg le, saturate, saturate, limited, limited']
    exact ⟨rfl, rfl⟩

/-- Two runs that differ in names and places. -/
def renamedRuns (f : String → String) (keepsElse : ∀ x, f x = "else" ↔ x = "else") (cx cx' : Context)
    {limit : Int} (limited : cx.limits.maxInteger = .number limit)
    (limits : cx'.limits = cx.limits) : Pairing where
  cx := cx
  cx' := cx'
  view := View.bare { name := f }
  view' := View.bare {}
  token t t' := t.Readable ∧ t.Renamed f t'
  logs := RenamedLogs f
  nesting := by rw [limits]
  endLoc := rfl
  alike pair := pair.2.alike keepsElse
  integer pair integer logged := by
    obtain ⟨n, after, after', grown, runs⟩ := renamed_integerValue limited (limits ▸ limited)
      pair.2 pair.1 integer logged
    exact ⟨n, n, after, after', rfl, grown, runs⟩
  missing wanted recovery input alike logged :=
    logged.add (renamed_missing wanted recovery alike (input.imp fun _ _ pair => pair.2))
  misplaced s last pair _ logged := logged.add (renamed_misplaced s last pair.2)
  tooDeep limit _ logged := logged.add (renamed_tooDeep limit _ _)
  trailing pair logged := logged.add (renamed_trailing pair.2)

end Parser

open PlZero.Parser in
/-- Two lists of tokens that differ in names and places are both read to the end, as trees that differ
in names and locations and with complaints of the same kinds; and if the names are the same, so are all
words of the complaints, the records and the outlines. -/
theorem parseTokens_rename (f : String → String) (keepsElse : ∀ x, f x = "else" ↔ x = "else")
    (limit nesting : Int) (file file' : String) (ts ts' : List Token)
    (readable : ∀ t ∈ ts, t.Readable) (renamed : List.Forall₂ (Token.Renamed f) ts ts') :
    ∃ p log p' log',
      parseTokens ⟨.number limit, nesting⟩ file ts = .ok (p, log) ∧
      parseTokens ⟨.number limit, nesting⟩ file' ts' = .ok (p', log') ∧
      p'.bare = (p.rename f).bare ∧
      List.Forall₂ (Diagnostic.Renamed f) log.entries log'.entries ∧
      (f = id → p'.toNode.record? = p.toNode.record? ∧
        ∀ indent, p'.toNode.outline indent = p.toNode.outline indent) := by
  obtain ⟨p, log, parsed⟩ : ∃ p log, parseTokens ⟨.number limit, nesting⟩ file ts = .ok (p, log) := by
    rcases parseTokens_accounts limit nesting file readable rfl with
      ⟨_, _, _, _, result, _⟩ | ⟨_, _, _, result⟩
    · exact ⟨_, _, result⟩
    · exact ⟨_, _, result⟩
  let m := renamedRuns f keepsElse (.ofTokens ⟨.number limit, nesting⟩ file ts)
    (.ofTokens ⟨.number limit, nesting⟩ file' ts') rfl rfl
  have input : List.Forall₂ m.token ts ts' := (List.forall₂_and_left _ _).mpr ⟨readable, renamed⟩
  obtain ⟨p', log', parsed', looks, logged⟩ := parseTokens_pairs m rfl rfl .nil input parsed
  have bare : p'.bare = (p.rename f).bare := by
    rw [Program.rename, Program.bare_seen, ← Program.seen_self p', Program.bare_seen]
    exact looks.symm
  refine ⟨p, log, p', log', parsed, parsed', bare, logged, ?_⟩
  intro same
  have loose : p'.toNode = p.toNode := by
    apply Program.toNode_eq_of_bare
    rw [bare, same, Program.rename, Program.seen_self]
  rw [loose]
  exact ⟨rfl, fun _ => rfl⟩

open PlZero.Parser in
/-- A branch that lacks its relation and its period, with an integer beyond the limit: `a` becomes `b`,
and `else` stays what it is. -/
theorem parseTokens_rename_branch :
    let f : String → String := fun x => if x = "a" then "b" else x
    let words : List Word := [.keyword "if", .identifier "a", .keyword "then", .identifier "b",
      .operator ":=", .identifier "a", .identifier "else", .identifier "a", .operator ":=",
      .number (.number 9)]
    let ts : List Token := words.map fun w => ⟨w.1, w.2, .nowhere⟩
    let ts' : List Token := words.map fun w =>
      ⟨w.1, if w.1 = .identifier then f w.2 else w.2, ⟨"other", 3, 1, some 20, none, none⟩⟩
    (∀ x, f x = "else" ↔ x = "else") ∧ (∀ t ∈ ts, t.Readable) ∧
    List.Forall₂ (Token.Renamed f) ts ts' ∧
    ∃ p log p' log',
      parseTokens ⟨.number 7, 5⟩ "" ts = .ok (p, log) ∧
      parseTokens ⟨.number 7, 5⟩ "" ts' = .ok (p', log') ∧
      p'.bare = (p.rename f).bare ∧
      List.Forall₂ (Diagnostic.Renamed f) log.entries log'.entries := by
  intro f words ts ts'
  have keepsElse : ∀ x, f x = "else" ↔ x = "else" := by
    intro x
    by_cases first : x = "a"
    · simp [f, first]
    · simp [f, first]
  have readable : ∀ t ∈ ts, t.Readable := by
    have digits : Text.IsDigits (Word.number (.number 9)).2 := Text.isDigits_repr 9
    simp [ts, words, Token.Readable, Word.keyword, Word.identifier, Word.operator, digits]
  have renamed : List.Forall₂ (Token.Renamed f) ts ts' := by
    rw [List.forall₂_map_left_iff, List.forall₂_map_right_iff, List.forall₂_same]
    intro w _
    exact ⟨rfl, rfl⟩
  obtain ⟨p, log, p', log', parsed, parsed', bare, logged, _⟩ :=
    parseTokens_rename f keepsElse 7 5 "" "" ts ts' readable renamed
  exact ⟨keepsElse, readable, renamed, p, log, p', log', parsed, parsed', bare, logged⟩

end PlZero

import PlZero.Proofs.Anchoring.Constants
import PlZero.Proofs.Pairing.Productions
import PlZero.Proofs.Tandem.Productions

/-! # The limit on integers

An integer beyond the limit is cut down to it and reported, and that is all that a limit does: no decision
of the parser depends on a value.  So two limits give the same tree but for the values, and the same
complaints but for those about integers.  The words of a complaint may quote a value, as part of an
expression; everything else in it is the same.

* with a lower limit a tree is the same with its values cut down (`parseTokens_cut`), so both trees are
  made of the same tokens;
* as long as nothing is cut down, a higher limit changes nothing at all, not even the words.
-/

namespace PlZero

/-! ## Values cut down -/

/-- A quantity cut down to a limit. -/
def Quantity.cut (limit : Int) : Quantity → Quantity
  | .number n => .number (min n limit)
  | .blank => .blank

/-- A program without the values of its integers and constants. -/
def Program.erased (p : Program) : Program := p.seen { value := fun _ => .blank }

/-- What is said about a token, with another value. -/
def Mention.revalued (f : Quantity → Quantity) (m : Mention) : Mention :=
  match m.peg with
  | .word w => ⟨.word w, m.anchor?⟩
  | .integer v => ⟨.integer (f v), m.anchor?⟩

section Mentions

variable (f : Quantity → Quantity)

theorem Expr.mentions_seen (e : Expr) :
    (e.seen { value := f }).mentions = e.mentions.map (Mention.revalued f) := by
  induction e with
  | integer | name | missing => rfl
  | binary op a b l iha ihb => simp [seen, mentions, iha, ihb, Mention.revalued]
  | signed s e l ih => simp [seen, mentions, ih, Mention.revalued]
  | group e l ih => simp [seen, mentions, ih, Mention.revalued]

theorem Condition.mentions_seen (c : Condition) :
    (c.seen { value := f }).mentions = c.mentions.map (Mention.revalued f) := by
  cases c with
  | odd e l => simp [seen, mentions, Expr.mentions_seen, Mention.revalued]
  | relation op a b l => simp [seen, mentions, Expr.mentions_seen, Mention.revalued]
  | missing l => rfl

mutual

theorem Stmt.mentions_seen : ∀ s : Stmt,
    (s.seen { value := f }).mentions = s.mentions.map (Mention.revalued f)
  | .assign target e l => by simp [Stmt.seen, Stmt.mentions, Expr.mentions_seen, Mention.revalued]
  | .call .. | .read .. | .write .. | .empty _ => rfl
  | .compound ss l => by simp [Stmt.seen, Stmt.mentions, Stmt.mentionsList_seen ss, Mention.revalued]
  | .branch c y n l => by
    simp [Stmt.seen, Stmt.mentions, Condition.mentions_seen, Stmt.mentions_seen y,
      Stmt.mentionsOption_seen n, Mention.revalued]
  | .loop c s l => by
    simp [Stmt.seen, Stmt.mentions, Condition.mentions_seen, Stmt.mentions_seen s, Mention.revalued]

theorem Stmt.mentionsList_seen : ∀ ss : List Stmt, Stmt.mentionsList (Stmt.seenList { value := f } ss) =
    (Stmt.mentionsList ss).map (Mention.revalued f)
  | [] => rfl
  | s :: ss => by
    simp [Stmt.seenList, Stmt.mentionsList, Stmt.mentions_seen s, Stmt.mentionsList_seen ss]

theorem Stmt.mentionsOption_seen : ∀ n : Option Stmt,
    Stmt.mentionsOption (Stmt.seenOption { value := f } n) =
      (Stmt.mentionsOption n).map (Mention.revalued f)
  | none => rfl
  | some s => by simp [Stmt.seenOption, Stmt.mentionsOption, Stmt.mentions_seen s]

end

theorem ConstDecl.flatMap_mentions_seen (cs : List ConstDecl) :
    (cs.map (ConstDecl.seen { value := f })).flatMap ConstDecl.mentions =
      (cs.flatMap ConstDecl.mentions).map (Mention.revalued f) := by
  induction cs with
  | nil => rfl
  | cons d cs ih => simp [ih, mentions, seen, anchor, Mention.revalued]

theorem VarDecl.flatMap_mentions_seen (vs : List VarDecl) :
    (vs.map (VarDecl.seen { value := f })).flatMap VarDecl.mentions =
      (vs.flatMap VarDecl.mentions).map (Mention.revalued f) := by
  induction vs with
  | nil => rfl
  | cons d vs ih => simp [ih, mentions, seen, anchor, Mention.revalued]

mutual

theorem Block.mentions_seen : ∀ b : Block,
    (b.seen { value := f }).mentions = b.mentions.map (Mention.revalued f)
  | ⟨cs, vs, ps, s, l⟩ => by
    simp only [Block.seen, Block.mentions, List.map_append, ConstDecl.flatMap_mentions_seen,
      VarDecl.flatMap_mentions_seen, Procedure.mentionsList_seen ps, Stmt.mentions_seen]

theorem Procedure.mentions_seen : ∀ p : Procedure,
    (p.seen { value := f }).mentions = p.mentions.map (Mention.revalued f)
  | ⟨name, b, l⟩ => by
    simp [Procedure.seen, Procedure.mentions, Block.mentions_seen b, Mention.revalued]

theorem Procedure.mentionsList_seen : ∀ ps : List Procedure,
    Procedure.mentionsList (Procedure.seenList { value := f } ps) =
      (Procedure.mentionsList ps).map (Mention.revalued f)
  | [] => rfl
  | p :: ps => by
    simp [Procedure.seenList, Procedure.mentionsList, Procedure.mentions_seen p,
      Procedure.mentionsList_seen ps]

end

end Mentions

/-- A value that was cut down to a limit is cut down further to a lower one. -/
theorem Mention.Fits.cut {limit most : Int} (le : limit ≤ most) {m : Mention} {t : Token}
    (fits : m.Fits most t) : (m.revalued (Quantity.cut limit)).Fits limit t := by
  obtain ⟨peg, anchor?⟩ := m
  cases peg with
  | word w => exact ⟨fits.peg, fits.loc⟩
  | integer v =>
    obtain ⟨integer, n, value, rfl⟩ := fits.peg
    have least : min (min n most) limit = min n limit := by omega
    exact ⟨⟨integer, n, value, by rw [Quantity.cut, least]⟩, fits.loc⟩

/-- A program whose values are cut down is made of the same tokens. -/
theorem Program.fits_cut {limit most : Int} (le : limit ≤ most) {q : Program} {own : List Token}
    (fits : List.Forall₂ (Mention.Fits most) q.mentions own) :
    List.Forall₂ (Mention.Fits limit) (q.seen { value := Quantity.cut limit }).mentions own := by
  rw [Program.mentions, Program.seen, Block.mentions_seen, List.forall₂_map_left_iff]
  exact fits.imp fun _ _ fit => fit.cut le

/-! ## Complaints about other things than integers -/

/-- Diagnostics that agree in everything but their words. -/
structure Diagnostic.Agrees (d d' : Diagnostic) : Prop where
  severity : d'.severity = d.severity
  loc : d'.loc = d.loc
  notes : d'.notes = d.notes
  expected : d'.expected = d.expected
  found : d'.found = d.found
  recovery : d'.recovery = d.recovery

theorem Diagnostic.Agrees.refl (d : Diagnostic) : d.Agrees d := ⟨rfl, rfl, rfl, rfl, rfl, rfl⟩

namespace Log

/-- The diagnostics but those about integers that were cut down. -/
def unsaturated (log : Log) : List Diagnostic := log.entries.filter (·.recovery ≠ some .saturated)

/-- Logs that agree in everything but their words and what they say about integers. -/
def Agrees (log log' : Log) : Prop := List.Forall₂ Diagnostic.Agrees log.unsaturated log'.unsaturated

variable {log log' : Log} {d d' : Diagnostic}

theorem Agrees.add (agrees : log.Agrees log') (same : d.Agrees d') : (log.add d).Agrees (log'.add d') := by
  simp only [Agrees, unsaturated, entries_add, List.filter_append]
  refine List.rel_append agrees ?_
  by_cases saturated : d.recovery = some .saturated
  · simp [saturated, same.recovery]
  · simp [saturated, same.recovery, same]

theorem unsaturated_excess (log : Log) (limit : Int) (t : Token) (n : Nat) :
    unsaturated ⟨log.entries ++ Parser.excess limit t n⟩ = log.unsaturated := by
  rw [unsaturated, unsaturated, List.filter_append, Parser.excess]
  split
  · simp
  · simp [Complaint.tooLarge]

end Log

namespace Parser

/-- The places of a complaint differ in a quoted expression at most, so their notes are the same. -/
theorem notes_eq_of_alike {f f' : Quantity → Quantity} {place place' : Place}
    (alike : place.Alike { value := f } { value := f' } place') : place'.notes = place.notes := by
  cases alike with
  | same place _ => rfl
  | afterConstantName | constantValue | assignment | after => rfl
  | closing opener same =>
    obtain rfl := same
    rfl

/-! ## Two limits -/

/-- Two runs with different limits on integers, whose values look the same in some views. -/
def limitedRuns (nesting : Int) (file : String) (ts : List Token) {limit limit' : Int}
    {f f' : Quantity → Quantity}
    (agree : ∀ n : Int, f (.number (min n limit)) = f' (.number (min n limit'))) : Pairing where
  cx := .ofTokens ⟨.number limit, nesting⟩ file ts
  cx' := .ofTokens ⟨.number limit', nesting⟩ file ts
  view := { value := f }
  view' := { value := f' }
  token t t' := t.Readable ∧ t = t'
  logs := Log.Agrees
  nesting := rfl
  endLoc := rfl
  alike pair := by
    obtain ⟨_, rfl⟩ := pair
    exact ⟨rfl, fun _ => rfl, fun _ => rfl, rfl, rfl⟩
  integer {t _ log log'} pair integer logged := by
    obtain ⟨readable, rfl⟩ := pair
    obtain ⟨n, _, text⟩ := readable.value_eq integer
    refine ⟨_, _, ⟨log.entries ++ excess limit t n⟩, ⟨log'.entries ++ excess limit' t n⟩, agree n, ?_, ?_⟩
    · rw [Log.Agrees, Log.unsaturated_excess, Log.unsaturated_excess]
      exact logged
    · intro r r' depth depth'
      exact ⟨integerValue_apply rfl text r depth log, integerValue_apply rfl text r' depth' log'⟩
  missing {r r'} _ _ place place' wanted recovery input alike logged := by
    obtain rfl : r = r' := by
      rw [← List.forall₂_eq_eq_eq]
      exact input.imp fun _ _ pair => pair.2
    refine logged.add ⟨rfl, ?_, ?_, rfl, rfl, rfl⟩
    · cases r with
      | nil | cons => rfl
    · simp only [missingAt, Complaint.missing]
      rw [notes_eq_of_alike alike]
  misplaced s last pair _ logged := by
    obtain ⟨_, rfl⟩ := pair
    exact logged.add (.refl _)
  tooDeep limit same logged := by
    obtain rfl := same
    exact logged.add (.refl _)
  trailing pair logged := by
    obtain ⟨_, rfl⟩ := pair
    exact logged.add (.refl _)

/-- One input with two limits.  As long as no integer is cut down, the parser cannot tell them apart. -/
def raisedLimit (nesting : Int) (file : String) (ts : List Token) {limit limit' : Int}
    (le : limit ≤ limit') : Tandem where
  cx := .ofTokens ⟨.number limit, nesting⟩ file ts
  cx' := .ofTokens ⟨.number limit', nesting⟩ file ts
  tail := []
  tail' := []
  nesting := rfl
  head := rfl
  front := rfl
  stop := nofun
  excuse d := d.recovery = some .saturated
  integer {t} readable integer := by
    obtain ⟨n, _, text⟩ := readable.value_eq integer
    refine ⟨_, _, integerValue_apply rfl text, ?_⟩
    by_cases within : (n : Int) ≤ limit
    · have above : (n : Int) ≤ limit' := Int.le_trans within le
      refine .inr ?_
      rw [integerValue_of_repr rfl text, integerValue_of_repr rfl text, if_pos within, if_pos above]
    · refine .inl ⟨Complaint.tooLarge (.number limit) t, ?_, rfl⟩
      rw [excess, if_neg within]
      exact List.mem_singleton_self _

section Limits

variable {nesting limit limit' : Int} {file : String} {ts : List Token} (readable : ∀ t ∈ ts, t.Readable)
  {p : Program} {log : Log} (parsed : parseTokens ⟨.number limit, nesting⟩ file ts = .ok (p, log))

include readable parsed

theorem parseTokens_limitedRuns (f f' : Quantity → Quantity)
    (agree : ∀ n : Int, f (.number (min n limit)) = f' (.number (min n limit'))) :
    ∃ p' log', parseTokens ⟨.number limit', nesting⟩ file ts = .ok (p', log') ∧
      p.seen { value := f } = p'.seen { value := f' } ∧ log.Agrees log' := by
  have input : List.Forall₂ (fun t t' : Token => t.Readable ∧ t = t') ts ts :=
    List.forall₂_same.mpr fun t member => ⟨readable t member, rfl⟩
  exact parseTokens_pairs (limitedRuns nesting file ts agree) rfl rfl .nil input parsed

/-- Whatever the limit is, the program is the same but for its values, and the complaints are the same but
for those about integers. -/
theorem parseTokens_erased : ∃ p' log', parseTokens ⟨.number limit', nesting⟩ file ts = .ok (p', log') ∧
    p.erased = p'.erased ∧ log.Agrees log' :=
  parseTokens_limitedRuns readable parsed (fun _ => .blank) (fun _ => .blank) fun _ => rfl

/-- A lower limit cuts down the values of the same program. -/
theorem parseTokens_cut (le : limit' ≤ limit) :
    ∃ log', parseTokens ⟨.number limit', nesting⟩ file ts =
      .ok (p.seen { value := Quantity.cut limit' }, log') := by
  have agree : ∀ n : Int, Quantity.cut limit' (.number (min n limit)) = id (.number (min n limit')) := by
    intro n
    have least : min (min n limit) limit' = min n limit' := by omega
    rw [Quantity.cut, least, id]
  obtain ⟨p', log', parsed', looks, _⟩ := parseTokens_limitedRuns readable parsed _ _ agree
  have same : p' = p.seen { value := Quantity.cut limit' } := by
    rw [looks]
    exact (Program.seen_self p').symm
  exact ⟨log', by rw [← same, parsed']⟩

/-- Where nothing is cut down, a higher limit makes no difference. -/
theorem parseTokens_raise (le : limit ≤ limit') (kept : ∀ d ∈ log.entries, d.recovery ≠ some .saturated) :
    parseTokens ⟨.number limit', nesting⟩ file ts = .ok (p, log) := by
  have start (n : Int) : Context.ofTokens ⟨.number n, nesting⟩ file ts =
      .ofTokens ⟨.number n, nesting⟩ file (ts ++ []) := by rw [List.append_nil]
  rw [← List.append_nil ts] at parsed
  have ends := parseTokens_inStep (raisedLimit nesting file ts le) (start limit) (start limit') readable
    parsed
  simp only [raisedLimit, List.append_nil] at ends
  rcases ends with ⟨d, member, saturated⟩ | ⟨log', parsed', same⟩
  · exact absurd saturated (kept d member)
  · rw [parsed']
    rcases same with rfl | ⟨before, entries, entries'⟩
    · rfl
    · -- nothing is left behind the end of the input, so no complaint was made about it
      obtain rfl : log' = log := congrArg Log.mk (entries'.trans entries.symm)
      rfl

end Limits

end Parser

open PlZero.Parser in
/-- A limit on integers decides about nothing but values.  With two limits the trees are the same but for
the values of their integers and constants, and they are made of the same tokens; each value is the lesser
of its token's number and the limit, where the token of a constant is the one two behind its name.  The
complaints about anything else than integers agree one by one, in all but their words.  And if nothing was
cut down to the lower limit, the higher one changes nothing. -/
theorem parseTokens_saturation (limit limit' nesting : Int) (file : String) (ts : List Token)
    (readable : ∀ t ∈ ts, t.Readable) :
    ∃ p log p' log',
      parseTokens ⟨.number limit, nesting⟩ file ts = .ok (p, log) ∧
      parseTokens ⟨.number limit', nesting⟩ file ts = .ok (p', log') ∧
      p.erased = p'.erased ∧
      (∃ own, List.Subperm own ts ∧ List.Forall₂ (Mention.Fits limit) p.mentions own ∧
        List.Forall₂ (Mention.Fits limit') p'.mentions own) ∧
      (∀ d ∈ p.constants, d.WrittenIn limit ts) ∧ (∀ d ∈ p'.constants, d.WrittenIn limit' ts) ∧
      List.Forall₂ Diagnostic.Agrees log.unsaturated log'.unsaturated ∧
      (limit ≤ limit' → (∀ d ∈ log.entries, d.recovery ≠ some .saturated) → p = p' ∧ log = log') := by
  obtain ⟨q, _, taken, parsedMost, inside, grounded⟩ :=
    parseTokens_grounded (max limit limit') nesting file readable
  obtain ⟨own, owned, fits⟩ := grounded.owned
  have below : limit ≤ max limit limit' := by omega
  have below' : limit' ≤ max limit limit' := by omega
  obtain ⟨log, parsed⟩ := parseTokens_cut readable parsedMost below
  obtain ⟨log', parsed'⟩ := parseTokens_cut readable parsedMost below'
  obtain ⟨_, _, again, erased, agrees⟩ := parseTokens_erased readable parsed
  obtain ⟨rfl, rfl⟩ := Prod.mk.inj (Except.ok.inj (parsed'.symm.trans again))
  refine ⟨_, log, _, log', parsed, parsed', erased, ?_, constants_of_parseTokens readable parsed,
    constants_of_parseTokens readable parsed', agrees, ?_⟩
  · exact ⟨own, owned.trans inside.subperm, Program.fits_cut below fits, Program.fits_cut below' fits⟩
  · intro le kept
    have raised := parseTokens_raise readable parsed le kept
    exact Prod.mk.inj (Except.ok.inj (raised.symm.trans parsed'))

/-- A constant, and a condition that lacks its relation, so that the number in front of it is quoted.  The
limit 12 cuts down nothing, 9 one of the numbers, and -1 both. -/
theorem parseTokens_saturation_quoted :
    let ts : List Token := [⟨.keyword, "const", .nowhere⟩, ⟨.identifier, "c", .nowhere⟩,
      ⟨.operator, "=", .nowhere⟩, ⟨.integer, "007", .nowhere⟩, ⟨.delimiter, ";", .nowhere⟩,
      ⟨.keyword, "while", .nowhere⟩, ⟨.integer, "12", .nowhere⟩, ⟨.keyword, "do", .nowhere⟩,
      ⟨.delimiter, ".", .nowhere⟩]
    (∀ t ∈ ts, t.Readable) ∧
    parseTokens ⟨.number 12, 5⟩ "" ts = parseTokens ⟨.number 20, 5⟩ "" ts ∧
    ∃ p log p' log',
      parseTokens ⟨.number (-1), 5⟩ "" ts = .ok (p, log) ∧
      parseTokens ⟨.number 9, 5⟩ "" ts = .ok (p', log') ∧
      p.erased = p'.erased ∧
      (∃ own, List.Subperm own ts ∧ List.Forall₂ (Mention.Fits (-1)) p.mentions own ∧
        List.Forall₂ (Mention.Fits 9) p'.mentions own) ∧
      (∀ d ∈ p.constants, d.WrittenIn (-1) ts) ∧ (∀ d ∈ p'.constants, d.WrittenIn 9 ts) ∧
      List.Forall₂ Diagnostic.Agrees log.unsaturated log'.unsaturated ∧
      ((-1 : Int) ≤ 9 → (∀ d ∈ log.entries, d.recovery ≠ some .saturated) → p = p' ∧ log = log') := by
  intro ts
  have readable : ∀ t ∈ ts, t.Readable := by
    simp [ts, Token.Readable, Text.IsDigits, Text.isDigit]
  have recoveries : (parseTokens ⟨.number 12, 5⟩ "" ts).toOption.map
      (·.2.entries.map Diagnostic.recovery) = some [some .placeholder] := by decide +kernel
  obtain ⟨p, log, p', log', parsed, parsed', _, _, _, _, _, raised⟩ :=
    parseTokens_saturation 12 20 5 "" ts readable
  have kept : ∀ d ∈ log.entries, d.recovery ≠ some .saturated := by
    intro d member
    rw [parsed] at recoveries
    have listed : log.entries.map Diagnostic.recovery = [some .placeholder] := Option.some.inj recoveries
    have mended : d.recovery ∈ [some Recovery.placeholder] := listed ▸ List.mem_map_of_mem member
    rw [List.mem_singleton.mp mended]
    decide
  obtain ⟨rfl, rfl⟩ := raised (by decide) kept
  exact ⟨readable, parsed.trans parsed'.symm, parseTokens_saturation (-1) 9 5 "" ts readable⟩

end PlZero

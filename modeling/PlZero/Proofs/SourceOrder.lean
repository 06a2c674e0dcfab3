import Mathlib.Data.List.Forall2
import PlZero.Proofs.Lexing.Spans
import PlZero.Proofs.Nesting.Cutoff
import PlZero.Proofs.Repair

/-! # Diagnostics come in source order

A complaint is made where the parser stands, or about a token that it takes in the same step, and it
never goes back.  So every diagnostic belongs to a token or to the end of the input, and the indices of
these do not decrease.  The order is read off the trail that a parser leaves behind; that nothing but
the end of it speaks of giving up is known from the cut-off.

Behind a scanner the tokens stand in the order of the text, so the offsets do not decrease either.
-/

namespace PlZero

namespace Parser

variable {limits : Limits} {file : String} {ts r r' : List Token} {d : Diagnostic}
  {ds ds' : List Diagnostic} {cx : Context}

/-! ## Where a diagnostic belongs -/

/-- The diagnostic belongs to the token with the index `i`, or to the end of the input if there is no
such token: that is where it is located and what it has found. -/
structure Anchored (file : String) (ts : List Token) (d : Diagnostic) (i : Nat) : Prop where
  inside : i ≤ ts.length
  loc : d.loc = some (locationAt file ts i)
  recovered : d.recovery ≠ none
  found : d.found = if d.recovery = some .abandoned then none
    else some ((ts[i]?.map Token.describe).getD Diagnostic.endOfInput)

theorem Anchored.atEnd_iff {i : Nat} (anchored : Anchored file ts d i) :
    d.atEnd = true ↔ i = ts.length ∧ d.recovery ≠ some .abandoned := by
  have inside := anchored.inside
  rw [Diagnostic.atEnd, decide_eq_true_iff, anchored.found]
  by_cases given : d.recovery = some .abandoned
  · simp [given]
  · rw [if_neg given, Option.some_inj]
    by_cases last : i = ts.length
    · simp [last, given]
    · have token : ts[i]? = some (ts.get ⟨i, by omega⟩) := List.getElem?_eq_getElem _
      rw [token]
      simp [last, Token.describe_ne_endOfInput]

/-! ## What is left of the tokens -/

theorem getElem?_of_suffix (suffix : r <:+ ts) : ts[ts.length - r.length]? = r.head? := by
  rw [← List.head?_drop, ← List.suffix_iff_eq_drop.mp suffix]

theorem front_of_suffix (start : cx = .ofTokens limits file ts) (suffix : r <:+ ts) :
    cx.front r = locationAt file ts (ts.length - r.length) := by
  rw [start, ← Context.front_ofTokens limits, ← List.suffix_iff_eq_drop.mp suffix]

theorem found_eq (next : Option Token) :
    Complaint.found next = (next.map Token.describe).getD Diagnostic.endOfInput := by
  cases next with
  | none | some => rfl

theorem anchored_missingAt {wanted : Wanted} {place : Place} {recovery : Recovery}
    (start : cx = .ofTokens limits file ts) (suffix : r <:+ ts) (frank : recovery ≠ .abandoned) :
    Anchored file ts (missingAt cx wanted place recovery r) (ts.length - r.length) where
  inside := Nat.sub_le _ _
  loc := by rw [← front_of_suffix start suffix]; rfl
  recovered := by simp
  found := by simp [frank, getElem?_of_suffix suffix, missingAt, Complaint.missing, found_eq]

theorem anchored_tooDeep {nesting : Int} (start : cx = .ofTokens limits file ts) (suffix : r <:+ ts) :
    Anchored file ts (Complaint.tooDeep nesting (cx.front r)) (ts.length - r.length) where
  inside := Nat.sub_le _ _
  loc := by rw [← front_of_suffix start suffix]; rfl
  recovered := by simp [Complaint.tooDeep]
  found := rfl

theorem anchored_fault {t : Token} (about : Fault cx t d) (suffix : t :: r <:+ ts) :
    Anchored file ts d (ts.length - (t :: r).length) := by
  have token := getElem?_of_suffix suffix
  have place : locationAt file ts (ts.length - (t :: r).length) = t.loc := by
    rw [locationAt, token]
    rfl
  cases about with
  | tooLarge | misplaced | trailing =>
    refine ⟨Nat.sub_le _ _, by rw [place]; rfl, Option.some_ne_none _, ?_⟩
    rw [token]
    rfl

/-! ## Order -/

/-- The diagnostics belong to tokens from `r` on, the last of `ts`, one behind the other. -/
def Ordered (file : String) (ts r : List Token) (ds : List Diagnostic) : Prop :=
  ∃ is : List Nat, List.Forall₂ (Anchored file ts) ds is ∧ is.Pairwise (· ≤ ·) ∧
    ∀ i ∈ is, ts.length - r.length ≤ i

namespace Ordered

theorem nil : Ordered file ts r [] := ⟨[], .nil, .nil, by simp⟩

theorem mono (later : Ordered file ts r' ds) (shorter : r'.length ≤ r.length) :
    Ordered file ts r ds := by
  obtain ⟨is, all, sorted, late⟩ := later
  refine ⟨is, all, sorted, ?_⟩
  intro i member
  have := late i member
  omega

theorem cons (anchored : Anchored file ts d (ts.length - r.length)) (later : Ordered file ts r ds) :
    Ordered file ts r (d :: ds) := by
  obtain ⟨is, all, sorted, late⟩ := later
  exact ⟨_ :: is, .cons anchored all, .cons late sorted,
    List.forall_mem_cons.mpr ⟨Nat.le_refl _, late⟩⟩

end Ordered

theorem ordered_trailing (suffix : r <:+ ts) : Ordered file ts r (trailing r) := by
  cases r with
  | nil => exact .nil
  | cons t r =>
    have about : Fault default t (Complaint.trailing t) := .trailing
    exact .cons (anchored_fault about suffix) .nil

/-- What is complained about on a trail comes before what follows the trail. -/
theorem Trail.ordered (trail : Trail cx r ds r') (start : cx = .ofTokens limits file ts)
    (suffix : r <:+ ts) (frank : ∀ d ∈ ds, d.recovery ≠ some .abandoned)
    (later : Ordered file ts r' ds') : Ordered file ts r (ds ++ ds') := by
  induction trail with
  | done => exact later
  | take _ ih =>
    have onwards := ih ((List.suffix_cons _ _).trans suffix) frank later
    exact onwards.mono (by simp)
  | miss wanted place recovery _ ih =>
    obtain ⟨first, others⟩ := List.forall_mem_cons.mp frank
    exact .cons (anchored_missingAt start suffix (by simpa using first)) (ih suffix others later)
  | fault about _ ih =>
    obtain ⟨_, others⟩ := List.forall_mem_cons.mp frank
    have onwards := ih ((List.suffix_cons _ _).trans suffix) others later
    exact .cons (anchored_fault about suffix) (onwards.mono (by simp))
  | giveUp => exact absurd rfl (frank _ List.mem_cons_self)

theorem parseTokens_ordered (limit nesting : Int) (file : String) (readable : ∀ t ∈ ts, t.Readable) :
    ∃ p log, parseTokens ⟨.number limit, nesting⟩ file ts = .ok (p, log) ∧
      Ordered file ts ts log.entries := by
  have frank := frank_blockRun limit file ts nesting
  obtain ⟨b, s, run, trail, parsed⟩ | ⟨s, run, trail, parsed⟩ :=
    blockRun_cases limit nesting file readable rfl
  · rw [run] at frank
    exact ⟨_, _, parsed, trail.ordered rfl (List.suffix_refl _) frank (ordered_trailing trail.suffix)⟩
  · rw [run] at frank
    exact ⟨_, _, parsed, trail.ordered rfl (List.suffix_refl _) frank
      (.cons (anchored_tooDeep rfl trail.suffix) .nil)⟩

end Parser

/-! ## Tokens of a text -/

/-- The offset just behind the last token. -/
def pastTokens (ts : List Token) : Nat := (ts.getLast?.map Token.stop).getD 0

/-- The offset of the token with the index `i`, or the one behind the last token. -/
def offsetAt (ts : List Token) (i : Nat) : Nat := (ts[i]?.map Token.start).getD (pastTokens ts)

section Offsets

variable {ts : List Token}

theorem stop_le_pastTokens (spans : ts.Pairwise fun t u => t.stop ≤ u.start) :
    ∀ t ∈ ts, t.stop ≤ pastTokens ts := by
  intro t member
  obtain rfl | ⟨init, last, rfl⟩ := List.eq_nil_or_concat ts
  · cases member
  rw [List.concat_eq_append] at member spans ⊢
  have past : pastTokens (init ++ [last]) = last.start + last.lexeme.length := by
    simp [pastTokens, Token.stop]
  rw [past]
  cases List.mem_append.mp member with
  | inl before =>
    have := (List.pairwise_append.mp spans).2.2 t before last (List.mem_singleton.mpr rfl)
    omega
  | inr single =>
    rw [List.mem_singleton.mp single]
    exact Nat.le_refl _

theorem offsetAt_mono (spans : ts.Pairwise fun t u => t.stop ≤ u.start) {i j : Nat} (le : i ≤ j) :
    offsetAt ts i ≤ offsetAt ts j := by
  by_cases same : i = j
  · rw [same]
  by_cases inside : i < ts.length
  · have starts : offsetAt ts i ≤ (ts.get ⟨i, inside⟩).stop := by
      simp [offsetAt, inside, Token.stop]
    apply Nat.le_trans starts
    by_cases inside' : j < ts.length
    · have between := List.pairwise_iff_getElem.mp spans i j inside inside' (by omega)
      simpa [offsetAt, inside'] using between
    · have past : offsetAt ts j = pastTokens ts := by simp [offsetAt, Nat.not_lt.mp inside']
      rw [past]
      exact stop_le_pastTokens spans _ (List.get_mem _ _)
  · have past : ∀ k, i ≤ k → offsetAt ts k = pastTokens ts := by
      intro k le
      have beyond : ts.length ≤ k := by omega
      simp [offsetAt, beyond]
    rw [past i (Nat.le_refl i), past j le]

end Offsets

section Text

variable (source file : String)

theorem offset_endLocation_tokenize :
    (endLocation file (tokenize source file)).offset =
      some (pastTokens (tokenize source file) : Int) := by
  cases last : (tokenize source file).getLast? with
  | none => simp [endLocation, pastTokens, last]
  | some t =>
    have stands := ((tokenize_reading source file).standsIn t (List.mem_of_getLast? last)).1
    simp [endLocation, pastTokens, last, Token.stop, stands.offset]

theorem offset_locationAt_tokenize (i : Nat) :
    (Parser.locationAt file (tokenize source file) i).offset =
      some (offsetAt (tokenize source file) i : Int) := by
  rw [Parser.locationAt, offsetAt]
  cases token : (tokenize source file)[i]? with
  | none => exact offset_endLocation_tokenize source file
  | some t =>
    have stands := ((tokenize_reading source file).standsIn t (List.mem_of_getElem? token)).1
    exact stands.offset

theorem offsets_of_anchored {ds : List Diagnostic} {is : List Nat}
    (all : List.Forall₂ (Parser.Anchored file (tokenize source file)) ds is) :
    ds.map (fun d => d.loc.bind (·.offset)) =
      (is.map (offsetAt (tokenize source file))).map fun n : Nat => some (n : Int) := by
  induction all with
  | nil => rfl
  | cons anchored _ ih =>
    rw [List.map_cons, List.map_cons, List.map_cons, ih, anchored.loc, Option.bind_some,
      offset_locationAt_tokenize]

/-- The end of a text is located at the point just behind its last token. -/
theorem endLocation_tokenize :
    endLocation file (tokenize source file) =
      let past := Position.behind (source.toList.take (pastTokens (tokenize source file)))
      { file := file, line := past.line, column := past.column, offset := some past.offset } := by
  have reading := tokenize_reading source file
  cases last : (tokenize source file).getLast? with
  | none => simp [endLocation, pastTokens, last, Position.behind]
  | some t =>
    obtain ⟨seen, kind, w, rest, rfl, divided, _⟩ :=
      reading.exists_standing t (List.mem_of_getLast? last)
    have stop : pastTokens (tokenize source file) = (seen ++ w).length := by simp [pastTokens, last]
    have past : source.toList.take (pastTokens (tokenize source file)) = seen ++ w := by
      rw [List.nil_append, ← List.append_assoc] at divided
      rw [stop, divided, List.take_left]
    have first : ((tokenize source file).head?.map (·.loc.file)).getD file = file := by
      cases head : (tokenize source file).head? with
      | none => rfl
      | some u => exact (reading.standsIn u (List.mem_of_head? head)).1.file
    rw [past, endLocation, last]
    simp [first, Location.span, Position.behind]

end Text

/-! ## Diagnostics -/

open PlZero.Parser in
/-- All tokens can be parsed, and the diagnostics belong to tokens, or to the end of the input, whose
indices do not decrease; what a diagnostic has found is the end of the input if and only if it belongs
there and is not the last one, about a program that is given up.  If the tokens are those of a text,
the offsets of the diagnostics do not decrease, and the end is just behind the last token. -/
theorem diagnostics_in_source_order (limit nesting : Int) (file : String) :
    (∀ ts : List Token, (∀ t ∈ ts, t.Readable) →
      ∃ p log, parseTokens ⟨.number limit, nesting⟩ file ts = .ok (p, log) ∧
        ∃ is : List Nat, is.Pairwise (· ≤ ·) ∧ List.Forall₂ (fun d i => Anchored file ts d i ∧
          (d.atEnd = true ↔ i = ts.length ∧ d.recovery ≠ some .abandoned)) log.entries is) ∧
    ∀ source : String, ∃ p log, parse ⟨.number limit, nesting⟩ file source = .ok (p, log) ∧
      (∃ offsets : List Nat, offsets.Pairwise (· ≤ ·) ∧
        log.entries.map (fun d => d.loc.bind (·.offset)) = offsets.map fun n : Nat => some (n : Int)) ∧
      endLocation file (tokenize source file) =
        let past := Position.behind (source.toList.take (pastTokens (tokenize source file)))
        { file := file, line := past.line, column := past.column, offset := some past.offset } := by
  constructor
  · intro ts readable
    obtain ⟨p, log, parsed, is, all, sorted, _⟩ := parseTokens_ordered limit nesting file readable
    exact ⟨p, log, parsed, is, sorted, all.imp fun d i anchored => ⟨anchored, anchored.atEnd_iff⟩⟩
  · intro source
    obtain ⟨p, log, parsed, is, all, sorted, _⟩ :=
      parseTokens_ordered limit nesting file (Scanner.readable_of_mem_tokens (.ofText file source))
    refine ⟨p, log, parsed, ⟨is.map (offsetAt (tokenize source file)), ?_, ?_⟩,
      endLocation_tokenize source file⟩
    · have spans := (tokenize_reading source file).pairwise
      exact List.pairwise_map.mpr (sorted.imp fun le => offsetAt_mono spans le)
    · exact offsets_of_anchored source file all

open PlZero.Parser in
/-- A number that is too great in a parenthesis that is never closed: one complaint about the last
token, and two at the end of the input. -/
theorem diagnostics_in_source_order_at_end :
    let ts : List Token := [⟨.identifier, "x", .nowhere⟩, ⟨.operator, ":=", .nowhere⟩,
      ⟨.delimiter, "(", .nowhere⟩, ⟨.integer, "12", .nowhere⟩]
    (∀ t ∈ ts, t.Readable) ∧
      (parseTokens ⟨.number 9, 3⟩ "" ts).toOption.map (·.2.entries.map Diagnostic.atEnd) =
        some [false, true, true] ∧
      ∃ p log, parseTokens ⟨.number 9, 3⟩ "" ts = .ok (p, log) ∧
        ∃ is : List Nat, is.Pairwise (· ≤ ·) ∧ List.Forall₂ (fun d i => Anchored "" ts d i ∧
          (d.atEnd = true ↔ i = ts.length ∧ d.recovery ≠ some .abandoned)) log.entries is := by
  intro ts
  have readable : ∀ t ∈ ts, t.Readable := by
    simp [ts, Token.Readable, Text.IsDigits, Text.isDigit]
  exact ⟨readable, by decide, (diagnostics_in_source_order 9 3 "").1 ts readable⟩

end PlZero

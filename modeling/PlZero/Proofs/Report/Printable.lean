import PlZero.Parser.Complaint
import PlZero.Proofs.Lexing.Spans
import PlZero.Proofs.Printing.Trees

/-! # Texts that can be printed

A text is printable if all its characters are.  Quoting makes any text printable, for it spells out the
characters that are not.  Without quotes there stand numbers, and the words of the vocabulary: letters,
digits and a few symbols.  That no letter is unprintable is read off the two tables of ranges, which are
gone through side by side (`Ranges.apart`).
-/

namespace PlZero

namespace Text

/-! ## Ranges -/

/-- Whether two lists of ranges are found to have no character in common, going through them side by
side. -/
def Ranges.apart : Ranges → Ranges → Bool
  | [], _ => true
  | (lo, hi) :: rest, ranges =>
    match ranges.dropWhile (·.2 < lo) with
    | [] => true
    | r :: others => hi < r.1 && Ranges.apart rest (r :: others)

/-- Ranges that end before a character can be left aside. -/
theorem Ranges.covers_dropWhile {lo n : Nat} (le : lo ≤ n) (ranges : Ranges) :
    Ranges.covers (ranges.dropWhile (·.2 < lo)) n = true ∨ Ranges.covers ranges n = false := by
  induction ranges with
  | nil => exact .inr rfl
  | cons r ranges ih =>
    by_cases below : r.2 < lo
    · have passed : ¬ n ≤ r.2 := by omega
      rw [List.dropWhile_cons_of_pos (by simpa using below)]
      rcases ih with found | lost
      · exact .inl found
      · exact .inr (by simp [Ranges.covers, passed, lost])
    · rw [List.dropWhile_cons_of_neg (by simpa using below)]
      cases Ranges.covers (r :: ranges) n with
      | true => exact .inl rfl
      | false => exact .inr rfl

theorem Ranges.covers_eq_false_of_apart {a b : Ranges} {n : Nat} (apart : Ranges.apart a b = true)
    (covered : Ranges.covers a n = true) : Ranges.covers b n = false := by
  induction a generalizing b with
  | nil => cases covered
  | cons range rest ih =>
    obtain ⟨lo, hi⟩ := range
    simp only [Ranges.covers] at covered
    split at covered
    · cases covered
    rename_i above
    rcases Ranges.covers_dropWhile (Nat.le_of_not_lt above) b with found | lost
    · -- what is left of `b` starts behind `hi`, so the character comes later in `a` too
      rw [Ranges.apart] at apart
      cases left : b.dropWhile (·.2 < lo) with
      | nil =>
        rw [left] at found
        cases found
      | cons r others =>
        rw [left] at found apart
        simp only [Bool.and_eq_true, decide_eq_true_eq] at apart
        obtain ⟨behind, apart⟩ := apart
        by_cases inside : n ≤ hi
        · rw [Ranges.covers_of_lt (Nat.lt_of_le_of_lt inside behind)] at found
          cases found
        · rw [decide_eq_false inside, Bool.false_or] at covered
          rw [ih apart covered] at found
          cases found
    · exact lost

theorem Ranges.covers_eq_false_of_between {lo hi lo' hi' n : Nat} {ranges : Ranges} (above : hi < n)
    (below : n < lo') : Ranges.covers ((lo, hi) :: (lo', hi') :: ranges) n = false := by
  have passed : ¬ n ≤ hi := by omega
  simp [Ranges.covers, passed, below]

/-! ## Characters -/

/-- No letter is unprintable. -/
theorem isPrintable_of_isLetter {c : Char} (letter : isLetter c = true) : isPrintable c = true := by
  have apart : Ranges.apart letterRanges unprintableRanges = true := by decide +kernel
  rw [isPrintable, Ranges.covers_eq_false_of_apart apart letter]
  rfl

/-- The characters from the space to the tilde are printable. -/
theorem isPrintable_of_ascii {c : Char} (above : 0x1F < c.toNat) (below : c.toNat < 0x7F) :
    isPrintable c = true := by
  have outside : unprintableRanges.covers c.toNat = false := Ranges.covers_eq_false_of_between above below
  rw [isPrintable, outside]
  rfl

theorem isPrintable_of_isDigit {c : Char} (digit : isDigit c = true) : isPrintable c = true := by
  simp only [isDigit, Bool.and_eq_true, decide_eq_true_eq] at digit
  have low : '0'.toNat ≤ c.toNat := digit.1
  have high : c.toNat ≤ '9'.toNat := digit.2
  have zero : '0'.toNat = 0x30 := rfl
  have nine : '9'.toNat = 0x39 := rfl
  exact isPrintable_of_ascii (by omega) (by omega)

theorem isPrintable_of_mem {cs : List Char} (all : cs.all isPrintable = true) {c : Char}
    (member : c ∈ cs) : isPrintable c = true := List.all_eq_true.mp all c member

/-! ## Texts -/

/-- All characters may stand in a line of output. -/
def Printable (s : String) : Prop := ∀ c ∈ s.toList, isPrintable c = true

instance : DecidablePred Printable := fun s =>
  decidable_of_iff (s.toList.all isPrintable = true) List.all_eq_true

@[simp] theorem printable_append {s t : String} : Printable (s ++ t) ↔ Printable s ∧ Printable t := by
  simp [Printable, or_imp, forall_and]

theorem printable_ofList {cs : List Char} :
    Printable (String.ofList cs) ↔ ∀ c ∈ cs, isPrintable c = true := by
  simp [Printable]

theorem printable_number (n : Int) : Printable (toString n) := by
  intro c member
  rcases mem_text_number member with digit | rfl
  · exact isPrintable_of_isDigit digit
  · decide

theorem mem_toDigits {n : Nat} {c : Char} (member : c ∈ Nat.toDigits 16 n) :
    ∃ d < 16, c = Nat.digitChar d := by
  induction n using Nat.strongRecOn with
  | ind n ih =>
    rw [Nat.toDigits_eq_if (by decide)] at member
    split at member
    · rename_i small
      exact ⟨n, small, List.mem_singleton.mp member⟩
    · rename_i large
      rcases List.mem_append.mp member with front | last
      · exact ih (n / 16) (by omega) front
      · exact ⟨n % 16, by omega, List.mem_singleton.mp last⟩

theorem isPrintable_of_mem_hex {width n : Nat} {c : Char} (member : c ∈ hex width n) :
    isPrintable c = true := by
  have digits : ∀ d < 16, isPrintable (Nat.digitChar d) = true := by decide
  rcases List.mem_append.mp member with filled | digit
  · rw [(List.mem_replicate.mp filled).2]
    decide
  · obtain ⟨d, small, rfl⟩ := mem_toDigits digit
    exact digits d small

theorem isPrintable_of_mem_codePointEscape {n : Nat} {c : Char} (member : c ∈ codePointEscape n) :
    isPrintable c = true := by
  have spelled : ∀ mark width, isPrintable mark = true → c ∈ '\\' :: mark :: hex width n →
      isPrintable c = true := by
    intro mark width printable member
    rcases List.mem_cons.mp member with rfl | behind
    · decide
    rcases List.mem_cons.mp behind with rfl | digit
    · exact printable
    · exact isPrintable_of_mem_hex digit
  unfold codePointEscape at member
  split at member
  · exact spelled 'x' 2 (by decide) member
  split at member
  · exact spelled 'u' 4 (by decide) member
  · exact spelled 'U' 8 (by decide) member

theorem isPrintable_of_mem_escape {q c d : Char} (enclosing : isPrintable q = true)
    (member : d ∈ escape q c) : isPrintable d = true := by
  unfold escape at member
  split at member
  · rename_i marked
    have printable : isPrintable c = true := by
      simp only [Bool.or_eq_true, decide_eq_true_eq] at marked
      rcases marked with rfl | rfl
      · exact enclosing
      · decide
    simp only [List.mem_cons, List.not_mem_nil, or_false] at member
    rcases member with rfl | rfl
    · decide
    · exact printable
  -- the three short forms
  split at member
  · exact isPrintable_of_mem (by decide) member
  split at member
  · exact isPrintable_of_mem (by decide) member
  split at member
  · exact isPrintable_of_mem (by decide) member
  split at member
  · rename_i printable
    rw [List.mem_singleton.mp member]
    exact printable
  · exact isPrintable_of_mem_codePointEscape member

/-- Between quotes every text is printable. -/
theorem printable_quote (s : String) : Printable (quote s) := by
  have enclosed : isPrintable (enclosing s.toList) = true := by
    unfold enclosing
    split
    · decide
    · decide
  rw [quote, printable_ofList]
  intro c member
  simp only [List.cons_append, List.mem_cons, List.mem_append, List.mem_flatMap, List.not_mem_nil,
    or_false] at member
  rcases member with rfl | ⟨d, _, spelled⟩ | rfl
  · exact enclosed
  · exact isPrintable_of_mem_escape enclosed spelled
  · exact enclosed

end Text

theorem Quantity.printable_text (q : Quantity) : Text.Printable q.text := by
  cases q with
  | number n => exact Text.printable_number n
  | blank => decide

/-! ## Words -/

/-- The words of the vocabulary can be printed as they are. -/
theorem Vocabulary.printable {kind : Token.Kind} {w : List Char} (word : Vocabulary kind w) :
    ∀ c ∈ w, Text.isPrintable c = true := by
  have named : ∀ {c : Char} {cs : List Char}, Text.isLetter c = true →
      (∀ d ∈ cs, Text.isLetter d = true ∨ Text.isDigit d = true) →
      ∀ d ∈ c :: cs, Text.isPrintable d = true := by
    intro c cs letter letters d member
    rcases List.mem_cons.mp member with rfl | behind
    · exact Text.isPrintable_of_isLetter letter
    · exact (letters d behind).elim Text.isPrintable_of_isLetter Text.isPrintable_of_isDigit
  cases word with
  | integer _ digits => exact fun c member => Text.isPrintable_of_isDigit (digits c member)
  | keyword letter letters _ => exact named letter letters
  | identifier letter letters _ => exact named letter letters
  | operator listed =>
    have all : ∀ w ∈ operators, Text.Printable w := by decide
    exact Text.printable_ofList.mp (all _ listed)
  | delimiter listed =>
    have all : ∀ w ∈ delimiters, Text.Printable w := by decide
    exact Text.printable_ofList.mp (all _ listed)

/-- A token whose place can be printed and, unless it belongs to no program, its lexeme as well. -/
structure Token.Presentable (t : Token) : Prop where
  file : Text.Printable t.loc.file
  lexeme : t.kind ≠ .unknown → Text.Printable t.lexeme

theorem Token.printable_describe (t : Token) : Text.Printable t.describe := by
  have kinds : Text.Printable t.kind.name := by cases t.kind <;> decide
  simp only [Token.describe, Text.printable_append, kinds, Text.printable_quote, true_and, and_true]
  decide

/-! ## Diagnostics -/

theorem Location.printable_text {l : Location} (file : Text.Printable l.file) :
    Text.Printable l.text := by
  simp only [Location.text, Text.printable_append]
  exact ⟨⟨⟨⟨file, by decide⟩, Text.printable_number l.line⟩, by decide⟩, Text.printable_number l.column⟩

/-- A diagnostic whose place, message and notes can be printed. -/
structure Diagnostic.Presentable (d : Diagnostic) : Prop where
  loc : ∀ l ∈ d.loc, Text.Printable l.file
  message : Text.Printable d.message
  notes : ∀ note ∈ d.notes, Text.Printable note

theorem Diagnostic.Presentable.text {d : Diagnostic} (presentable : d.Presentable) :
    Text.Printable d.text := by
  have severities : Text.Printable d.severity.name := by cases d.severity <;> decide
  have recoveries : ∀ r : Recovery, Text.Printable r.text := by
    intro r
    cases r <;> decide
  simp only [Diagnostic.text, Text.printable_append]
  refine ⟨⟨⟨⟨?_, severities⟩, by decide⟩, presentable.message⟩, ?_⟩
  · split
    · rename_i l known
      rw [Text.printable_append]
      exact ⟨Location.printable_text (presentable.loc l known), by decide⟩
    · decide
  · split
    · simp only [Text.printable_append, recoveries, and_true]
      decide
    · decide

theorem Complaint.printable_found (next : Option Token) : Text.Printable (Complaint.found next) := by
  cases next with
  | none => decide
  | some t => exact t.printable_describe

/-- What is said about a token that belongs to no program shows it in quotes. -/
theorem Complaint.printable_strangerNotes (next : Option Token) :
    ∀ note ∈ Complaint.strangerNotes next, Text.Printable note := by
  intro note member
  cases next with
  | none => cases member
  | some t =>
    simp only [strangerNotes] at member
    split at member
    · rw [List.mem_singleton.mp member, Text.printable_append]
      exact ⟨Text.printable_quote t.lexeme, by decide⟩
    · cases member

namespace Complaint

theorem presentable_missing {wanted : Wanted} {place : Place} {loc : Location}
    (known : Text.Printable wanted.text) (placed : Text.Printable place.text)
    (noted : ∀ note ∈ place.notes, Text.Printable note) (recovery : Recovery) (next : Option Token)
    (file : Text.Printable loc.file) : (missing wanted place recovery next loc).Presentable where
  loc := by simpa [missing] using file
  message := by
    simp only [missing, Text.printable_append, known, placed, printable_found, and_true]
    decide
  notes := List.forall_mem_append.mpr ⟨noted, printable_strangerNotes next⟩

end Complaint

end PlZero

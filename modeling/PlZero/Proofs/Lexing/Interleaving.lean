import PlZero.Proofs.Scanning
import PlZero.Token.Passes

/-! # Passes that take turns

Passes over one text are served in any order, and none of them can tell.  What a pass has delivered so far
and what is left of it always make up the tokens of the whole text.  This invariant (`Resumable`) is kept
by every step, so it holds at every point of every run, and all that a step replies can be read off it.
-/

namespace PlZero

namespace Passes

/-! ## Histories -/

/-- The steps of a run, each with its reply. -/
def history (p : Passes) (steps : List Step) : List (Step × Reply) := steps.zip (p.run steps).1

/-- The tokens of the pass `i` that a step has brought. -/
def delivery (i : Nat) : Step × Reply → List Token
  | (.next j, .token next) => if j = i then next.toList else []
  | (.drain j, .tokens all) => if j = i then all else []
  | _ => []

/-- All tokens of the pass `i` so far. -/
def delivered (i : Nat) (h : List (Step × Reply)) : List Token := h.flatMap (delivery i)

/-- The number of passes that have been started. -/
def begun (h : List (Step × Reply)) : Nat := h.countP fun e => e.1 = .start

variable {h : List (Step × Reply)} {p : Passes} {s : Step} {reply : Reply} {i : Nat}

theorem history_nil (p : Passes) : p.history [] = [] := rfl

theorem history_cons (p : Passes) (s : Step) (steps : List Step) :
    p.history (s :: steps) = (s, (p.step s).1) :: (p.step s).2.history steps := rfl

theorem map_fst_history (p : Passes) (steps : List Step) : (p.history steps).map Prod.fst = steps := by
  induction steps generalizing p with
  | nil => rfl
  | cons s steps ih => rw [history_cons, List.map_cons, ih]

theorem delivered_append (i : Nat) (h h' : List (Step × Reply)) :
    delivered i (h ++ h') = delivered i h ++ delivered i h' := List.flatMap_append

theorem delivered_snoc (i : Nat) (h : List (Step × Reply)) (e : Step × Reply) :
    delivered i (h ++ [e]) = delivered i h ++ delivery i e := by
  simp [delivered]

theorem begun_snoc (h : List (Step × Reply)) (s : Step) (reply : Reply) :
    begun (h ++ [(s, reply)]) = begun h + if s = .start then 1 else 0 := by
  simp [begun, List.countP_singleton]

/-! ## One step -/

theorem tokens_spent (p : Passes) : p.spent.tokens = [] := rfl

theorem pass_of_length_le (beyond : p.started.length ≤ i) : p.pass i = p.spent := by
  rw [pass, List.getD_eq_getElem?_getD, List.getElem?_eq_none beyond]
  rfl

/-- What the passes have delivered and what is left of them make up the text, wherever each of them
stands.  A pass that has not been started has delivered nothing. -/
structure Resumable (file source : String) (h : List (Step × Reply)) (p : Passes) : Prop where
  whole : p.whole = .ofText file source
  started : p.started.length = begun h
  absent : ∀ i, begun h ≤ i → delivered i h = []
  resumes : ∀ i, i < begun h → delivered i h ++ (p.pass i).tokens = tokenize source file

variable {file source : String}

theorem resumable_ofText (file source : String) : Resumable file source [] (ofText file source) :=
  ⟨rfl, rfl, fun _ _ => rfl, fun _ lt => absurd lt (Nat.not_lt_zero _)⟩

/-- A step that starts no pass and leaves every pass with what it has not delivered. -/
theorem Resumable.of_delivery (sound : Resumable file source h p) {p' : Passes} (noStart : s ≠ .start)
    (whole : p'.whole = p.whole) (started : p'.started.length = p.started.length)
    (absent : ∀ i, p.started.length ≤ i → delivery i (s, reply) = [])
    (left : ∀ i, i < p.started.length → delivery i (s, reply) ++ (p'.pass i).tokens = (p.pass i).tokens) :
    Resumable file source (h ++ [(s, reply)]) p' := by
  have same : begun (h ++ [(s, reply)]) = begun h := by rw [begun_snoc, if_neg noStart, Nat.add_zero]
  refine ⟨whole.trans sound.whole, by rw [started, sound.started, same], ?_, ?_⟩
  · intro i beyond
    rw [same] at beyond
    rw [delivered_snoc, sound.absent i beyond, absent i (by rw [sound.started]; exact beyond)]
    rfl
  · intro i known
    rw [same] at known
    rw [delivered_snoc, List.append_assoc, left i (by rw [sound.started]; exact known)]
    exact sound.resumes i known

theorem Resumable.start (sound : Resumable file source h p) :
    Resumable file source (h ++ [(.start, (p.step .start).1)]) (p.step .start).2 := by
  have more : begun (h ++ [(.start, (p.step .start).1)]) = begun h + 1 := by rw [begun_snoc, if_pos rfl]
  have nothing : ∀ i, delivered i (h ++ [(.start, (p.step .start).1)]) = delivered i h := by
    intro i
    rw [delivered_snoc]
    exact List.append_nil _
  refine ⟨sound.whole, ?_, ?_, ?_⟩
  · rw [more, ← sound.started]
    exact List.length_append
  · intro i beyond
    rw [nothing]
    exact sound.absent i (by omega)
  · intro i known
    rw [nothing]
    by_cases old : i < begun h
    · have same : (p.step .start).2.pass i = p.pass i := by
        simp [step, pass, spent, List.getElem?_append_left (sound.started ▸ old)]
      rw [same]
      exact sound.resumes i old
    -- the new pass stands at the start of the text
    · obtain rfl : i = p.started.length := by rw [sound.started]; omega
      have fresh : (p.step .start).2.pass p.started.length = p.whole := by simp [step, pass]
      rw [fresh, sound.absent _ (Nat.le_of_eq sound.started.symm), sound.whole]
      rfl

theorem pass_set (p : Passes) (j : Nat) (s : Scanner) (known : i < p.started.length) :
    pass { p with started := p.started.set j s } i = if j = i then s else p.pass i := by
  by_cases same : j = i
  · subst same
    simp [pass, known]
  · simp [pass, spent, same]

theorem Resumable.next (sound : Resumable file source h p) (j : Nat) :
    Resumable file source (h ++ [(.next j, (p.step (.next j)).1)]) (p.step (.next j)).2 := by
  cases reading : (p.pass j).next? with
  | none =>
    have run : p.step (.next j) = (.token none, p) := by simp [step, reading]
    rw [run]
    refine sound.of_delivery nofun rfl rfl ?_ ?_
    · intro i _
      simp [delivery]
    · intro i _
      simp [delivery]
  | some read =>
    obtain ⟨t, s⟩ := read
    have run : p.step (.next j) = (.token (some t), { p with started := p.started.set j s }) := by
      simp [step, reading]
    have known : j < p.started.length := by
      by_contra beyond
      rw [pass_of_length_le (Nat.not_lt.mp beyond)] at reading
      cases reading
    rw [run]
    refine sound.of_delivery nofun rfl List.length_set ?_ ?_
    · intro i beyond
      have other : j ≠ i := by omega
      simp [delivery, other]
    · intro i inside
      rw [pass_set p j s inside]
      by_cases same : j = i
      · subst same
        rw [Scanner.tokens_of_some reading]
        simp [delivery]
      · simp [delivery, same]

theorem Resumable.drain (sound : Resumable file source h p) (j : Nat) :
    Resumable file source (h ++ [(.drain j, (p.step (.drain j)).1)]) (p.step (.drain j)).2 := by
  refine sound.of_delivery nofun rfl List.length_set ?_ ?_
  · intro i beyond
    by_cases same : j = i
    · subst same
      simp [delivery, step, pass_of_length_le beyond, tokens_spent]
    · simp [delivery, step, same]
  · intro i inside
    have left : (p.step (.drain j)).2.pass i = if j = i then { p.pass j with rest := [] } else p.pass i :=
      pass_set p j _ inside
    rw [left]
    by_cases same : j = i
    · subst same
      have nothing : Scanner.tokens { p.pass j with rest := [] } = [] := rfl
      simp [delivery, step, nothing]
    · simp [delivery, step, same]

/-- Every step leaves all passes such that they can go on. -/
theorem Resumable.step (sound : Resumable file source h p) (s : Step) :
    Resumable file source (h ++ [(s, (p.step s).1)]) (p.step s).2 := by
  cases s with
  | start => exact sound.start
  | next i => exact sound.next i
  | drain i => exact sound.drain i
  | scan => exact sound.of_delivery nofun rfl rfl (fun _ _ => rfl) fun _ _ => rfl

/-- At every point of a run the passes can go on, and what comes then is a run from there. -/
theorem Resumable.split (sound : Resumable file source h p) {steps : List Step}
    {before after : List (Step × Reply)} (divided : p.history steps = before ++ after) :
    ∃ p' rest, Resumable file source (h ++ before) p' ∧ after = p'.history rest := by
  induction before generalizing h p steps with
  | nil => exact ⟨p, steps, by rwa [List.append_nil], divided.symm⟩
  | cons e before ih =>
    cases steps with
    | nil => cases divided
    | cons s steps =>
      rw [history_cons, List.cons_append] at divided
      obtain ⟨rfl, onwards⟩ := List.cons.inj divided
      obtain ⟨p', rest, sound', rfl⟩ := ih (sound.step s) onwards
      exact ⟨p', rest, by simpa using sound', rfl⟩

/-! ## Replies -/

/-- The reply that a step has to give behind the history `h`. -/
def Fits (all : List Token) (h : List (Step × Reply)) : Step → Reply → Prop
  | .start, reply => reply = .started (begun h)
  | .next i, reply => i < begun h → reply = .token all[(delivered i h).length]?
  | .drain i, reply => i < begun h → ∃ left, reply = .tokens left ∧ delivered i h ++ left = all
  | .scan, reply => reply = .tokens all

theorem head?_tokens (s : Scanner) : s.tokens.head? = s.next?.map Prod.fst := by
  rw [Scanner.tokens_eq]
  cases s.next? with
  | none | some => rfl

theorem Resumable.fits (sound : Resumable file source h p) (s : Step) :
    Fits (tokenize source file) h s (p.step s).1 := by
  cases s with
  | start => exact congrArg Reply.started sound.started
  | next i =>
    intro known
    rw [← sound.resumes i known, List.getElem?_append_right (Nat.le_refl _), Nat.sub_self,
      ← List.head?_eq_getElem?, head?_tokens, Passes.step]
    cases (p.pass i).next? with
    | none | some => rfl
  | drain i =>
    intro known
    exact ⟨_, rfl, sound.resumes i known⟩
  | scan =>
    show Reply.tokens p.whole.tokens = _
    rw [sound.whole]
    rfl

theorem Resumable.isPrefix (sound : Resumable file source h p) (i : Nat) :
    delivered i h <+: tokenize source file := by
  by_cases known : i < begun h
  · exact ⟨_, sound.resumes i known⟩
  · rw [sound.absent i (Nat.not_lt.mp known)]
    exact List.nil_prefix

variable {steps : List Step} {before after : List (Step × Reply)}

theorem isPrefix_of_history (divided : (ofText file source).history steps = before ++ after) (i : Nat) :
    delivered i before <+: tokenize source file := by
  obtain ⟨p, rest, sound, _⟩ := (resumable_ofText file source).split divided
  exact sound.isPrefix i

theorem fits_of_history (divided : (ofText file source).history steps = before ++ (s, reply) :: after) :
    Fits (tokenize source file) before s reply := by
  obtain ⟨p, rest, sound, onwards⟩ := (resumable_ofText file source).split divided
  cases rest with
  | nil => cases onwards
  | cons s' rest =>
    rw [history_cons] at onwards
    cases onwards
    exact sound.fits s

/-- A pass that has delivered all tokens has nothing more to deliver, however the run goes on. -/
theorem reply_of_exhausted {later : Step × Reply}
    (divided : (ofText file source).history steps = before ++ after) (known : i < begun before)
    (exhausted : delivered i before = tokenize source file) (member : later ∈ after) :
    (later.1 = .next i → later.2 = .token none) ∧ (later.1 = .drain i → later.2 = .tokens []) := by
  obtain ⟨between, behind, rfl⟩ := List.append_of_mem member
  obtain ⟨s, reply⟩ := later
  rw [← List.append_assoc] at divided
  have still : i < begun (before ++ between) := by
    rw [begun, List.countP_append]
    exact Nat.lt_of_lt_of_le known (Nat.le_add_right _ _)
  have all : delivered i (before ++ between) = tokenize source file := by
    apply (isPrefix_of_history divided i).eq_of_length_le
    rw [delivered_append, exhausted, List.length_append]
    omega
  have fits := fits_of_history divided
  constructor
  · rintro rfl
    have reply := fits still
    rwa [all, List.getElem?_eq_none (Nat.le_refl _)] at reply
  · rintro rfl
    obtain ⟨left, reply, rest⟩ := fits still
    rw [all] at rest
    rwa [List.append_right_eq_self.mp rest] at reply

/-- In every run, whichever way its steps take turns, every pass delivers the tokens of the text from the
first on and in order.  The next token of a pass is the one behind those that it has delivered; it is none
if and only if it has delivered them all, and then that stays so.  Draining a pass brings all that it has
not delivered, and reading the whole text in between brings all tokens. -/
theorem run_interleaved (file source : String) (steps : List Step) :
    let all := tokenize source file
    let h := (ofText file source).history steps
    h.map Prod.fst = steps ∧
    (∀ before after, h = before ++ after → ∀ i,
      delivered i before = all.take (delivered i before).length) ∧
    ∀ before s reply after, h = before ++ (s, reply) :: after →
      match s with
      | .start => reply = .started (begun before)
      | .next i => i < begun before →
        reply = .token all[(delivered i before).length]? ∧
        (reply = .token none ↔ delivered i before = all) ∧
        (reply = .token none → ∀ later ∈ after,
          (later.1 = .next i → later.2 = .token none) ∧ (later.1 = .drain i → later.2 = .tokens []))
      | .drain i => i < begun before → ∃ left, reply = .tokens left ∧ delivered i before ++ left = all
      | .scan => reply = .tokens all := by
  intro all h
  refine ⟨map_fst_history _ steps, ?_, ?_⟩
  · intro before after divided i
    exact List.prefix_iff_eq_take.mp (isPrefix_of_history divided i)
  intro before s reply after divided
  have fits := fits_of_history divided
  cases s with
  | start => exact fits
  | drain i => exact fits
  | scan => exact fits
  | next i =>
    intro known
    have answer := fits known
    have exhausted : reply = .token none ↔ delivered i before = all := by
      rw [answer, Reply.token.injEq, List.getElem?_eq_none_iff]
      constructor
      · exact fun many => (isPrefix_of_history divided i).eq_of_length_le many
      · exact fun equal => Nat.le_of_eq (congrArg _ equal.symm)
    refine ⟨answer, exhausted, ?_⟩
    intro none later member
    exact reply_of_exhausted divided known (exhausted.mp none) (List.mem_cons_of_mem _ member)

-- the second pass starts late and is read to its end while the first one waits
example :
    let h := (ofText "" "a := 1").history
      [.start, .next 0, .start, .next 1, .scan, .next 0, .drain 1, .next 1]
    (delivered 0 h).map Token.lexeme = ["a", ":="] ∧
      (delivered 1 h).map Token.lexeme = ["a", ":=", "1"] ∧
      h.getLast? = some (.next 1, .token none) := by
  decide

end Passes

end PlZero

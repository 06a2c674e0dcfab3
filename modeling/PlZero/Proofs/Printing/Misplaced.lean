import PlZero.Node.Written

/-! # What cannot be printed, and who is named

Anything may stand anywhere in a loose tree, but not everything can be printed there.  A `Visit` is a part
of a tree together with what its place wants, and `Visit.walk` lists all visits below one in the order in
which they are made: a part before its own parts, and these in the order of the fields.

A printer follows the walk.  It gives a text exactly if every visit finds what its place wants, and
otherwise it names what the first visit in vain has found.  `Follows` says this of any attempt, with a rule
for each way in which attempts are put together, so that the proof for a printer has one step for each
construct.
-/

namespace PlZero

/-- What a place in a tree wants. -/
inductive Spot
  /-- A place with lines of its own takes every construct. -/
  | line
  /-- Inside a line there is room for expressions and conditions. -/
  | inline
  /-- Where an expression is written out, only expressions can stand. -/
  | operand

/-- Whether a place takes a construct. -/
def Spot.takes : Spot → Construct → Bool
  | .line, _ => true
  | .inline, c => c.isExpression || c = .odd || c = .relation
  | .operand, c => c.isExpression

/-- What is wanted inside an expression that stands at a place. -/
def Spot.inside : Spot → Spot
  | .operand => .operand
  | _ => .inline

/-- A part of a tree and what its place wants. -/
structure Visit where
  spot : Spot
  node : Node

namespace Visit

/-- Whether there is what the place wants. -/
def fits (v : Visit) : Bool := v.node.construct?.any v.spot.takes

/-- The visits to the parts of what is found, in the order of its fields.  What does not fit has none. -/
def parts : Visit → List Visit
  | ⟨.line, .program b⟩ => [⟨.line, b⟩]
  | ⟨.line, .block _ _ ps s⟩ => ps.map (⟨.line, ·⟩) ++ [⟨.line, s⟩]
  | ⟨.line, .procedure _ b⟩ => [⟨.line, b⟩]
  | ⟨.line, .compound ss⟩ => ss.map (⟨.line, ·⟩)
  | ⟨.line, .branch c yes .absent⟩ => [⟨.inline, c⟩, ⟨.line, yes⟩]
  | ⟨.line, .branch c yes no⟩ => [⟨.inline, c⟩, ⟨.line, yes⟩, ⟨.line, no⟩]
  | ⟨.line, .loop c s⟩ => [⟨.inline, c⟩, ⟨.line, s⟩]
  | ⟨.line, .assign _ e⟩ => [⟨.inline, e⟩]
  | ⟨spot, .binary _ l r⟩ => [⟨spot.inside, l⟩, ⟨spot.inside, r⟩]
  | ⟨spot, .signed _ e⟩ => [⟨spot.inside, e⟩]
  | ⟨spot, .group e⟩ => [⟨spot.inside, e⟩]
  | ⟨.operand, _⟩ => []
  | ⟨_, .relation _ l r⟩ => [⟨.inline, l⟩, ⟨.inline, r⟩]
  | ⟨_, .odd e⟩ => [⟨.inline, e⟩]
  | _ => []

theorem sizeOf_lt_of_mem_parts {v w : Visit} (part : w ∈ v.parts) : sizeOf w.node < sizeOf v.node := by
  unfold parts at part
  split at part <;> simp only [List.mem_append, List.mem_map, List.mem_cons, List.not_mem_nil] at part <;>
    grind [→ List.sizeOf_lt_of_mem]

/-- All visits from one on, in the order in which they are made. -/
def walk (v : Visit) : List Visit := v :: v.parts.attach.flatMap fun w => w.val.walk
termination_by sizeOf v.node
decreasing_by exact sizeOf_lt_of_mem_parts w.property

theorem walk_eq (v : Visit) : v.walk = v :: v.parts.flatMap walk := by
  rw [walk, List.flatMap_subtype (g := walk) (fun _ _ => rfl), List.unattach_attach]

end Visit

/-! ## Attempts that follow a walk -/

variable {α β : Type} {v : Visit} {vs ws : List Visit}

/-- The attempt fails with the name of what the first visit in vain has found, and succeeds if there is
no such visit. -/
def Follows (vs : List Visit) (attempt : Except Misplaced α) : Prop :=
  match vs.find? (!·.fits) with
  | some v => attempt = .error ⟨v.node.label⟩
  | none => ∃ a, attempt = .ok a

namespace Follows

variable {attempt : Except Misplaced α}

theorem ok (a : α) : Follows [] (.ok a) := ⟨a, rfl⟩

/-- The first attempt makes the first visits, and the second one is made only if it succeeds. -/
theorem bind {f : α → Except Misplaced β} (first : Follows vs attempt) (second : ∀ a, Follows ws (f a)) :
    Follows (vs ++ ws) (attempt >>= f) := by
  unfold Follows at first
  rw [Follows, List.find?_append]
  cases vain : vs.find? (!·.fits) with
  | some v =>
    rw [vain] at first
    rw [first]
    rfl
  | none =>
    rw [vain] at first
    obtain ⟨a, rfl⟩ := first
    exact second a

/-- What is made of the result does not matter. -/
theorem map {f : α → β} (follows : Follows vs attempt) :
    Follows vs (attempt >>= fun a => pure (f a)) := by
  have joined : Follows (vs ++ []) (attempt >>= fun a => pure (f a)) := follows.bind fun a => ok (f a)
  rwa [List.append_nil] at joined

/-- A visit in vain ends the attempt at once. -/
theorem vain (misfit : v.fits = false) : Follows v.walk (.error ⟨v.node.label⟩ : Except Misplaced α) := by
  rw [Follows, v.walk_eq, List.find?_cons_of_pos (by simp [misfit])]

/-- If there is what the place wants, the visits to its parts decide. -/
theorem enter (fit : v.fits = true) (follows : Follows (v.parts.flatMap Visit.walk) attempt) :
    Follows v.walk attempt := by
  rw [Follows, v.walk_eq, List.find?_cons_of_neg (by simp [fit])]
  exact follows

/-- Two places that want the same of something are visited alike. -/
theorem elsewhere {n : Node} {spot spot' : Spot} (fits : Visit.fits ⟨spot, n⟩ = Visit.fits ⟨spot', n⟩)
    (parts : Visit.parts ⟨spot, n⟩ = Visit.parts ⟨spot', n⟩)
    (follows : Follows (Visit.walk ⟨spot, n⟩) attempt) : Follows (Visit.walk ⟨spot', n⟩) attempt := by
  unfold Follows at follows ⊢
  rw [Visit.walk_eq, ← parts]
  rw [Visit.walk_eq] at follows
  cases fit : Visit.fits ⟨spot, n⟩ with
  | true =>
    rw [List.find?_cons_of_neg (by simp [fit])] at follows
    rw [List.find?_cons_of_neg (by simp [← fits, fit])]
    exact follows
  | false =>
    rw [List.find?_cons_of_pos (by simp [fit])] at follows
    rw [List.find?_cons_of_pos (by simp [← fits, fit])]
    exact follows

end Follows

/-! ## Printers -/

namespace Node

/-- A form with two operands. -/
theorem follows_two {spot : Spot} {l r : Node} {first second : Except Misplaced String}
    {join : String → String → String} (left : Follows (Visit.walk ⟨spot, l⟩) first)
    (right : Follows (Visit.walk ⟨spot, r⟩) second) :
    Follows ([⟨spot, l⟩, ⟨spot, r⟩].flatMap Visit.walk) (do
      let s ← first
      let s' ← second
      return join s s') := by
  simp only [List.flatMap_cons, List.flatMap_nil, List.append_nil]
  exact left.bind fun s => right.map

/-- A form with one operand. -/
theorem follows_one {spot : Spot} {n : Node} {attempt : Except Misplaced α} {f : α → β}
    (follows : Follows (Visit.walk ⟨spot, n⟩) attempt) :
    Follows ([⟨spot, n⟩].flatMap Visit.walk) (attempt >>= fun a => pure (f a)) := by
  simp only [List.flatMap_cons, List.flatMap_nil, List.append_nil]
  exact follows.map

theorem inline_follows (n : Node) : Follows (Visit.walk ⟨.inline, n⟩) n.inline := by
  fun_induction inline n with
  | case1 | case2 | case8 => exact .enter rfl (.ok _)
  | case3 op l r ihl ihr | case4 op l r ihl ihr => exact .enter rfl (follows_two ihl ihr)
  | case5 s e ih | case6 e ih | case7 e ih => exact .enter rfl (follows_one ih)
  | case9 n =>
    -- all that is left has no form inside a line
    refine .vain ?_
    cases n <;> first | rfl | simp_all

theorem written_follows (n : Node) : Follows (Visit.walk ⟨.operand, n⟩) n.written := by
  fun_induction written n with
  | case1 | case2 | case6 => exact .enter rfl (.ok _)
  | case3 op l r ihl ihr => exact .enter rfl (follows_two ihl ihr)
  | case4 s e ih | case5 e ih => exact .enter rfl (follows_one ih)
  | case7 n =>
    refine .vain ?_
    cases n <;> first | rfl | simp_all

/-- What has no lines of its own is written on one line. -/
theorem follows_on_line {indent : String} {n : Node}
    (inline : n.lines indent = (do
      let line ← n.inline
      return [line]))
    (fits : Visit.fits ⟨.inline, n⟩ = Visit.fits ⟨.line, n⟩)
    (parts : Visit.parts ⟨.inline, n⟩ = Visit.parts ⟨.line, n⟩) :
    Follows (Visit.walk ⟨.line, n⟩) (n.lines indent) := by
  rw [inline]
  exact n.inline_follows.map.elsewhere fits parts

mutual

theorem lines_follows (indent : String) : ∀ n : Node, Follows (Visit.walk ⟨.line, n⟩) (n.lines indent)
  | .program b => .enter rfl (follows_one (lines_follows indent b))
  | .block cs vs ps s => by
    refine .enter rfl ?_
    simp only [Visit.parts, List.flatMap_append, List.flatMap_singleton]
    exact (linesOfAll_follows indent ps).bind fun _ => (lines_follows indent s).map
  | .procedure id b => .enter rfl (follows_one (lines_follows indent b))
  | .compound ss => .enter rfl (linesOfAll_follows indent ss).map
  | .branch c yes no => by
    refine .enter rfl ?_
    by_cases absent : no = .absent
    · subst absent
      simp only [Visit.parts, List.flatMap_cons, List.flatMap_nil, List.append_nil]
      exact c.inline_follows.bind fun _ => (lines_follows indent yes).map
    · rw [Visit.parts, lines]
      · simp only [List.flatMap_cons, List.flatMap_nil, List.append_nil]
        exact c.inline_follows.bind fun _ =>
          (lines_follows indent yes).bind fun _ => (lines_follows indent no).map
      · exact absent
      · exact absent
  | .loop c s => by
    refine .enter rfl ?_
    simp only [Visit.parts, List.flatMap_cons, List.flatMap_nil, List.append_nil]
    exact c.inline_follows.bind fun _ => (lines_follows indent s).map
  | .assign t e => .enter rfl (follows_one e.inline_follows)
  | .call p | .read t | .write s | .const id v | .var id => .enter rfl (.ok _)
  | .integer v | .name id | .binary op l r | .relation op l r | .signed s e | .group e | .odd e
  | .missing | .absent | .text s => follows_on_line rfl rfl rfl

theorem linesOfAll_follows (indent : String) : ∀ ns : List Node,
    Follows ((ns.map (Visit.mk .line)).flatMap Visit.walk) (linesOfAll indent ns)
  | [] => .ok _
  | n :: ns => by
    rw [List.map_cons, List.flatMap_cons]
    exact (lines_follows indent n).bind fun _ => (linesOfAll_follows indent ns).map

end

theorem outline_follows (indent : String) (n : Node) :
    Follows (Visit.walk ⟨.line, n⟩) (n.outline indent) := (lines_follows indent n).map

end Node

/-! ## Who is named -/

/-- The first visit in vain. -/
def FirstVain (vs : List Visit) (v : Visit) : Prop :=
  ∃ before after, vs = before ++ v :: after ∧ (∀ w ∈ before, w.fits = true) ∧ v.fits = false

theorem firstVain_iff : FirstVain vs v ↔ vs.find? (!·.fits) = some v := by
  rw [List.find?_eq_some_iff_append]
  constructor
  · rintro ⟨before, after, divided, fitting, misfit⟩
    exact ⟨by simp [misfit], before, after, divided, by simpa using fitting⟩
  · rintro ⟨misfit, before, after, divided, fitting⟩
    exact ⟨before, after, divided, by simpa using fitting, by simpa using misfit⟩

namespace Follows

variable {attempt : Except Misplaced α}

theorem exists_eq_ok_iff (follows : Follows vs attempt) :
    (∃ a, attempt = .ok a) ↔ ∀ v ∈ vs, v.fits = true := by
  unfold Follows at follows
  cases first : vs.find? (!·.fits) with
  | some v =>
    rw [first] at follows
    have misfit : v.fits = false := by simpa using List.find?_some first
    constructor
    · rintro ⟨a, rfl⟩
      cases follows
    · intro fitting
      rw [fitting v (List.mem_of_find?_eq_some first)] at misfit
      cases misfit
  | none =>
    rw [first] at follows
    have fitting : ∀ v ∈ vs, v.fits = true := by simpa using List.find?_eq_none.mp first
    exact iff_of_true follows fitting

/-- The complaint is about the first visit in vain, whatever its words are. -/
theorem mapError_eq_error_iff (follows : Follows vs attempt) (words : Misplaced → String) {message : String} :
    attempt.mapError words = .error message ↔ ∃ v, FirstVain vs v ∧ message = words ⟨v.node.label⟩ := by
  simp only [firstVain_iff]
  unfold Follows at follows
  cases first : vs.find? (!·.fits) with
  | some v =>
    rw [first] at follows
    rw [follows]
    show (Except.error (words ⟨v.node.label⟩) : Except String α) = .error message ↔ _
    simp [eq_comm]
  | none =>
    rw [first] at follows
    obtain ⟨a, rfl⟩ := follows
    show (Except.ok a : Except String α) = .error message ↔ _
    simp

end Follows

/-- Both printers refuse a tree exactly if its walk makes a visit in vain, and what they name is what the
first such visit has found.  An outline starts at a place for lines; an expression that is written out has
only expressions in it. -/
theorem Node.printing_refused_iff (n : Node) (indent message : String) :
    ((∃ text, n.outline indent = .ok text) ↔ ∀ v ∈ Visit.walk ⟨.line, n⟩, v.fits = true) ∧
    ((n.outline indent).mapError Misplaced.outlineMessage = .error message ↔
      ∃ v, FirstVain (Visit.walk ⟨.line, n⟩) v ∧
        message = "Cannot format node type: " ++ v.node.label) ∧
    ((∃ text, n.written = .ok text) ↔ ∀ v ∈ Visit.walk ⟨.operand, n⟩, v.fits = true) ∧
    (n.written.mapError Misplaced.writtenMessage = .error message ↔
      ∃ v, FirstVain (Visit.walk ⟨.operand, n⟩) v ∧
        message = "Cannot render expression type: " ++ v.node.label) := by
  have outlined := n.outline_follows indent
  have written := n.written_follows
  exact ⟨outlined.exists_eq_ok_iff, outlined.mapError_eq_error_iff _, written.exists_eq_ok_iff,
    written.mapError_eq_error_iff _⟩

-- the call is met before the other operand and the branch that is not there, none of which fits either
example : (Node.branch (.binary "+" (.call "p") (.text "x")) .absent .absent).outline "  " =
    .error ⟨"CallNode"⟩ := rfl

end PlZero

import PlZero.Proofs.Anchoring.Productions
import PlZero.Proofs.Lexing.Spans
import PlZero.Proofs.Nesting.Cutoff

/-! # Trees follow the source

The tokens of a text stand one behind the other, and a tree speaks of them in order, so its constructs
stand one behind the other too.  Within a block this holds of each class of declarations, and all
declarations come before the body; how the classes lie between each other is up to the source, but no
two constructs ever stand at the same place.
-/

namespace PlZero

/-! ## Constructs that stand at a token -/

/-- Whether a construct is known by a token of its own. -/
def Construct.hasToken : Construct → Bool
  | .program | .block | .missing => false
  | _ => true

/-- The constructs among what is mentioned. -/
def anchored (ms : List Mention) : List Anchor := ms.filterMap Mention.anchor?

@[simp] theorem anchored_append (ms ms' : List Mention) :
    anchored (ms ++ ms') = anchored ms ++ anchored ms' := List.filterMap_append

@[simp] theorem anchored_nil : anchored [] = [] := rfl

@[simp] theorem anchored_cons_some (peg : Peg) (a : Anchor) (ms : List Mention) :
    anchored (⟨peg, some a⟩ :: ms) = a :: anchored ms := rfl

@[simp] theorem anchored_cons_none (peg : Peg) (ms : List Mention) :
    anchored (⟨peg, none⟩ :: ms) = anchored ms := rfl

@[simp] theorem anchored_consts (cs : List ConstDecl) :
    anchored (cs.flatMap ConstDecl.mentions) = cs.map ConstDecl.anchor := by
  induction cs with
  | nil => rfl
  | cons c cs ih => simp [ConstDecl.mentions, ih]

@[simp] theorem anchored_vars (vs : List VarDecl) :
    anchored (vs.flatMap VarDecl.mentions) = vs.map VarDecl.anchor := by
  induction vs with
  | nil => rfl
  | cons v vs ih => simp [VarDecl.mentions, ih]

/-- The anchors of the constructs that have a token. -/
def tokenAnchors (as : List Anchor) : List Anchor := as.filter fun a => a.1.hasToken

@[simp] theorem tokenAnchors_append (as as' : List Anchor) :
    tokenAnchors (as ++ as') = tokenAnchors as ++ tokenAnchors as' := List.filter_append as as'

theorem tokenAnchors_cons {a : Anchor} (known : a.1.hasToken = true) (as : List Anchor) :
    tokenAnchors (a :: as) = a :: tokenAnchors as := List.filter_cons_of_pos known

theorem tokenAnchors_eq_self {as : List Anchor} (known : ∀ a ∈ as, a.1.hasToken = true) :
    tokenAnchors as = as := List.filter_eq_self.mpr known

theorem Expr.anchored_perm (e : Expr) : (anchored e.mentions).Perm (tokenAnchors e.anchors) := by
  induction e with
  | integer | name | missing => exact .refl _
  | binary op a b l iha ihb =>
    -- it is mentioned between its operands, but its anchor comes before theirs
    rw [mentions, anchored_append, anchored_cons_some, anchors, tokenAnchors_cons rfl, tokenAnchors_append]
    exact List.perm_middle.trans ((iha.append ihb).cons _)
  | signed s e l ih => exact ih.cons _
  | group e l ih => exact ih.cons _

theorem Condition.anchored_perm (c : Condition) :
    (anchored c.mentions).Perm (tokenAnchors c.anchors) := by
  cases c with
  | missing => exact .refl _
  | odd e l => exact e.anchored_perm.cons _
  | relation op a b l =>
    rw [mentions, anchored_append, anchored_cons_some, anchors, tokenAnchors_cons rfl, tokenAnchors_append]
    exact List.perm_middle.trans ((a.anchored_perm.append b.anchored_perm).cons _)

mutual

theorem Stmt.anchored_perm : ∀ s : Stmt, (anchored s.mentions).Perm (tokenAnchors s.anchors)
  | .assign target e l => e.anchored_perm.cons _
  | .call .. | .read .. | .write .. | .empty _ => .refl _
  | .compound ss l => (Stmt.anchoredList_perm ss).cons _
  | .branch c y n l => by
    rw [Stmt.anchors, tokenAnchors_cons rfl]
    simp only [Stmt.mentions, anchored_append, anchored_cons_some, tokenAnchors_append]
    exact ((c.anchored_perm.append (Stmt.anchored_perm y)).append (Stmt.anchoredOption_perm n)).cons _
  | .loop c s l => by
    rw [Stmt.anchors, tokenAnchors_cons rfl]
    simp only [Stmt.mentions, anchored_append, anchored_cons_some, tokenAnchors_append]
    exact (c.anchored_perm.append (Stmt.anchored_perm s)).cons _

theorem Stmt.anchoredList_perm : ∀ ss : List Stmt,
    (anchored (Stmt.mentionsList ss)).Perm (tokenAnchors (Stmt.anchorsList ss))
  | [] => .refl _
  | s :: ss => by
    simp only [Stmt.mentionsList, anchored_append, Stmt.anchorsList, tokenAnchors_append]
    exact (Stmt.anchored_perm s).append (Stmt.anchoredList_perm ss)

theorem Stmt.anchoredOption_perm : ∀ n : Option Stmt,
    (anchored (Stmt.mentionsOption n)).Perm (tokenAnchors (Stmt.anchorsOption n))
  | none => .refl _
  | some s => Stmt.anchored_perm s

end

mutual

theorem Block.anchored_perm : ∀ b : Block, (anchored b.mentions).Perm (tokenAnchors b.anchors)
  | ⟨cs, vs, ps, s, l⟩ => by
    have consts : tokenAnchors (cs.map ConstDecl.anchor) = cs.map ConstDecl.anchor :=
      tokenAnchors_eq_self (by simp [ConstDecl.anchor, Construct.hasToken])
    have vars : tokenAnchors (vs.map VarDecl.anchor) = vs.map VarDecl.anchor :=
      tokenAnchors_eq_self (by simp [VarDecl.anchor, Construct.hasToken])
    have parts : tokenAnchors (Block.anchors ⟨cs, vs, ps, s, l⟩) = tokenAnchors (cs.map ConstDecl.anchor ++
        vs.map VarDecl.anchor ++ Procedure.anchorsList ps ++ s.anchors) := rfl
    rw [parts]
    simp only [tokenAnchors_append, consts, vars, Block.mentions, anchored_append, anchored_consts,
      anchored_vars]
    exact ((List.Perm.refl _).append (Procedure.anchoredList_perm ps)).append s.anchored_perm

theorem Procedure.anchored_perm : ∀ p : Procedure,
    (anchored p.mentions).Perm (tokenAnchors p.anchors)
  | ⟨_, b, _⟩ => (Block.anchored_perm b).cons _

theorem Procedure.anchoredList_perm : ∀ ps : List Procedure,
    (anchored (Procedure.mentionsList ps)).Perm (tokenAnchors (Procedure.anchorsList ps))
  | [] => .refl _
  | p :: ps => by
    simp only [Procedure.mentionsList, anchored_append, Procedure.anchorsList, tokenAnchors_append]
    exact (Procedure.anchored_perm p).append (Procedure.anchoredList_perm ps)

end

theorem Program.anchored_perm (p : Program) : (anchored p.mentions).Perm (tokenAnchors p.anchors) :=
  p.block.anchored_perm

/-! ## Order -/

/-- Both locations have an offset, and that of the first is smaller. -/
def Location.Before (l l' : Location) : Prop :=
  ∃ i j : Int, l.offset = some i ∧ l'.offset = some j ∧ i < j

/-- The constructs stand one behind the other. -/
def Ascending (as : List Anchor) : Prop := as.Pairwise fun a b => a.2.Before b.2

/-- The constructs of the first list all stand before those of the second. -/
def Precede (as bs : List Anchor) : Prop := ∀ a ∈ as, ∀ b ∈ bs, a.2.Before b.2

mutual

/-- A block follows the source: each class of its declarations is in order, and its body is in order and
behind them. -/
def Block.InOrder : Block → Prop
  | ⟨cs, vs, ps, s, _⟩ => Ascending (cs.map ConstDecl.anchor) ∧ Ascending (vs.map VarDecl.anchor) ∧
      Procedure.InOrderList ps ∧ Ascending (anchored s.mentions) ∧
      Precede (cs.map ConstDecl.anchor ++ vs.map VarDecl.anchor ++
        anchored (Procedure.mentionsList ps)) (anchored s.mentions)

/-- A procedure starts with its keyword. -/
def Procedure.InOrder : Procedure → Prop
  | ⟨_, b, l⟩ => Precede [(.procedure, l)] (anchored b.mentions) ∧ b.InOrder

/-- Procedures in a row, all of one before all of the next. -/
def Procedure.InOrderList : List Procedure → Prop
  | [] => True
  | p :: ps => p.InOrder ∧ Precede (anchored p.mentions) (anchored (Procedure.mentionsList ps)) ∧
      Procedure.InOrderList ps

end

section Owners

variable {limit : Int} {ms ms' : List Mention} {own own' : List Token}

/-- The constructs stand where their tokens do. -/
theorem sublist_locs (fits : List.Forall₂ (Mention.Fits limit) ms own) :
    ((anchored ms).map Prod.snd).Sublist (own.map Token.loc) := by
  induction fits with
  | nil => exact .slnil
  | @cons m t ms own fit _ ih =>
    obtain ⟨peg, anchor⟩ := m
    cases anchor with
    | none => exact ih.cons _
    | some a =>
      have place : t.loc = a.2 := fit.loc a rfl
      rw [anchored_cons_some, List.map_cons, List.map_cons, place]
      exact ih.cons_cons _

theorem exists_owner (fits : List.Forall₂ (Mention.Fits limit) ms own) {a : Anchor}
    (member : a ∈ anchored ms) : ∃ t ∈ own, t.loc = a.2 :=
  List.mem_map.mp ((sublist_locs fits).subset (List.mem_map_of_mem member))

theorem ascending_of_owners (fits : List.Forall₂ (Mention.Fits limit) ms own)
    (ordered : own.Pairwise fun t u => t.loc.Before u.loc) : Ascending (anchored ms) := by
  have places : (own.map Token.loc).Pairwise Location.Before := List.pairwise_map.mpr ordered
  exact List.pairwise_map.mp (places.sublist (sublist_locs fits))

theorem precede_of_owners (fits : List.Forall₂ (Mention.Fits limit) ms own)
    (fits' : List.Forall₂ (Mention.Fits limit) ms' own')
    (between : ∀ t ∈ own, ∀ u ∈ own', t.loc.Before u.loc) :
    Precede (anchored ms) (anchored ms') := by
  intro a member b member'
  obtain ⟨t, owns, place⟩ := exists_owner fits member
  obtain ⟨u, owns', place'⟩ := exists_owner fits' member'
  rw [← place, ← place']
  exact between t owns u owns'

end Owners

/-! ## Blocks and their tokens -/

section Blocks

variable {limit : Int}

mutual

/-- All that a block speaks of has a token, and no token serves twice. -/
theorem Block.Grounded.owned : ∀ {b : Block} {ts : List Token}, b.Grounded limit ts →
    ∃ own, List.Subperm own ts ∧ List.Forall₂ (Mention.Fits limit) b.mentions own
  | ⟨cs, vs, ps, s, _⟩, ts, grounded => by
    simp only [Block.Grounded] at grounded
    obtain ⟨ds, bs, rfl, ⟨own, own', own'', all, ⟨_, fits⟩, ⟨_, fits'⟩, _, listed⟩, body⟩ := grounded
    obtain ⟨rest, inside, fits''⟩ := Procedure.GroundedList.owned listed
    obtain ⟨last, fitsLast, insideLast⟩ := List.sublistForall₂_iff.mp body
    refine ⟨own ++ own' ++ rest ++ last, ?_, ?_⟩
    · have declared : (own ++ own' ++ rest).Subperm ds :=
        ((List.subperm_append_left _).mpr inside).trans all
      exact declared.append insideLast.subperm
    · rw [Block.mentions]
      exact List.rel_append (List.rel_append (List.rel_append fits fits') fits'') fitsLast

theorem Procedure.Grounded.owned : ∀ {p : Procedure} {ts : List Token}, p.Grounded limit ts →
    ∃ own, List.Subperm own ts ∧ List.Forall₂ (Mention.Fits limit) p.mentions own
  | ⟨name, b, l⟩, ts, grounded => by
    simp only [Procedure.Grounded] at grounded
    obtain ⟨t, t', bs, rfl, keyword, identifier, block⟩ := grounded
    obtain ⟨own, inside, fits⟩ := Block.Grounded.owned block
    refine ⟨t :: t' :: own, ?_, ?_⟩
    · exact (List.subperm_append_left [t, t']).mpr inside
    · rw [Procedure.mentions]
      exact .cons keyword (.cons identifier fits)

theorem Procedure.GroundedList.owned : ∀ {ps : List Procedure} {ts : List Token},
    Procedure.GroundedList limit ps ts →
    ∃ own, List.Subperm own ts ∧ List.Forall₂ (Mention.Fits limit) (Procedure.mentionsList ps) own
  | [], ts, _ => ⟨[], List.nil_subperm, .nil⟩
  | p :: ps, ts, grounded => by
    simp only [Procedure.GroundedList] at grounded
    obtain ⟨ts, ts', rfl, first, behind⟩ := grounded
    obtain ⟨own, inside, fits⟩ := Procedure.Grounded.owned first
    obtain ⟨own', inside', fits'⟩ := Procedure.GroundedList.owned behind
    refine ⟨own ++ own', inside.append inside', ?_⟩
    rw [Procedure.mentionsList]
    exact List.rel_append fits fits'

end

mutual

/-- A block whose tokens stand one behind the other follows the source. -/
theorem Block.Grounded.inOrder : ∀ {b : Block} {ts : List Token}, b.Grounded limit ts →
    ts.Pairwise (fun t u => t.loc.Before u.loc) → b.InOrder
  | ⟨cs, vs, ps, s, _⟩, ts, grounded, ordered => by
    simp only [Block.Grounded] at grounded
    obtain ⟨ds, bs, rfl, ⟨own, own', own'', _, ⟨inside, fits⟩, ⟨inside', fits'⟩, inside'', listed⟩,
      body⟩ := grounded
    obtain ⟨rest, insideRest, fits''⟩ := Procedure.GroundedList.owned listed
    obtain ⟨last, fitsLast, insideLast⟩ := List.sublistForall₂_iff.mp body
    obtain ⟨declared, follows, between⟩ := List.pairwise_append.mp ordered
    -- whatever is declared has its tokens in `ds`, and the body has them in `bs`
    have beforeBody {ms : List Mention} {own : List Token}
        (fits : List.Forall₂ (Mention.Fits limit) ms own) (inside : own ⊆ ds) :
        Precede (anchored ms) (anchored s.mentions) := by
      apply precede_of_owners fits fitsLast
      intro t owns u owns'
      exact between t (inside owns) u (insideLast.subset owns')
    simp only [Block.InOrder]
    refine ⟨?_, ?_, ?_, ?_, ?_⟩
    · rw [← anchored_consts]
      exact ascending_of_owners fits (declared.sublist inside)
    · rw [← anchored_vars]
      exact ascending_of_owners fits' (declared.sublist inside')
    · exact Procedure.GroundedList.inOrder listed (declared.sublist inside'')
    · exact ascending_of_owners fitsLast (follows.sublist insideLast)
    · rw [← anchored_consts, ← anchored_vars]
      intro a member
      cases List.mem_append.mp member with
      | inl first =>
        cases List.mem_append.mp first with
        | inl const => exact beforeBody fits inside.subset a const
        | inr var => exact beforeBody fits' inside'.subset a var
      | inr procedure =>
        exact beforeBody fits'' (fun t owns => inside''.subset (insideRest.subset owns)) a procedure

theorem Procedure.Grounded.inOrder : ∀ {p : Procedure} {ts : List Token}, p.Grounded limit ts →
    ts.Pairwise (fun t u => t.loc.Before u.loc) → p.InOrder
  | ⟨name, b, l⟩, ts, grounded, ordered => by
    simp only [Procedure.Grounded] at grounded
    obtain ⟨t, t', bs, rfl, keyword, _, block⟩ := grounded
    obtain ⟨own, inside, fits⟩ := Block.Grounded.owned block
    obtain ⟨first, behind⟩ := List.pairwise_cons.mp ordered
    simp only [Procedure.InOrder]
    constructor
    · have head : List.Forall₂ (Mention.Fits limit)
          [⟨.word (.keyword "procedure"), some (.procedure, l)⟩] [t] := .cons keyword .nil
      apply precede_of_owners head fits
      intro u owns v owns'
      rw [List.mem_singleton.mp owns]
      exact first v (List.mem_cons_of_mem _ (inside.subset owns'))
    · exact Block.Grounded.inOrder block (List.pairwise_cons.mp behind).2

theorem Procedure.GroundedList.inOrder : ∀ {ps : List Procedure} {ts : List Token},
    Procedure.GroundedList limit ps ts → ts.Pairwise (fun t u => t.loc.Before u.loc) →
    Procedure.InOrderList ps
  | [], ts, _, _ => by simp only [Procedure.InOrderList]
  | p :: ps, ts, grounded, ordered => by
    simp only [Procedure.GroundedList] at grounded
    obtain ⟨ts, ts', rfl, first, behind⟩ := grounded
    obtain ⟨own, inside, fits⟩ := Procedure.Grounded.owned first
    obtain ⟨own', inside', fits'⟩ := Procedure.GroundedList.owned behind
    obtain ⟨ordered, ordered', between⟩ := List.pairwise_append.mp ordered
    simp only [Procedure.InOrderList]
    refine ⟨Procedure.Grounded.inOrder first ordered, ?_, Procedure.GroundedList.inOrder behind ordered'⟩
    apply precede_of_owners fits fits'
    intro t owns u owns'
    exact between t (inside.subset owns) u (inside'.subset owns')

end

end Blocks

/-! ## Programs -/

theorem pairwise_before_tokenize (source file : String) :
    (tokenize source file).Pairwise fun t u => t.loc.Before u.loc := by
  have reading := tokenize_reading source file
  apply reading.pairwise.imp_of_mem
  intro t u member member' apart
  -- a token ends behind its start, and the next one starts no earlier than that
  have stands := (reading.standsIn t member).1
  have stands' := (reading.standsIn u member').1
  have nonempty : 0 < t.lexeme.length :=
    Nat.pos_of_ne_zero fun empty => stands.nonempty (String.length_eq_zero_iff.mp empty)
  refine ⟨t.start, u.start, stands.offset, stands'.offset, ?_⟩
  rw [Token.stop] at apart
  omega

/-- Tokens that stand one behind the other have different offsets, whatever order they are taken in. -/
theorem nodup_offsets {limit : Int} {ms : List Mention} {own ts : List Token}
    (fits : List.Forall₂ (Mention.Fits limit) ms own) (inside : own.Subperm ts)
    (ordered : ts.Pairwise fun t u => t.loc.Before u.loc) :
    ((anchored ms).map fun a => a.2.offset).Nodup := by
  obtain ⟨own', same, within⟩ := inside
  have offsets : (ts.map fun t => t.loc.offset).Nodup := by
    apply List.pairwise_map.mpr
    apply ordered.imp
    rintro t u ⟨i, j, offset, offset', lt⟩ equal
    rw [offset, offset', Option.some.injEq] at equal
    omega
  have owned : (own.map fun t => t.loc.offset).Nodup :=
    (same.map _).nodup_iff.mp (offsets.sublist (within.map _))
  have placed := (sublist_locs fits).map Location.offset
  rw [List.map_map, List.map_map] at placed
  exact owned.sublist placed

namespace Parser

theorem closedBlock_takes {cx : Context} {limit : Int} (limited : cx.limits.maxInteger = .number limit)
    (room : Nat) (r : List Token) :
    Takes (closedBlock cx room) r fun b taken => ∃ own, own.Sublist taken ∧ b.Grounded limit own := by
  apply (block_takes limited room r).bind
  intro b taken r' grounded
  apply Takes.require.bind
  intro _ closing _ _
  exact .pure ⟨taken, by simp, grounded⟩

theorem grounded_abandoned (limit : Int) (l : Location) : (abandoned l).block.Grounded limit [] := by
  simp only [abandoned, Block.Grounded]
  refine ⟨[], [], rfl, ⟨[], [], [], List.Subperm.refl _, ⟨.slnil, .nil⟩, ⟨.slnil, .nil⟩, .slnil, ?_⟩, .nil⟩
  simp only [Procedure.GroundedList]

/-- What is known of a block and the tokens taken for it is known of a whole program, unless that is given
up because of its nesting; then nothing is left of it. -/
theorem parseTokens_takes {limit nesting : Int} {file : String} {ts : List Token}
    {P : Block → List Token → Prop}
    (takes : Takes (closedBlock (.ofTokens ⟨.number limit, nesting⟩ file ts) nesting.toNat) ts P)
    (givenUp : ∀ l, P (abandoned l).block []) (readable : ∀ t ∈ ts, t.Readable) :
    ∃ p log taken, parseTokens ⟨.number limit, nesting⟩ file ts = .ok (p, log) ∧ taken <+: ts ∧
      P p.block taken := by
  obtain ⟨b, s, run, _, parsed⟩ | ⟨s, _, _, parsed⟩ := blockRun_cases limit nesting file readable rfl
  · have ends := takes readable 0 {}
    rw [blockRun] at run
    rw [run] at ends
    obtain ⟨taken, split, holds⟩ := ends
    exact ⟨_, _, taken, parsed, ⟨s.rest, split.symm⟩, holds⟩
  · exact ⟨_, _, [], parsed, List.nil_prefix, givenUp _⟩

/-- Readable tokens are read as a program that is made of them. -/
theorem parseTokens_grounded (limit nesting : Int) (file : String) {ts : List Token}
    (readable : ∀ t ∈ ts, t.Readable) :
    ∃ p log own, parseTokens ⟨.number limit, nesting⟩ file ts = .ok (p, log) ∧
      own.Sublist ts ∧ p.block.Grounded limit own := by
  have givenUp (l : Location) : ∃ own, own.Sublist [] ∧ (abandoned l).block.Grounded limit own :=
    ⟨[], .slnil, grounded_abandoned limit l⟩
  obtain ⟨p, log, taken, parsed, front, own, inside, grounded⟩ :=
    parseTokens_takes (closedBlock_takes rfl nesting.toNat ts) givenUp readable
  exact ⟨p, log, own, parsed, inside.trans front.sublist, grounded⟩

/-- Whatever a text is, it is read as a program that is made of its tokens. -/
theorem parse_grounded (limit nesting : Int) (file source : String) :
    ∃ p log own, parse ⟨.number limit, nesting⟩ file source = .ok (p, log) ∧
      own.Sublist (tokenize source file) ∧ p.block.Grounded limit own :=
  parseTokens_grounded limit nesting file (Scanner.readable_of_mem_tokens (.ofText file source))

end Parser

open PlZero.Parser in
/-- Every construct of a parsed text that has a token stands at it, as the token of its kind and with the
same name, operator or value; no two stand at the same token; and the tree follows the source, whatever
was missing, skipped or out of order in it. -/
theorem parse_anchored (limit nesting : Int) (file source : String) :
    ∃ p log, parse ⟨.number limit, nesting⟩ file source = .ok (p, log) ∧
      (anchored p.mentions).Perm (tokenAnchors p.anchors) ∧
      (∃ own, own.Subperm (tokenize source file) ∧
        List.Forall₂ (Mention.Fits limit) p.mentions own) ∧
      p.block.InOrder ∧ ((anchored p.mentions).map fun a => a.2.offset).Nodup := by
  obtain ⟨p, log, ts, parsed, inside, grounded⟩ := parse_grounded limit nesting file source
  have ordered := pairwise_before_tokenize source file
  obtain ⟨own, owned, fits⟩ := grounded.owned
  have within : own.Subperm (tokenize source file) := owned.trans inside.subperm
  exact ⟨p, log, parsed, p.anchored_perm, ⟨own, within, fits⟩, grounded.inOrder (ordered.sublist inside),
    nodup_offsets fits within ordered⟩

end PlZero

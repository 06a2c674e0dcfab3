import PlZero.Node.Record
import PlZero.Proofs.Anchoring.Order
import PlZero.Proofs.Forgetting
import PlZero.Proofs.Printing.Trees

/-! # Printing loses nothing but locations

A tree can be told from its S-expression, and so from its outline, but for the locations.  The same holds
of its record.  What makes it work is that the head of a form tells which construct it stands for, and
that a name is never written as a number is.
-/

namespace PlZero

/-! ## Words -/

theorem Sign.symbol_injective {s s' : Sign} (same : s.symbol = s'.symbol) : s = s' := by
  cases s <;> cases s' <;> simp [symbol] at same ⊢

theorem BinOp.symbol_injective {op op' : BinOp} (same : op.symbol = op'.symbol) : op = op' := by
  cases op <;> cases op' <;> simp [symbol] at same ⊢

theorem RelOp.symbol_injective {op op' : RelOp} (same : op.symbol = op'.symbol) : op = op' := by
  cases op <;> cases op' <;> simp [symbol] at same ⊢

theorem Quantity.text_injective {m n : Int} (same : (number m).text = (number n).text) : m = n := by
  have chars := congrArg String.toList same
  cases m with
  | ofNat m =>
    cases n with
    | ofNat n => rw [Text.repr_injective same]
    | negSucc n =>
      -- a minus sign is no digit
      have minus : '-' ∈ (number (.ofNat m)).text.toList := by
        rw [chars, text_negSucc]
        exact List.mem_cons_self
      exact absurd (Text.isDigits_repr m '-' minus) (by decide)
  | negSucc m =>
    cases n with
    | ofNat n =>
      have minus : '-' ∈ (number (.ofNat n)).text.toList := by
        rw [← chars, text_negSucc]
        exact List.mem_cons_self
      exact absurd (Text.isDigits_repr n '-' minus) (by decide)
    | negSucc n =>
      rw [text_negSucc, text_negSucc, List.cons.injEq, String.toList_inj] at chars
      have succ := Text.repr_injective chars.2
      omega

theorem value_eq_of_text {v v' : Quantity} (legible : Peg.Legible (.integer v))
    (legible' : Peg.Legible (.integer v')) (same : v.text = v'.text) : v = v' := by
  obtain ⟨n, rfl⟩ := legible
  obtain ⟨n', rfl⟩ := legible'
  rw [Quantity.text_injective same]

/-- No name is written as a number is. -/
theorem name_ne_text {id : String} {v : Quantity} (legible : Peg.Legible (.word (.identifier id)))
    (legible' : Peg.Legible (.integer v)) : id ≠ v.text := by
  intro same
  obtain ⟨n, rfl⟩ := legible'
  have name : Vocabulary .identifier id.toList := legible rfl
  cases chars : id.toList with
  | nil =>
    rw [chars] at name
    cases name
  | cons c cs =>
    rw [chars] at name
    have written : Text.isDigit c = true ∨ c = '-' := by
      apply mem_text_number (n := n)
      rw [← same, chars]
      exact List.mem_cons_self
    cases name with
    | identifier letter _ _ =>
      cases written with
      | inl digit => simp [Text.isLetter_eq_false_of_isDigit digit] at letter
      | inr minus =>
        subst minus
        exact absurd letter (by simp [Text.isLetter_eq_false_of_lt])

/-! ## Forms of trees -/

theorem Expr.bare_eq_of_form {e e' : Expr} (legible : Legible e.mentions) (legible' : Legible e'.mentions)
    (same : e.form = e'.form) : e.bare = e'.bare := by
  induction e generalizing e' with
  | integer v l =>
    cases e' with
    | integer v' l' =>
      simp only [mentions, legible_cons, form, Form.atom.injEq] at legible legible' same
      rw [bare, bare, value_eq_of_text legible.1 legible'.1 same]
    | name id l' =>
      simp only [mentions, legible_cons, form, Form.atom.injEq] at legible legible' same
      exact absurd same.symm (name_ne_text legible'.1 legible.1)
    | _ => simp [form] at same
  | name id l =>
    cases e' with
    | integer v l' =>
      simp only [mentions, legible_cons, form, Form.atom.injEq] at legible legible' same
      exact absurd same (name_ne_text legible.1 legible'.1)
    | name id' l' =>
      simp only [form, Form.atom.injEq] at same
      rw [bare, bare, same]
    | _ => simp [form] at same
  | binary op a b l iha ihb =>
    cases e' with
    | binary op' a' b' l' =>
      simp only [mentions, legible_append, legible_cons] at legible legible'
      simp only [form, Form.list.injEq, List.cons.injEq, Form.atom.injEq, and_true] at same
      obtain ⟨symbol, left, right⟩ := same
      rw [bare, bare, BinOp.symbol_injective symbol, iha legible.1 legible'.1 left,
        ihb legible.2.2 legible'.2.2 right]
    | _ => simp [form] at same
  | signed s e l ih =>
    -- a sign may be spelled as an operator is, but it has one operand less
    cases e' with
    | signed s' e' l' =>
      simp only [mentions, legible_cons] at legible legible'
      simp only [form, Form.list.injEq, List.cons.injEq, Form.atom.injEq, and_true] at same
      rw [bare, bare, Sign.symbol_injective same.1, ih legible.2 legible'.2 same.2]
    | _ => cases s <;> simp [form, Sign.symbol] at same
  | group e l ih =>
    cases e' with
    | group e' l' =>
      simp only [mentions, legible_cons] at legible legible'
      simp only [form, Form.list.injEq, List.cons.injEq, true_and, and_true] at same
      rw [bare, bare, ih legible.2 legible'.2 same]
    | signed s' e' l' => cases s' <;> simp [form, Sign.symbol] at same
    | _ => simp [form] at same
  | missing l =>
    cases e' with
    | missing l' => rfl
    | _ => simp [form] at same

theorem Condition.bare_eq_of_form {c c' : Condition} (legible : Legible c.mentions)
    (legible' : Legible c'.mentions) (same : c.form = c'.form) : c.bare = c'.bare := by
  cases c with
  | odd e l =>
    cases c' with
    | odd e' l' =>
      simp only [mentions, legible_cons] at legible legible'
      simp only [form, Form.list.injEq, List.cons.injEq, true_and, and_true] at same
      rw [bare, bare, Expr.bare_eq_of_form legible.2 legible'.2 same]
    | _ => simp [form] at same
  | relation op a b l =>
    cases c' with
    | relation op' a' b' l' =>
      simp only [mentions, legible_append, legible_cons] at legible legible'
      simp only [form, Form.list.injEq, List.cons.injEq, Form.atom.injEq, and_true] at same
      obtain ⟨symbol, left, right⟩ := same
      rw [bare, bare, RelOp.symbol_injective symbol, Expr.bare_eq_of_form legible.1 legible'.1 left,
        Expr.bare_eq_of_form legible.2.2 legible'.2.2 right]
    | _ => simp [form] at same
  | missing l =>
    cases c' with
    | missing l' => rfl
    | _ => simp [form] at same

mutual

theorem Stmt.bare_eq_of_form : ∀ {s s' : Stmt}, Legible s.mentions → Legible s'.mentions →
    s.form = s'.form → s.bare = s'.bare
  | .assign target e l, s', legible, legible', same => by
    cases s' with
    | assign target' e' l' =>
      simp only [Stmt.mentions, legible_cons] at legible legible'
      simp only [Stmt.form, Form.list.injEq, List.cons.injEq, Form.atom.injEq, true_and, and_true] at same
      rw [Stmt.bare, Stmt.bare, same.1, Expr.bare_eq_of_form legible.2 legible'.2 same.2]
    | _ => simp [Stmt.form] at same
  | .call p l, s', _, _, same => by
    cases s' with
    | call p' l' => simp_all [Stmt.form, Stmt.bare]
    | _ => simp [Stmt.form] at same
  | .read target l, s', _, _, same => by
    cases s' with
    | read target' l' => simp_all [Stmt.form, Stmt.bare]
    | _ => simp [Stmt.form] at same
  | .write source l, s', _, _, same => by
    cases s' with
    | write source' l' => simp_all [Stmt.form, Stmt.bare]
    | _ => simp [Stmt.form] at same
  | .compound ss l, s', legible, legible', same => by
    cases s' with
    | compound ss' l' =>
      simp only [Stmt.mentions, legible_cons] at legible legible'
      simp only [Stmt.form, Form.list.injEq, List.cons.injEq, true_and] at same
      rw [Stmt.bare, Stmt.bare, Stmt.bareList_eq_of_forms legible.2 legible'.2 same]
    | _ => simp [Stmt.form] at same
  | .branch c y n l, s', legible, legible', same => by
    cases s' with
    | branch c' y' n' l' =>
      simp only [Stmt.mentions, legible_cons, legible_append] at legible legible'
      simp only [Stmt.form, Form.list.injEq, List.cons.injEq, true_and] at same
      obtain ⟨decision, first, second⟩ := same
      rw [Stmt.bare, Stmt.bare, Condition.bare_eq_of_form legible.2.1.1 legible'.2.1.1 decision,
        Stmt.bare_eq_of_form legible.2.1.2 legible'.2.1.2 first,
        Stmt.bareOption_eq_of_elseForms legible.2.2 legible'.2.2 second]
    | _ => simp [Stmt.form] at same
  | .loop c s l, s', legible, legible', same => by
    cases s' with
    | loop c' s' l' =>
      simp only [Stmt.mentions, legible_cons, legible_append] at legible legible'
      simp only [Stmt.form, Form.list.injEq, List.cons.injEq, true_and, and_true] at same
      rw [Stmt.bare, Stmt.bare, Condition.bare_eq_of_form legible.2.1 legible'.2.1 same.1,
        Stmt.bare_eq_of_form legible.2.2 legible'.2.2 same.2]
    | _ => simp [Stmt.form] at same
  | .empty l, s', _, _, same => by
    cases s' with
    | empty l' => rfl
    | _ => simp [Stmt.form] at same

theorem Stmt.bareList_eq_of_forms : ∀ {ss ss' : List Stmt}, Legible (Stmt.mentionsList ss) →
    Legible (Stmt.mentionsList ss') → Stmt.forms ss = Stmt.forms ss' →
    Stmt.bareList ss = Stmt.bareList ss'
  | [], ss', _, _, same => by
    cases ss' with
    | nil => rfl
    | cons => simp [Stmt.forms] at same
  | s :: ss, ss', legible, legible', same => by
    cases ss' with
    | nil => simp [Stmt.forms] at same
    | cons s' ss' =>
      simp only [Stmt.mentionsList, legible_append] at legible legible'
      simp only [Stmt.forms, List.cons.injEq] at same
      rw [Stmt.bareList, Stmt.bareList, Stmt.bare_eq_of_form legible.1 legible'.1 same.1,
        Stmt.bareList_eq_of_forms legible.2 legible'.2 same.2]

theorem Stmt.bareOption_eq_of_elseForms : ∀ {n n' : Option Stmt}, Legible (Stmt.mentionsOption n) →
    Legible (Stmt.mentionsOption n') → Stmt.elseForms n = Stmt.elseForms n' →
    Stmt.bareOption n = Stmt.bareOption n'
  | none, n', _, _, same => by
    cases n' with
    | none => rfl
    | some => simp [Stmt.elseForms] at same
  | some s, n', legible, legible', same => by
    cases n' with
    | none => simp [Stmt.elseForms] at same
    | some s' =>
      simp only [Stmt.elseForms, List.cons.injEq, Form.list.injEq, true_and, and_true] at same
      rw [Stmt.bareOption, Stmt.bareOption, Stmt.bare_eq_of_form legible legible' same]

end

/-! ## Forms of blocks -/

/-- The word at the head of a list. -/
def Form.head : Form → String
  | .list (.atom w :: _) => w
  | _ => ""

theorem head_of_mem_sectionForms {w : String} {items : List Form} {f : Form}
    (member : f ∈ sectionForms w items) : f.head = w := by
  cases items with
  | nil => cases member
  | cons item items =>
    rw [List.mem_singleton.mp member]
    rfl

theorem sectionForms_injective {w : String} {items items' : List Form}
    (same : sectionForms w items = sectionForms w items') : items = items' := by
  cases items with
  | nil =>
    cases items' with
    | nil => rfl
    | cons => simp [sectionForms] at same
  | cons item items =>
    cases items' with
    | nil => simp [sectionForms] at same
    | cons => simpa [sectionForms] using same

theorem Procedure.head_of_mem_forms {ps : List Procedure} {f : Form} (member : f ∈ forms ps) :
    f.head = "procedure" := by
  induction ps with
  | nil => cases member
  | cons p ps ih =>
    cases member with
    | tail _ behind => exact ih behind
    | head =>
      obtain ⟨name, b, l⟩ := p
      rfl

theorem Stmt.head_form (s : Stmt) :
    s.form.head ≠ "const" ∧ s.form.head ≠ "var" ∧ s.form.head ≠ "procedure" := by
  cases s <;> simp [Stmt.form, Form.head]

/-- Forms with one head are found by it, all or none. -/
theorem filter_head {fs : List Form} {w : String} (heads : ∀ f ∈ fs, f.head = w) (w' : String) :
    fs.filter (fun f => f.head = w') = if w = w' then fs else [] := by
  by_cases same : w = w'
  · rw [if_pos same, List.filter_eq_self]
    intro f member
    simp [heads f member, same]
  · rw [if_neg same, List.filter_eq_nil_iff]
    intro f member
    simp [heads f member, same]

/-- The parts of a block are found by their heads, and the body because it comes last. -/
theorem parts_injective {consts consts' vars vars' : List Form} {ps ps' : List Procedure} {s s' : Stmt}
    (same : sectionForms "const" consts ++ sectionForms "var" vars ++ Procedure.forms ps ++ [s.form] =
      sectionForms "const" consts' ++ sectionForms "var" vars' ++ Procedure.forms ps' ++ [s'.form]) :
    consts = consts' ∧ vars = vars' ∧ Procedure.forms ps = Procedure.forms ps' ∧ s.form = s'.form := by
  -- each part is what is left of the whole list when only one sort of head is looked for
  have found (w : String) := congrArg (List.filter fun f => f.head = w) same
  simp only [List.filter_append, filter_head fun f => head_of_mem_sectionForms (f := f),
    filter_head fun f => Procedure.head_of_mem_forms (f := f), List.filter_singleton] at found
  have heads := s.head_form
  have heads' := s'.head_form
  refine ⟨?_, ?_, ?_, ?_⟩
  · apply sectionForms_injective
    simpa [heads, heads'] using found "const"
  · apply sectionForms_injective
    simpa [heads, heads'] using found "var"
  · simpa [heads, heads'] using found "procedure"
  · have last := congrArg List.getLast? same
    simpa using last

theorem ConstDecl.map_bare_eq_of_forms {cs cs' : List ConstDecl}
    (legible : Legible (cs.flatMap mentions)) (legible' : Legible (cs'.flatMap mentions))
    (same : cs.map form = cs'.map form) : cs.map bare = cs'.map bare := by
  induction cs generalizing cs' with
  | nil => simpa using same
  | cons c cs ih =>
    cases cs' with
    | nil => simp at same
    | cons c' cs' =>
      simp only [List.flatMap_cons, legible_append, mentions, legible_cons] at legible legible'
      simp only [List.map_cons, List.cons.injEq, form, Form.list.injEq, Form.atom.injEq, and_true] at same
      obtain ⟨⟨name, value⟩, behind⟩ := same
      rw [List.map_cons, List.map_cons, ih legible.2 legible'.2 behind, bare, bare, name,
        value_eq_of_text legible.1.2.1 legible'.1.2.1 value]

theorem VarDecl.map_bare_eq_of_forms {vs vs' : List VarDecl} (same : vs.map form = vs'.map form) :
    vs.map bare = vs'.map bare := by
  induction vs generalizing vs' with
  | nil => simpa using same
  | cons v vs ih =>
    cases vs' with
    | nil => simp at same
    | cons v' vs' =>
      simp only [List.map_cons, List.cons.injEq, form, Form.atom.injEq] at same
      rw [List.map_cons, List.map_cons, ih same.2, bare, bare, same.1]

mutual

theorem Block.bare_eq_of_form : ∀ {b b' : Block}, Legible b.mentions → Legible b'.mentions →
    b.form = b'.form → b.bare = b'.bare
  | ⟨cs, vs, ps, s, l⟩, ⟨cs', vs', ps', s', l'⟩, legible, legible', same => by
    simp only [Block.mentions, legible_append] at legible legible'
    simp only [Block.form, Form.list.injEq, List.cons.injEq, true_and] at same
    obtain ⟨consts, vars, procedures, statement⟩ := parts_injective same
    rw [Block.bare, Block.bare, ConstDecl.map_bare_eq_of_forms legible.1.1.1 legible'.1.1.1 consts,
      VarDecl.map_bare_eq_of_forms vars,
      Procedure.bareList_eq_of_forms legible.1.2 legible'.1.2 procedures,
      Stmt.bare_eq_of_form legible.2 legible'.2 statement]

theorem Procedure.bare_eq_of_form : ∀ {p p' : Procedure}, Legible p.mentions → Legible p'.mentions →
    p.form = p'.form → p.bare = p'.bare
  | ⟨name, b, l⟩, ⟨name', b', l'⟩, legible, legible', same => by
    simp only [Procedure.mentions, legible_cons] at legible legible'
    simp only [Procedure.form, Form.list.injEq, List.cons.injEq, Form.atom.injEq, true_and, and_true] at same
    rw [Procedure.bare, Procedure.bare, same.1,
      Block.bare_eq_of_form legible.2.2 legible'.2.2 same.2]

theorem Procedure.bareList_eq_of_forms : ∀ {ps ps' : List Procedure},
    Legible (Procedure.mentionsList ps) → Legible (Procedure.mentionsList ps') →
    Procedure.forms ps = Procedure.forms ps' → Procedure.bareList ps = Procedure.bareList ps'
  | [], ps', _, _, same => by
    cases ps' with
    | nil => rfl
    | cons => simp [Procedure.forms] at same
  | p :: ps, ps', legible, legible', same => by
    cases ps' with
    | nil => simp [Procedure.forms] at same
    | cons p' ps' =>
      simp only [Procedure.mentionsList, legible_append] at legible legible'
      simp only [Procedure.forms, List.cons.injEq] at same
      rw [Procedure.bareList, Procedure.bareList, Procedure.bare_eq_of_form legible.1 legible'.1 same.1,
        Procedure.bareList_eq_of_forms legible.2 legible'.2 same.2]

end

theorem Program.bare_eq_of_form {p q : Program} (legible : Legible p.mentions)
    (legible' : Legible q.mentions) (same : p.form = q.form) : p.bare = q.bare := by
  simp only [form, Form.list.injEq, List.cons.injEq, true_and, and_true] at same
  rw [bare, bare, Block.bare_eq_of_form legible legible' same]

/-! ## Records -/

theorem Construct.label_injective : Function.Injective label := by
  intro c c' same
  cases c <;> cases c' <;> simp [label] at same ⊢

/-- The name of the construct that a record is of. -/
def Json.label? : Json → Option String
  | .obj ((_, .str label) :: _) => some label
  | _ => none

theorem Quantity.toJson_injective {v v' : Quantity} (same : v.toJson = v'.toJson) : v = v' := by
  cases v <;> cases v' <;> simp_all [toJson]

namespace Node

theorem label?_toJson (n : Node) : n.toJson.label? = n.construct?.map Construct.label := by
  cases n <;> rfl

/-- A record tells which construct it is of. -/
theorem construct?_eq_of_toJson {n n' : Node} (same : n.toJson = n'.toJson) :
    n.construct? = n'.construct? := by
  apply Option.map_injective Construct.label_injective
  rw [← label?_toJson, same, label?_toJson]

@[simp] theorem recordOf_inj {c : Construct} {parts parts' : List (String × Json)} :
    recordOf c parts = recordOf c parts' ↔ parts = parts' := by
  simp [recordOf]

theorem constRecord_injective : Function.Injective fun (d : String × Quantity) => constRecord d.1 d.2 := by
  rintro ⟨id, v⟩ ⟨id', v'⟩ same
  simp only [constRecord, recordOf_inj, List.cons.injEq, Prod.mk.injEq, Json.str.injEq, true_and,
    and_true] at same
  rw [same.1, Quantity.toJson_injective same.2]

theorem varRecord_injective : Function.Injective varRecord := by
  intro id id' same
  simpa [varRecord] using same

mutual

theorem toJson_injective : ∀ {n n' : Node}, n.toJson = n'.toJson → n = n'
  | .absent, n', same => by
    cases n' with
    | absent => rfl
    | text => simp [toJson] at same
    | _ => nomatch construct?_eq_of_toJson same
  | .text s, n', same => by
    cases n' with
    | absent => simp [toJson] at same
    | text => simpa [toJson] using same
    | _ => nomatch construct?_eq_of_toJson same
  | .integer v, n', same => by
    cases n' with
    | integer v' =>
      simp only [toJson, recordOf_inj, List.cons.injEq, Prod.mk.injEq, true_and, and_true] at same
      rw [Quantity.toJson_injective same]
    | _ => nomatch construct?_eq_of_toJson same
  | .name id, n', same => by
    cases n' with
    | name => simpa [toJson] using same
    | _ => nomatch construct?_eq_of_toJson same
  | .binary op a b, n', same => by
    cases n' with
    | binary op' a' b' =>
      simp only [toJson, recordOf_inj, List.cons.injEq, Prod.mk.injEq, Json.str.injEq, true_and,
        and_true] at same
      rw [same.1, toJson_injective same.2.1, toJson_injective same.2.2]
    | _ => nomatch construct?_eq_of_toJson same
  | .signed s e, n', same => by
    cases n' with
    | signed s' e' =>
      simp only [toJson, recordOf_inj, List.cons.injEq, Prod.mk.injEq, Json.str.injEq, true_and,
        and_true] at same
      rw [same.1, toJson_injective same.2]
    | _ => nomatch construct?_eq_of_toJson same
  | .group e, n', same => by
    cases n' with
    | group e' =>
      simp only [toJson, recordOf_inj, List.cons.injEq, Prod.mk.injEq, true_and, and_true] at same
      rw [toJson_injective same]
    | _ => nomatch construct?_eq_of_toJson same
  | .missing, n', same => by
    cases n' with
    | missing => rfl
    | _ => nomatch construct?_eq_of_toJson same
  | .odd e, n', same => by
    cases n' with
    | odd e' =>
      simp only [toJson, recordOf_inj, List.cons.injEq, Prod.mk.injEq, true_and, and_true] at same
      rw [toJson_injective same]
    | _ => nomatch construct?_eq_of_toJson same
  | .relation op a b, n', same => by
    cases n' with
    | relation op' a' b' =>
      simp only [toJson, recordOf_inj, List.cons.injEq, Prod.mk.injEq, Json.str.injEq, true_and,
        and_true] at same
      rw [same.1, toJson_injective same.2.1, toJson_injective same.2.2]
    | _ => nomatch construct?_eq_of_toJson same
  | .assign target e, n', same => by
    cases n' with
    | assign target' e' =>
      simp only [toJson, recordOf_inj, List.cons.injEq, Prod.mk.injEq, Json.str.injEq, true_and,
        and_true] at same
      rw [same.1, toJson_injective same.2]
    | _ => nomatch construct?_eq_of_toJson same
  | .call p, n', same => by
    cases n' with
    | call => simpa [toJson] using same
    | _ => nomatch construct?_eq_of_toJson same
  | .compound ss, n', same => by
    cases n' with
    | compound ss' =>
      simp only [toJson, recordOf_inj, List.cons.injEq, Prod.mk.injEq, Json.arr.injEq, true_and,
        and_true] at same
      rw [toJsonAll_injective same]
    | _ => nomatch construct?_eq_of_toJson same
  | .branch c y n, n', same => by
    cases n' with
    | branch c' y' n' =>
      simp only [toJson, recordOf_inj, List.cons.injEq, Prod.mk.injEq, true_and, and_true] at same
      rw [toJson_injective same.1, toJson_injective same.2.1, toJson_injective same.2.2]
    | _ => nomatch construct?_eq_of_toJson same
  | .loop c s, n', same => by
    cases n' with
    | loop c' s' =>
      simp only [toJson, recordOf_inj, List.cons.injEq, Prod.mk.injEq, true_and, and_true] at same
      rw [toJson_injective same.1, toJson_injective same.2]
    | _ => nomatch construct?_eq_of_toJson same
  | .read target, n', same => by
    cases n' with
    | read => simpa [toJson] using same
    | _ => nomatch construct?_eq_of_toJson same
  | .write source, n', same => by
    cases n' with
    | write => simpa [toJson] using same
    | _ => nomatch construct?_eq_of_toJson same
  | .const id v, n', same => by
    cases n' with
    | const id' v' =>
      obtain ⟨rfl, rfl⟩ := Prod.mk.inj (@constRecord_injective (id, v) (id', v') same)
      rfl
    | _ => nomatch construct?_eq_of_toJson same
  | .var id, n', same => by
    cases n' with
    | var id' => rw [varRecord_injective same]
    | _ => nomatch construct?_eq_of_toJson same
  | .procedure id b, n', same => by
    cases n' with
    | procedure id' b' =>
      simp only [toJson, recordOf_inj, List.cons.injEq, Prod.mk.injEq, Json.str.injEq, true_and,
        and_true] at same
      rw [same.1, toJson_injective same.2]
    | _ => nomatch construct?_eq_of_toJson same
  | .block cs vs ps s, n', same => by
    cases n' with
    | block cs' vs' ps' s' =>
      simp only [toJson, recordOf_inj, List.cons.injEq, Prod.mk.injEq, Json.arr.injEq, true_and,
        and_true] at same
      obtain ⟨consts, vars, procedures, body⟩ := same
      rw [List.map_injective_iff.mpr constRecord_injective consts,
        List.map_injective_iff.mpr varRecord_injective vars, toJsonAll_injective procedures,
        toJson_injective body]
    | _ => nomatch construct?_eq_of_toJson same
  | .program b, n', same => by
    cases n' with
    | program b' =>
      simp only [toJson, recordOf_inj, List.cons.injEq, Prod.mk.injEq, true_and, and_true] at same
      rw [toJson_injective same]
    | _ => nomatch construct?_eq_of_toJson same

theorem toJsonAll_injective : ∀ {ns ns' : List Node}, toJsonAll ns = toJsonAll ns' → ns = ns'
  | [], ns', same => by
    cases ns' with
    | nil => rfl
    | cons => simp [toJsonAll] at same
  | n :: ns, ns', same => by
    cases ns' with
    | nil => simp [toJsonAll] at same
    | cons n' ns' =>
      simp only [toJsonAll, List.cons.injEq] at same
      rw [toJson_injective same.1, toJsonAll_injective same.2]

end

end Node

/-! ## Parsed programs -/

/-- A token of a text can be told from what is written of it. -/
theorem Peg.Is.legible {peg : Peg} {limit : Int} {t : Token} (meant : peg.Is limit t)
    (word : t.kind = .unknown ∨ Vocabulary t.kind t.lexeme.toList) : peg.Legible := by
  cases peg with
  | word w =>
    obtain rfl : (t.kind, t.lexeme) = w := meant
    intro identifier
    simp only at identifier ⊢
    rw [identifier] at word
    cases word with
    | inl unknown => cases unknown
    | inr known => exact known
  | integer v =>
    obtain ⟨_, n, _, rfl⟩ := meant
    exact ⟨_, rfl⟩

theorem legible_of_fits {limit : Int} {ms : List Mention} {own : List Token}
    (fits : List.Forall₂ (Mention.Fits limit) ms own)
    (words : ∀ t ∈ own, t.kind = .unknown ∨ Vocabulary t.kind t.lexeme.toList) : Legible ms := by
  induction fits with
  | nil => exact legible_nil
  | cons fit _ ih =>
    obtain ⟨word, behind⟩ := List.forall_mem_cons.mp words
    exact legible_cons.mpr ⟨fit.peg.legible word, ih behind⟩

/-- Also of a text with mistakes, the tree is legible. -/
theorem parse_legible (limit nesting : Int) (file source : String) :
    ∃ p log, parse ⟨.number limit, nesting⟩ file source = .ok (p, log) ∧ Legible p.mentions := by
  obtain ⟨p, log, ts, parsed, inside, grounded⟩ := Parser.parse_grounded limit nesting file source
  obtain ⟨own, owned, fits⟩ := grounded.owned
  refine ⟨p, log, parsed, legible_of_fits fits fun t member => ?_⟩
  exact (tokenize_reading source file).vocabulary t (inside.subset (owned.subset member))

theorem Program.record?_toNode (p : Program) : p.toNode.record? = some p.toNode.toJson := rfl

/-- Two parsed programs, with mistakes or without, have the same outline, or the same record, exactly if
they are the same but for locations. -/
theorem outline_eq_iff_bare_eq (limit nesting limit' nesting' : Int) (file source file' source' : String) :
    ∃ p log q log' text text' record record',
      parse ⟨.number limit, nesting⟩ file source = .ok (p, log) ∧
      parse ⟨.number limit', nesting'⟩ file' source' = .ok (q, log') ∧
      p.toNode.outline Node.standardIndent = .ok text ∧
      q.toNode.outline Node.standardIndent = .ok text' ∧
      p.toNode.record? = some record ∧ q.toNode.record? = some record' ∧
      (text = text' ↔ record = record') ∧ (record = record' ↔ p.bare = q.bare) := by
  obtain ⟨p, log, parsed, legible⟩ := parse_legible limit nesting file source
  obtain ⟨q, log', parsed', legible'⟩ := parse_legible limit' nesting' file' source'
  have blank : Reader.Blank Node.standardIndent := by
    simp [Reader.Blank, Node.standardIndent, Reader.isGap]
  obtain ⟨text, outline, shows⟩ := Program.outline_shows blank legible
  obtain ⟨text', outline', shows'⟩ := Program.outline_shows blank legible'
  have bare_of_text : text = text' → p.bare = q.bare := by
    rintro rfl
    have form := List.singleton_inj.mp (shows.unique shows')
    exact Program.bare_eq_of_form legible legible' form
  have record_of_bare : p.bare = q.bare → p.toNode.toJson = q.toNode.toJson := by
    intro same
    rw [Program.toNode_eq_of_bare same]
  have text_of_record : p.toNode.toJson = q.toNode.toJson → text = text' := by
    intro same
    rw [Node.toJson_injective same, outline'] at outline
    exact (Except.ok.inj outline).symm
  exact ⟨p, log, q, log', text, text', _, _, parsed, parsed', outline, outline', p.record?_toNode,
    q.record?_toNode, ⟨fun same => record_of_bare (bare_of_text same), text_of_record⟩,
    ⟨fun same => bare_of_text (text_of_record same), record_of_bare⟩⟩

end PlZero

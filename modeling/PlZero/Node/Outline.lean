import PlZero.Node

/-! # Outlines

An outline writes a tree as an indented S-expression.  Declarations and statements have lines of
their own; conditions and expressions are written inline, where `(group …)` marks parentheses of
the source.  A place that wants a line takes any construct, but inside a line only expressions and
conditions can be written: the outline of a tree that has something else there is refused, with the
name of the first such thing.

* `Node.inline` writes an expression or a condition on one line;
* `Node.lines` writes any construct, one string to a line;
* `Node.outline` is the whole text.
-/

namespace PlZero

/-- Something stands in a tree where it cannot be written. -/
structure Misplaced where
  label : String
deriving DecidableEq, Repr

/-- The complaint of an outline. -/
def Misplaced.outlineMessage (m : Misplaced) : String := "Cannot format node type: " ++ m.label

namespace Outline

/-- Adds a closing parenthesis to the last line. -/
def closeLast : List String → List String
  | [] => []
  | [l] => [l ++ ")"]
  | l :: ls => l :: closeLast ls

/-- A form with its parts indented below its head. -/
def wrap (indent head : String) (parts : List (List String)) : List String :=
  closeLast (("(" ++ head) :: parts.flatten.map (indent ++ ·))

/-- The line that lists the constants of a block, if it has any. -/
def constLine (consts : List (String × Quantity)) : List (List String) :=
  if consts.isEmpty then []
  else
    let item := fun (name, value) => "(" ++ name ++ " " ++ Quantity.text value ++ ")"
    [["(const " ++ " ".intercalate (consts.map item) ++ ")"]]

/-- The line that lists the variables of a block, if it has any. -/
def varLine (vars : List String) : List (List String) :=
  if vars.isEmpty then [] else [["(var " ++ " ".intercalate vars ++ ")"]]

end Outline

namespace Node

open Outline

/-- An expression or a condition on one line. -/
def inline : Node → Except Misplaced String
  | .integer v => .ok v.text
  | .name id => .ok id
  | .binary op l r => do
    let l ← l.inline
    let r ← r.inline
    return "(" ++ op ++ " " ++ l ++ " " ++ r ++ ")"
  | .relation op l r => do
    let l ← l.inline
    let r ← r.inline
    return "(" ++ op ++ " " ++ l ++ " " ++ r ++ ")"
  | .signed s e => do
    let e ← e.inline
    return "(" ++ s ++ " " ++ e ++ ")"
  | .group e => do
    let e ← e.inline
    return "(group " ++ e ++ ")"
  | .odd e => do
    let e ← e.inline
    return "(odd " ++ e ++ ")"
  | .missing => .ok "(empty)"
  | n => .error ⟨n.label⟩

mutual

/-- The lines of a construct. -/
def lines (indent : String) : Node → Except Misplaced (List String)
  | .program b => do
    let b ← b.lines indent
    return wrap indent "program" [b]
  | .block cs vs ps s => do
    let ps ← Node.linesOfAll indent ps
    let s ← s.lines indent
    return wrap indent "block" (constLine cs ++ varLine vs ++ ps ++ [s])
  | .procedure id b => do
    let b ← b.lines indent
    return wrap indent ("procedure " ++ id) [b]
  | .const id v => .ok ["(const (" ++ id ++ " " ++ v.text ++ "))"]
  | .var id => .ok ["(var " ++ id ++ ")"]
  | .compound ss => do
    let ss ← Node.linesOfAll indent ss
    return wrap indent "begin" ss
  | .branch c yes .absent => do
    let c ← c.inline
    let yes ← yes.lines indent
    return wrap indent "if" [[c], yes]
  | .branch c yes no => do
    let c ← c.inline
    let yes ← yes.lines indent
    let no ← no.lines indent
    return wrap indent "if" [[c], yes, wrap indent "else" [no]]
  | .loop c s => do
    let c ← c.inline
    let s ← s.lines indent
    return wrap indent "while" [[c], s]
  | .assign t e => do
    let e ← e.inline
    return ["(assign " ++ t ++ " " ++ e ++ ")"]
  | .call p => .ok ["(call " ++ p ++ ")"]
  | .read t => .ok ["(read " ++ t ++ ")"]
  | .write s => .ok ["(write " ++ s ++ ")"]
  | n => do
    let line ← n.inline
    return [line]

/-- The lines of each of several constructs. -/
def linesOfAll (indent : String) : List Node → Except Misplaced (List (List String))
  | [] => .ok []
  | n :: ns => do
    let ls ← n.lines indent
    let rest ← Node.linesOfAll indent ns
    return ls :: rest

end

/-- The outline of a tree. -/
def outline (indent : String) (n : Node) : Except Misplaced String := do
  let ls ← n.lines indent
  return "\n".intercalate ls

/-- The indentation of an outline unless another is asked for. -/
def standardIndent : String := "  "

end Node

end PlZero

import PlZero.Json
import PlZero.Node

/-! # Trees as records

The record of a construct names the construct under `node` and then gives its parts in order.  Text
and nothing are records of themselves, but only inside a tree: `Node.record?` has no record for
them.
-/

namespace PlZero

/-- The record of a quantity: a blank is an empty list. -/
def Quantity.toJson : Quantity → Json
  | .number n => .int n
  | .blank => .arr []

namespace Node

/-- The record of a construct with the given parts. -/
def recordOf (c : Construct) (parts : List (String × Json)) : Json :=
  .obj (("node", .str c.label) :: parts)

/-- The record of a constant. -/
def constRecord (id : String) (value : Quantity) : Json :=
  recordOf .const [("name", .str id), ("value", value.toJson)]

/-- The record of a variable. -/
def varRecord (id : String) : Json := recordOf .var [("name", .str id)]

mutual

/-- The record of a tree. -/
def toJson : Node → Json
  | .absent => .null
  | .text s => .str s
  | .integer v => recordOf .integer [("value", v.toJson)]
  | .name id => recordOf .name [("name", .str id)]
  | .binary op l r =>
    recordOf .binary [("op", .str op), ("left", l.toJson), ("right", r.toJson)]
  | .signed s e => recordOf .signed [("op", .str s), ("operand", e.toJson)]
  | .group e => recordOf .group [("expr", e.toJson)]
  | .missing => recordOf .missing []
  | .odd e => recordOf .odd [("expr", e.toJson)]
  | .relation op l r =>
    recordOf .relation [("op", .str op), ("left", l.toJson), ("right", r.toJson)]
  | .assign t e => recordOf .assign [("name", .str t), ("value", e.toJson)]
  | .call p => recordOf .call [("name", .str p)]
  | .compound ss => recordOf .compound [("statements", .arr (toJsonAll ss))]
  | .branch c yes no =>
    recordOf .branch
      [("condition", c.toJson), ("then_branch", yes.toJson), ("else_branch", no.toJson)]
  | .loop c s => recordOf .loop [("condition", c.toJson), ("body", s.toJson)]
  | .read t => recordOf .read [("name", .str t)]
  | .write s => recordOf .write [("name", .str s)]
  | .const id v => constRecord id v
  | .var id => varRecord id
  | .procedure id b => recordOf .procedure [("name", .str id), ("block", b.toJson)]
  | .block cs vs ps s =>
    recordOf .block
      [("consts", .arr (cs.map fun (id, v) => constRecord id v)),
        ("vars", .arr (vs.map varRecord)),
        ("procedures", .arr (toJsonAll ps)),
        ("body", s.toJson)]
  | .program b => recordOf .program [("block", b.toJson)]

/-- The records of several trees. -/
def toJsonAll : List Node → List Json
  | [] => []
  | n :: ns => n.toJson :: toJsonAll ns

end

/-- The record of a tree that is more than text or nothing. -/
def record? (n : Node) : Option Json := n.construct?.map fun _ => n.toJson

/-- The complaint about text or nothing in place of a tree. -/
def noRecordMessage : String := "must be called with a dataclass type or instance"

end Node

end PlZero

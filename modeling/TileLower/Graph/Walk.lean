import TileLower.Graph.Basic

/-!
The operations of a function in order, each followed by those of its region, and questions that are
answered by going through them: users of a value, and where an operation stands.
-/
namespace TileLower.Graph

def walk (g : Graph) : Nat → BlockId → List OpId
  | 0, _ => []
  | fuel + 1, b => (g.block b).ops.flatMap fun id =>
    id :: match (g.op id).region with
      | some r => g.walk fuel r
      | none => []

def walkFrom (g : Graph) (b : BlockId) : List OpId := g.walk (g.blocks.size + 1) b

def walkAll (g : Graph) : List OpId := g.walkFrom body

def uses (g : Graph) (v : Option Value) (id : OpId) : Bool := (g.op id).operands.contains v

def users (g : Graph) (v : Option Value) : List OpId := g.walkAll.filter (g.uses v)

def hasUses (g : Graph) (v : Option Value) : Bool := g.walkAll.any (g.uses v)

def prevUser? (g : Graph) (v : Option Value) (id : OpId) : Option OpId :=
  let users := g.users v
  match users.findIdx? (· == id) with
  | some (i + 1) => users[i]?
  | _ => none

def indexOf? (g : Graph) (id : OpId) : Option Nat := g.walkAll.findIdx? (· == id)

def indexText : Option Nat → String
  | some i => toString i
  | none => "-1"

def location (g : Graph) : Option OpId → String
  | none => "<nil op>"
  | some id =>
    let kind := (g.op id).kind
    if g.inFunction id then "@" ++ g.name ++ "#" ++ indexText (g.indexOf? id) ++ " " ++ kind
    else "detached " ++ kind

end TileLower.Graph

import TileLower.Graph.Edit

/-!
Dead code: operations with results of which none is used. They are taken out from the last to the
first, again and again until none is left.
-/
namespace TileLower.DeadCode

def isDead (g : Graph) (id : OpId) : Bool :=
  !(g.op id).results.isEmpty && g.isAlive id &&
    !(g.resultsOf id).any fun v => g.hasUses (some v)

def takeOut (g : Graph) (id : OpId) : Graph :=
  match (g.op id).block with
  | some b => g.erase b id
  | none => g

def pass : List OpId → Graph × Nat → Graph × Nat
  | [], s => s
  | id :: rest, (g, n) => pass rest (if isDead g id then (takeOut g id, n + 1) else (g, n))

def passes : Nat → Graph × Nat → Graph × Nat
  | 0, s => s
  | fuel + 1, (g, n) =>
    let (g', n') := pass g.walkAll.reverse (g, n)
    if n' = n then (g', n') else passes fuel (g', n')

/-- The function without dead code and the number of operations taken out. Each pass but the last
takes out at least one operation. -/
def eliminate (g : Graph) : Graph × Nat := passes (g.walkAll.length + 1) (g, 0)

end TileLower.DeadCode

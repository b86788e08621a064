import TileLower.Graph.Walk

/-!
Well-formed functions: each operand is an argument or result that is visible where it is used, and
operations and regions know the block and the operation they belong to.
-/
namespace TileLower.Graph

def numbered (i : Nat) (op : Operation) : String :=
  "operation " ++ toString i ++ " (" ++ op.kind ++ ")"

def verifyOperands (scope : List Value) (i : Nat) (op : Operation) :
    Nat → List (Option Value) → Outcome Unit
  | _, [] => .ok ()
  | j, none :: _ =>
    Outcome.fail ("operand " ++ toString j ++ " of " ++ numbered i op ++ " is nil")
  | j, some v :: rest =>
    if scope.contains v then verifyOperands scope i op (j + 1) rest
    else Outcome.fail
      ("operand " ++ toString j ++ " of " ++ numbered i op ++ " is not defined before use")

def verifyOp (g : Graph) (region : BlockId → List Value → Outcome Unit) (b : BlockId) (i : Nat)
    (scope : List Value) (id : OpId) : Outcome Unit := do
  let op := g.op id
  if op.block ≠ some b then
    Outcome.fail (numbered i op ++ " has an inconsistent parent block")
  verifyOperands scope i op 0 op.operands
  match op.region with
  | none => .ok ()
  | some r =>
    if (g.block r).owner ≠ some id then
      Outcome.fail (numbered i op ++ " has an inconsistent region")
    Outcome.within ("in region of " ++ numbered i op) (region r scope)

def verifyOps (g : Graph) (region : BlockId → List Value → Outcome Unit) (b : BlockId) :
    Nat → List Value → List OpId → Outcome Unit
  | _, _, [] => .ok ()
  | i, scope, id :: rest => do
    verifyOp g region b i scope id
    verifyOps g region b (i + 1) (scope ++ g.resultsOf id) rest

/-- Checks a block and the regions inside it. A nesting of more than `fuel` blocks has no end. -/
def verifyBlock (g : Graph) : Nat → BlockId → List Value → Outcome Unit
  | 0, _, _ => Outcome.abort
  | fuel + 1, b, visible =>
    verifyOps g (verifyBlock g fuel) b 0 (visible ++ g.argumentsOf b) (g.block b).ops

def verify (g : Graph) : Outcome Unit := g.verifyBlock (g.blocks.size + 1) body []

end TileLower.Graph

import TileLower.Graph.Edit

/-!
Drafts. New operations are written into the table of a function at once, but stand in no block: a
draft lists them, with the changes that are to be made when the draft is committed. To give up a
draft is to go on with the function that it began with.
-/
namespace TileLower

abbrev Operand := Option Value

structure Draft where
  graph : Graph
  created : List OpId
  replacements : List (OpId × List Operand)
  moves : List (Option OpId × Option OpId)
  erased : List (Option OpId)
  deriving Repr

abbrev Drafting := EStateM Fault Draft

namespace Draft

def ofGraph (g : Graph) : Draft := ⟨g, [], [], [], []⟩

end Draft

namespace Drafting

def abort {α : Type} : Drafting α := throw .abort

def fail {α : Type} (message : String) : Drafting α := throw (.error (.text message))

def lift {α : Type} : Outcome α → Drafting α
  | .ok a => pure a
  | .error f => throw f

def require {α : Type} (o : Option α) : Drafting α := lift (Outcome.ofOption o)

def graph : Drafting Graph := do return (← get).graph

def typeOf (v : Operand) : Drafting ValueType := do
  match v with
  | some v => return (← graph).typeOf v
  | none => abort

def typesOf : List Operand → Drafting (List ValueType)
  | [] => pure []
  | v :: vs => do
    let t ← typeOf v
    let ts ← typesOf vs
    pure (t :: ts)

def make (kind : String) (operands : List Operand) (results : List ValueType) (attrs : Attributes)
    (region : Option BlockId) : Drafting OpId := fun d =>
  let (id, graph) := d.graph.addOp ⟨kind, operands, results.map Slot.ofType, attrs, region, none⟩
  .ok id { d with graph }

def list (id : OpId) : Drafting Unit := modify fun d => { d with created := d.created ++ [id] }

def create (kind : String) (operands : List Operand) (results : List ValueType)
    (attrs : Attributes) (region : Option BlockId) : Drafting OpId := do
  let id ← make kind operands results attrs region
  list id
  pure id

def createPlain (kind : String) (operands : List Operand) (results : List ValueType) :
    Drafting OpId :=
  create kind operands results OrderedMap.empty none

def newBlock (args : List ValueType) : Drafting BlockId := fun d =>
  let (b, graph) := d.graph.addBlock args
  .ok b { d with graph }

def close (b : BlockId) (outer inner : Draft) : Draft :=
  { inner with graph := inner.graph.append b inner.created, created := outer.created }

def inBlock {α : Type} (b : BlockId) (m : Drafting α) : Drafting α := fun d =>
  match m { d with created := [] } with
  | .ok a inner => .ok a (close b d inner)
  | .error f inner => .error f (close b d inner)

end Drafting

namespace Graph

def operandType (g : Graph) : Operand → Outcome ValueType
  | some v => .ok (g.typeOf v)
  | none => Outcome.abort

def operandTypes (g : Graph) : List Operand → Outcome (List ValueType)
  | [] => .ok []
  | v :: vs => do
    let t ← g.operandType v
    let ts ← g.operandTypes vs
    .ok (t :: ts)

def operandAt (g : Graph) (id : OpId) (i : Nat) : Outcome Operand :=
  .ofOption (g.op id).operands[i]?

def resultAt (g : Graph) (id : OpId) (i : Nat) : Outcome Value :=
  if i < (g.op id).results.length then .ok (.result id i) else Outcome.abort

def definingOp : Operand → Outcome (Option OpId)
  | some (.result op _) => .ok (some op)
  | some (.argument ..) => .ok none
  | none => Outcome.abort

def terminator? (g : Graph) (b : BlockId) : Option OpId := (g.block b).ops.getLast?

end Graph
end TileLower

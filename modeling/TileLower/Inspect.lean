import TileLower.Json.Value
import TileLower.Ops.Kernel
import TileLower.Ops.Primitive
import TileLower.Ops.Relayout
import TileLower.Ops.Structured

/-!
What can be said about the operations of a function, as JSON: where values come from, what a region
holds, and the parameters of the operations that have some.
-/
namespace TileLower

namespace Diagnostic

def kindName (d : Diagnostic) : String :=
  if d.isInternal then "internal" else if d.isDecline then "decline" else "error"

def toFields (d : Diagnostic) : List (String × Json) :=
  [("error", .text d.kindName), ("message", .text d.message)]

def toJson (d : Diagnostic) : Json := .object d.toFields

end Diagnostic

namespace Inspect

def number (n : Nat) : Json := .int (Int64.ofNat n)

def texts (ts : List String) : Json := .list (ts.map .text)

def ints (xs : List Int64) : Json := .list (xs.map .int)

def position (g : Graph) (id : OpId) : Json :=
  match g.indexOf? id with
  | some i => number i
  | none => .int (-1)

def position? (g : Graph) : Option OpId → Json
  | some id => position g id
  | none => .null

def operand (g : Graph) : Operand → Json
  | none => .null
  | some (.result id i) => .list [.text "op", position g id, number i]
  | some (.argument b i) =>
    if b = Graph.body then .list [.text "arg", number i]
    else .list [.text "block_arg", position? g (g.block b).owner, number i]

def operands (g : Graph) (vs : List Operand) : Json := .list (vs.map (operand g))

def regionOwner (g : Graph) (id : OpId) : Json :=
  match (g.op id).region with
  | some b => position? g (g.block b).owner
  | none => .null

def owners (g : Graph) : Json :=
  .object [("owners", .list (g.walkAll.map (regionOwner g))),
    ("body_parent", position? g (g.block Graph.body).owner)]

def region (g : Graph) (b : BlockId) : Json :=
  let blk := g.block b
  .object [("args", number blk.args.length), ("ops", number blk.ops.length),
    ("terminator", position? g (g.terminator? b)), ("owner", position? g blk.owner)]

def structured (g : Graph) (op : Operation) : Outcome Json := do
  return .object
    [("ins", operands g (← Structured.inputs op)), ("outs", operands g (← Structured.outputs op)),
     ("maps", texts (← (Structured.indexingMaps op).mapM AffineMap.render)),
     ("loops", number (Structured.numLoops op)),
     ("parallel", number (Structured.numParallelLoops op)),
     ("call", .text (Structured.libraryCall op)), ("strides", ints (Structured.strides op)),
     ("dilations", ints (Structured.dilations op))]

def primitive (g : Graph) (op : Operation) : Outcome Json :=
  match Primitive.verify g op with
  | .error .abort => Outcome.abort
  | .error (.error d) => .ok d.toJson
  | .ok _ => do
    return .object [("inputs", number (← Primitive.inputs op).length),
      ("output", operand g (← Primitive.output op))]

def constant (op : Operation) : Json :=
  let v := Arith.constantValue? op
  .list [.float (v.getD 0), .bool v.isSome]

def kernel (op : Operation) : Json :=
  .object [("func", .text (Kernel.function op)), ("inputs", ints (Kernel.inputs op)),
    ("flags", .text (Kernel.flags op)), ("data_type", .text (Kernel.dataType op))]

def parameters (g : Graph) (op : Operation) : Outcome (List (String × Json)) := do
  if Structured.isStructured op then return [("linalg", ← structured g op)]
  else if Relayout.isPack op || Relayout.isUnpack op then
    return [("layout", .text (Relayout.layoutOf op).render)]
  else if op.kind = Memory.padKind then
    return [("padded", .list ((← Memory.paddedAxes op).map number))]
  else if op.kind = Arith.constantKind then return [("constant", constant op)]
  else if op.dialect = Kernel.dialect then return [("xsmm", kernel op)]
  else if op.dialect = Primitive.dialect then return [("tpp", ← primitive g op)]
  else return []

def operation (g : Graph) (id : OpId) : Outcome Json := do
  let op := g.op id
  let region := match op.region with
    | some b => [("region", region g b)]
    | none => []
  return .object <|
    [("kind", .text op.kind), ("dialect", .text op.dialect),
     ("location", .text (g.location (some id))), ("parent", position? g (g.parent? id)),
     ("operands", operands g op.operands), ("results", texts (op.results.map fun r => r.type.render)),
     ("attrs", texts op.attrs.keys)] ++ region ++ (← parameters g op)

end Inspect
end TileLower

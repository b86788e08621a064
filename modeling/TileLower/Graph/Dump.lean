import TileLower.Document.Basic
import TileLower.Graph.Basic
import TileLower.UniqueNames

/-!
The document of a function. Values are labelled from the names they prefer: an argument or a result
where it is defined, an operand that has no label yet where it is used.
-/
namespace TileLower.Graph

structure Labels where
  given : OrderedMap Value String
  unique : UniqueNames

abbrev Labelling := StateT Labels Outcome

namespace Labels

def empty : Labels := ⟨OrderedMap.empty, UniqueNames.empty⟩

def define (g : Graph) (v : Value) : Labelling Document.Typed := fun l =>
  let slot := g.slot v
  let (name, unique) := l.unique.name slot.name
  .ok (⟨"%" ++ name, slot.type.render⟩, ⟨l.given.store v ("%" ++ name), unique⟩)

def ofOperand (g : Graph) : Option Value → Labelling String
  | none => fun _ => Outcome.abort
  | some v => fun l =>
    match l.given.load? v with
    | some label => .ok (label, l)
    | none => do
      let (typed, l) ← define g v l
      .ok (typed.name, l)

end Labels

def attributeJson : Attribute → Outcome Json
  | .maps ms => do return .list ((← ms.mapM AffineMap.render).map .text)
  | .iterators is => .ok (.list (is.map fun i => .text i.name))
  | .int v => .ok (.int v)
  | .ints v => .ok (Json.ofList? .int v)
  | .float v => .ok (.float v)
  | .bool v => .ok (.bool v)
  | .text v => .ok (.text v)
  | a => .ok (.text a.plain)

def settings (attrs : Attributes) : Outcome (List Document.Setting) :=
  attrs.entries.mapM fun e => do return ⟨e.1, ← attributeJson e.2⟩

def documentOp (g : Graph) (region : BlockId → Labelling Document.Block) (id : OpId) :
    Labelling Document.Op := do
  let op := g.op id
  let operands ← op.operands.mapM (Labels.ofOperand g)
  let results ← (g.resultsOf id).mapM (Labels.define g)
  let attrs ← StateT.lift (settings op.attrs)
  match op.region with
  | none => return .mk op.kind operands results attrs none
  | some r => return .mk op.kind operands results attrs (some (← region r))

def documentOps (g : Graph) (region : BlockId → Labelling Document.Block) (ids : List OpId) :
    Labelling (Option (List Document.Op)) := do
  let ops ← ids.mapM (documentOp g region)
  return if ops.isEmpty then none else some ops

def documentBlock (g : Graph) : Nat → BlockId → Labelling Document.Block
  | 0, _ => return .mk [] none
  | fuel + 1, b => do
    let args ← (g.argumentsOf b).mapM (Labels.define g)
    return .mk args (← documentOps g (documentBlock g fuel) (g.block b).ops)

def document (g : Graph) : Outcome Document := do
  match ← documentBlock g (g.blocks.size + 1) body Labels.empty with
  | (.mk args ops, _) => .ok ⟨g.name, some args, ops⟩

end TileLower.Graph

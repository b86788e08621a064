import TileLower.Graph.Walk

/-!
Changes to a function: new operations and blocks, insertion and erasure, replacement of uses.
-/
namespace TileLower.Graph

def setOwner (g : Graph) (b : BlockId) (owner : OpId) : Graph :=
  g.modifyBlock b fun blk => { blk with owner := some owner }

def addOp (g : Graph) (op : Operation) : OpId × Graph :=
  let id := g.ops.size
  let g := { g with ops := g.ops.push { op with block := none } }
  match op.region with
  | some r => (id, g.setOwner r id)
  | none => (id, g)

def addBlock (g : Graph) (args : List ValueType) : BlockId × Graph :=
  (g.blocks.size, { g with blocks := g.blocks.push ⟨args.map Slot.ofType, [], none⟩ })

def placeIn (g : Graph) (b : BlockId) (ids : List OpId) : Graph :=
  ids.foldl (fun g id => g.modifyOp id fun o => { o with block := some b }) g

def append (g : Graph) (b : BlockId) (ids : List OpId) : Graph :=
  (g.placeIn b ids).modifyBlock b fun blk => { blk with ops := blk.ops ++ ids }

def insertBefore (g : Graph) (b : BlockId) (anchor : Option OpId) (ids : List OpId) : Graph :=
  let ops := (g.block b).ops
  let pos := ((anchor.bind fun a => ops.findIdx? (· == a)).getD ops.length)
  (g.placeIn b ids).modifyBlock b fun blk =>
    { blk with ops := blk.ops.take pos ++ ids ++ blk.ops.drop pos }

def erase (g : Graph) (b : BlockId) (id : OpId) : Graph :=
  if (g.block b).ops.contains id then
    (g.modifyBlock b fun blk => { blk with ops := blk.ops.erase id }).modifyOp id
      fun o => { o with block := none }
  else g

def substituteOperands (old new : Option Value) (op : Operation) : Operation :=
  { op with operands := op.operands.map fun v => if v = old then new else v }

def replaceUsesExcept (g : Graph) (old new : Option Value) (except : Option OpId) : Graph :=
  g.walkAll.foldl (fun h id =>
    if some id = except then h else h.modifyOp id (substituteOperands old new)) g

def replaceUses (g : Graph) (old new : Option Value) : Graph := g.replaceUsesExcept old new none

def takeRegion (g : Graph) (target source : OpId) : Graph :=
  let region := (g.op source).region
  let g := g.modifyOp source fun o => { o with region := none }
  let g := g.modifyOp target fun o => { o with region }
  match region with
  | some r => g.setOwner r target
  | none => g

end TileLower.Graph

import TileLower.Attribute

/-!
A function under transformation: a table of operations and a table of blocks. An operation names its
operands, and may carry a region, which is one block; a block lists its operations in order. The
tables only grow: an operation that is erased from its block stays in its table, detached.

Nothing here requires that a function is well formed. Operands may be absent, a block may be shared
or list an operation twice, and an operation may be used before it stands in any block.
-/
namespace TileLower

abbrev OpId := Nat
abbrev BlockId := Nat

inductive Value where
  | result (op : OpId) (index : Nat)
  | argument (block : BlockId) (index : Nat)
  deriving DecidableEq, Repr, Inhabited

structure Slot where
  type : ValueType
  name : String
  deriving DecidableEq, Repr, Inhabited

def Slot.ofType (type : ValueType) : Slot := ⟨type, ""⟩

structure Operation where
  kind : String
  operands : List (Option Value)
  results : List Slot
  attrs : Attributes
  region : Option BlockId
  block : Option BlockId
  deriving Repr

instance : Inhabited Operation := ⟨⟨"", [], [], OrderedMap.empty, none, none⟩⟩

def dialectOf (kind : String) : String := String.ofList (kind.toList.takeWhile (· ≠ '.'))

def Operation.dialect (op : Operation) : String := dialectOf op.kind

structure Block where
  args : List Slot
  ops : List OpId
  owner : Option OpId
  deriving DecidableEq, Repr, Inhabited

structure Graph where
  name : String
  ops : Array Operation
  blocks : Array Block
  deriving Repr, Inhabited

namespace Graph

def body : BlockId := 0

def ofArguments (name : String) (args : List ValueType) : Graph :=
  ⟨name, #[], #[⟨args.map Slot.ofType, [], none⟩]⟩

def op (g : Graph) (id : OpId) : Operation := g.ops.getD id default

def block (g : Graph) (id : BlockId) : Block := g.blocks.getD id default

def slot (g : Graph) : Value → Slot
  | .result op i => (g.op op).results.getD i default
  | .argument block i => (g.block block).args.getD i default

def typeOf (g : Graph) (v : Value) : ValueType := (g.slot v).type

def resultsOf (g : Graph) (id : OpId) : List Value :=
  (List.range (g.op id).results.length).map (.result id)

def argumentsOf (g : Graph) (id : BlockId) : List Value :=
  (List.range (g.block id).args.length).map (.argument id)

def modifyOp (g : Graph) (id : OpId) (f : Operation → Operation) : Graph :=
  { g with ops := g.ops.modify id f }

def modifyBlock (g : Graph) (id : BlockId) (f : Block → Block) : Graph :=
  { g with blocks := g.blocks.modify id f }

def setAt {α : Type} (f : α → α) : List α → Nat → List α
  | [], _ => []
  | x :: xs, 0 => f x :: xs
  | x :: xs, i + 1 => x :: setAt f xs i

def setName (g : Graph) (v : Value) (name : String) : Graph :=
  match v with
  | .result op i => g.modifyOp op fun o => { o with results := setAt ({ · with name }) o.results i }
  | .argument block i => g.modifyBlock block fun b => { b with args := setAt ({ · with name }) b.args i }

def isAlive (g : Graph) (id : OpId) : Bool := (g.op id).block.isSome

def parent? (g : Graph) (id : OpId) : Option OpId :=
  (g.op id).block.bind fun b => (g.block b).owner

def climbs (g : Graph) : Nat → OpId → Bool
  | 0, _ => false
  | fuel + 1, id =>
    if (g.op id).block = some body then true
    else match g.parent? id with
      | some p => g.climbs fuel p
      | none => false

def inFunction (g : Graph) (id : OpId) : Bool := g.climbs (g.ops.size + 1) id

end Graph
end TileLower

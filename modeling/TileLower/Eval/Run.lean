import TileLower.Eval.Primitive
import TileLower.Eval.Structured
import TileLower.Ops.Relayout

/-!
Evaluation of a whole function on arrays in memory.
-/
namespace TileLower.Eval

variable {α : Type} [Scalar α]

def firstOf (r : Ref) : Exec α α := do
  lift (Outcome.ofOption (← array r).data[0]?)

def sliceIndex (offsets strides : List Int64) (idx : List Int64) : Outcome (List Int64) := do
  if offsets.length < idx.length ∨ strides.length < idx.length then Outcome.abort
  let coords := idx.zipWith (fun x (p : Int64 × Int64) => p.1 + x * p.2) (offsets.zip strides)
  .ok (coords ++ List.replicate (offsets.length - idx.length) 0)

def padIndex (low : List Int64) (idx : List Int64) : Outcome (List Int64) := do
  if low.length < idx.length then Outcome.abort
  .ok (idx.zipWith (· + ·) low ++ List.replicate (low.length - idx.length) 0)

def operand (g : Graph) (id : OpId) (i : Nat) : Exec α Operand := lift (g.operandAt id i)

def result (g : Graph) (id : OpId) (i : Nat) : Exec α Value := lift (g.resultAt id i)

def newResult (g : Graph) (id : OpId) : Exec α (NdArray α) := do
  lift (NdArray.filled (g.typeOf (← result g id 0)) Scalar.zero)

def evalConstant (g : Graph) (id : OpId) : Exec α Unit := do
  match Arith.constantValue? (g.op id) with
  | none => fail "constant without a value"
  | some x =>
    let v ← result g id 0
    bindNew v (← lift (NdArray.filled (g.typeOf v) (Scalar.ofFloat x)))

def evalNew (g : Graph) (id : OpId) : Exec α Unit := do
  bindNew (← result g id 0) (← newResult g id)

def evalCast (g : Graph) (id : OpId) : Exec α Unit := do
  let r ← value g (← operand g id 0)
  let v ← result g id 0
  bindNew v ((← array r).withType (g.typeOf v))

def evalSlice (g : Graph) (id : OpId) : Exec α Unit := do
  let source ← value g (← operand g id 0)
  let attrs := (g.op id).attrs
  let offsets := (attrs.ints? Memory.offsetsAttr).getD []
  let strides := (attrs.ints? Memory.stridesAttr).getD []
  let out ← newResult g id
  let dims := out.type.dims
  let r ← allocate out
  Box.each dims fun idx => do
    store r idx (← load source (← lift (sliceIndex offsets strides idx)))
  bind (← result g id 0) r

def evalPad (g : Graph) (id : OpId) : Exec α Unit := do
  let source ← value g (← operand g id 0)
  let padding ← value g (← operand g id 1)
  let low := Memory.padLow (g.op id)
  let t := g.typeOf (← result g id 0)
  let out ← lift (NdArray.filled t (← firstOf padding))
  let r ← allocate out
  Box.each (← array source).type.dims fun idx => do
    let padded ← lift (padIndex low idx)
    store r padded (← load source idx)
  bind (← result g id 0) r

def copyData (source dest : Ref) : Exec α Unit := do
  let a ← array source
  let b ← array dest
  if a.data.size ≠ b.data.size then
    fail ("cannot copy " ++ a.type.render ++ " into " ++ b.type.render)
  overwrite dest a.data

def evalBufferCopy (g : Graph) (id : OpId) : Exec α Unit := do
  let source ← value g (← operand g id 0)
  let dest ← value g (← operand g id 1)
  copyData source dest

def evalPack (g : Graph) (id : OpId) : Exec α Unit := do
  let source ← value g (← operand g id 0)
  let dest ← output g id (← operand g id 1) 0
  let rank := Int64.ofNat (← array source).type.rank
  let m ← lift ((Relayout.layoutOf (g.op id)).indexMap rank)
  Box.each (← array dest).type.dims fun idx => do
    let flat ← lift (m.eval idx)
    let a ← array source
    let x ← if a.inBounds flat then lift (a.get flat) else pure Scalar.zero
    store dest idx x

def evalUnpack (g : Graph) (id : OpId) : Exec α Unit := do
  let source ← value g (← operand g id 0)
  let dest ← output g id (← operand g id 1) 0
  let rank := Int64.ofNat (← array dest).type.rank
  let m ← lift ((Relayout.layoutOf (g.op id)).indexMap rank)
  Box.each (← array source).type.dims fun idx => do
    let flat ← lift (m.eval idx)
    if (← array dest).inBounds flat then store dest flat (← load source idx)

def inputAndOutput (g : Graph) (id : OpId) : Exec α (Ref × Ref) := do
  let op := g.op id
  let ins ← lift (Structured.inputs op)
  let source ← value g (← lift (Outcome.ofOption ins[0]?))
  let outs ← lift (Structured.outputs op)
  let dest ← output g id (← lift (Outcome.ofOption outs[0]?)) 0
  return (source, dest)

def evalFill (g : Graph) (id : OpId) : Exec α Unit := do
  let (source, dest) ← inputAndOutput g id
  let x ← firstOf source
  overwrite dest ((← array dest).fill x).data

def evalCopy (g : Graph) (id : OpId) : Exec α Unit := do
  let (source, dest) ← inputAndOutput g id
  copyData source dest

def evalOp (g : Graph) (id : OpId) : Exec α Unit :=
  let op := g.op id
  let kind := op.kind
  if kind = Arith.constantKind then evalConstant g id
  else if kind = Memory.emptyKind ∨ kind = Memory.allocKind then evalNew g id
  else if kind = Memory.castKind then evalCast g id
  else if kind = Memory.extractSliceKind ∨ kind = Memory.subviewKind then evalSlice g id
  else if kind = Memory.padKind then evalPad g id
  else if kind = Memory.copyKind then evalBufferCopy g id
  else if kind = Relayout.packKind then evalPack g id
  else if kind = Relayout.unpackKind then evalUnpack g id
  else if kind = Structured.fillKind then evalFill g id
  else if kind = Structured.copyKind then evalCopy g id
  else if Structured.isStructured op then structured g id
  else if Primitive.isPrimitive op then primitive g id
  else fail ("operation " ++ kind ++ " not supported")

def located {β : Type} (g : Graph) (id : OpId) (m : Exec α β) : Exec α β := fun s =>
  match m s with
  | .error (.error d) s => .error (.error (.located (g.location (some id)) d)) s
  | r => r

def evalAll (g : Graph) : List OpId → Exec α (List Ref)
  | [] => return []
  | id :: rest => do
    if (g.op id).kind = Memory.returnKind then values g (g.op id).operands
    else
      located g id (evalOp g id)
      evalAll g rest

def bindArguments (g : Graph) : Nat → List Slot → List Ref → Exec α Unit
  | i, s :: ss, r :: rs => do
    let a ← array r
    if a.type ≠ s.type then
      fail ("function " ++ g.name ++ ": argument " ++ toString i ++ " of type " ++ a.type.render ++
        " cannot be assigned to " ++ s.type.render)
    bind (.argument Graph.body i) (← if s.type.isTensor then allocate a else pure r)
    bindArguments g (i + 1) ss rs
  | _, _, _ => return ()

def evalFunction (g : Graph) (args : List Ref) : Exec α (List Ref) := do
  let params := (g.block Graph.body).args
  if args.length ≠ params.length then
    fail ("function " ++ g.name ++ ": got " ++ toString args.length ++ " arguments but want " ++
      toString params.length)
  bindArguments g 0 params args
  evalAll g (g.block Graph.body).ops

structure Ended (α : Type) where
  memory : Array (NdArray α)
  results : Outcome (List (NdArray α))

def run (g : Graph) (memory : Array (NdArray α)) (args : List Ref) : Ended α :=
  match evalFunction g args ⟨memory, fun _ => none⟩ with
  | .ok refs s => ⟨s.memory, .ok (refs.map fun r => s.memory.getD r default)⟩
  | .error f s => ⟨s.memory, .error f⟩

end TileLower.Eval

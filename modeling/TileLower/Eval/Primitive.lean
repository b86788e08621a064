import TileLower.Eval.Machine
import TileLower.Ops.Primitive

/-!
Evaluation of tile primitives.
-/
namespace TileLower.Eval

variable {α : Type} [Scalar α]

def broadcastIndex (t : ValueType) (outIdx : List Int64) : Outcome (List Int64) :=
  if outIdx.length < t.rank then
    Outcome.fail ("cannot broadcast " ++ t.render ++ " to an index of rank " ++
      toString outIdx.length)
  else .ok ((outIdx.drop (outIdx.length - t.rank)).zipWith (fun x d => if d = 1 then 0 else x) t.dims)

def broadcastAt (r : Ref) (outIdx : List Int64) : Exec α α := do
  let idx ← lift (broadcastIndex (← array r).type outIdx)
  load r idx

def broadcastAll (outIdx : List Int64) : List Ref → Exec α (List α)
  | [] => return []
  | r :: rs => do
    let x ← broadcastAt r outIdx
    let xs ← broadcastAll outIdx rs
    return x :: xs

def primitiveArrays (g : Graph) (id : OpId) : Exec α (List Ref × Ref) := do
  let op := g.op id
  let ins ← values g (← lift (Primitive.inputs op))
  let out ← output g id (← lift (Primitive.output op)) 0
  return (ins, out)

def elementwise (g : Graph) (id : OpId) (f : List α → Outcome α) : Exec α Unit := do
  let (ins, out) ← primitiveArrays g id
  Box.each (← array out).type.dims fun idx => do
    let args ← broadcastAll idx ins
    store out idx (← lift (f args))

def identityOf : List α → Outcome α
  | x :: _ => .ok x
  | [] => Outcome.abort

def reluOf : List α → Outcome α
  | x :: _ => .ok (Scalar.max x Scalar.zero)
  | [] => Outcome.abort

def sumOf : List α → Outcome α
  | x :: y :: _ => .ok (Scalar.add x y)
  | _ => Outcome.abort

/-- Which elements are multiplied for output `(i, j)`. The right one may have no index. -/
structure Contraction where
  batch : Int64
  depth : Int64
  left : Int64 → Int64 → Int64 → List Int64
  right : Int64 → Int64 → Int64 → Outcome (List Int64)

def accumulate (c : Contraction) (a b : Ref) (i j : Int64) (acc : α) : Exec α α :=
  Box.fold c.batch (fun acc t => Box.fold c.depth (fun acc k => do
    let x ← load a (c.left t i k)
    let y ← load b (← lift (c.right t k j))
    return Scalar.add acc (Scalar.mul x y)) acc) acc

def contract (c : Contraction) (a b out : Ref) : Exec α Unit := do
  Box.each (← array out).type.dims fun idx => do
    let acc ← load out idx
    match idx with
    | i :: j :: _ => store out idx (← accumulate c a b i j acc)
    | short =>
      -- Without two coordinates only an empty sum is defined.
      if c.batch ≤ 0 ∨ c.depth ≤ 0 then store out idx acc
      else
        if let [i] := short then let _ ← load a (c.left 0 i 0)
        abort

def contractionOf (kind : String) (a b : ValueType) : Outcome Contraction := do
  let dim (t : ValueType) (i : Nat) := Outcome.ofOption t.dims[i]?
  if kind = Primitive.matmulKind then
    .ok ⟨1, ← dim a 1, fun _ i k => [i, k], fun _ k j => .ok [k, j]⟩
  else if kind = Primitive.brgemmKind then
    .ok ⟨← dim a 0, ← dim a 2, fun t i k => [t, i, k], fun t k j => .ok [t, k, j]⟩
  else if kind = Primitive.vnniMatmulKind then
    let v ← dim b 2
    .ok ⟨1, ← dim a 1, fun _ i k => [i, k],
      fun _ k j => if v = 0 then Outcome.abort else .ok [k / v, j, k % v]⟩
  else Outcome.fail ("primitive " ++ kind ++ " not supported")

def primitive (g : Graph) (id : OpId) : Exec α Unit := do
  let op := g.op id
  lift (Primitive.verify g op)
  if op.kind = Primitive.identityKind then elementwise g id identityOf
  else if op.kind = Primitive.reluKind then elementwise g id reluOf
  else if op.kind = Primitive.addKind then elementwise g id sumOf
  else
    let (ins, out) ← primitiveArrays g id
    match ins with
    | [a, b] =>
      let c ← lift (contractionOf op.kind (← array a).type (← array b).type)
      contract c a b out
    | _ => abort

end TileLower.Eval

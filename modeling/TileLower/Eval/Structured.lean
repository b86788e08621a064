import TileLower.Eval.Machine
import TileLower.Ops.Structured

/-!
Evaluation of structured operations: at each point of the loop nest the body is run on the elements
that the indexing maps select, and what it yields is written to the outputs.
-/
namespace TileLower.Eval

open TileLower.Affine (Expr)

def convIndex (out filter : Int64) (stride dilation : Int64) : Expr :=
  ((Expr.dim out).mul stride).add ((Expr.dim filter).mul dilation)

structure Window where
  strideH : Int64
  strideW : Int64
  dilationH : Int64
  dilationW : Int64

def windowOf (op : Operation) : Outcome Window :=
  match Structured.strides op, Structured.dilations op with
  | sh :: sw :: _, dh :: dw :: _ => .ok ⟨sh, sw, dh, dw⟩
  | _, _ => Outcome.abort

def nchwMaps (w : Window) : List AffineMap :=
  [⟨7, [.dim 0, .dim 4, convIndex 2 5 w.strideH w.dilationH, convIndex 3 6 w.strideW w.dilationW]⟩,
   ⟨7, [.dim 1, .dim 4, .dim 5, .dim 6]⟩, ⟨7, [.dim 0, .dim 1, .dim 2, .dim 3]⟩]

def nhwcMaps (w : Window) : List AffineMap :=
  [⟨7, [.dim 0, convIndex 1 4 w.strideH w.dilationH, convIndex 2 5 w.strideW w.dilationW, .dim 6]⟩,
   ⟨7, [.dim 4, .dim 5, .dim 6, .dim 3]⟩, ⟨7, [.dim 0, .dim 1, .dim 2, .dim 3]⟩]

def batchReduceMaps : List AffineMap :=
  [⟨4, [.dim 0, .dim 1, .dim 3]⟩, ⟨4, [.dim 0, .dim 3, .dim 2]⟩, ⟨4, [.dim 1, .dim 2]⟩]

def indexingMaps (op : Operation) : Outcome (List AffineMap) :=
  if op.kind = Structured.genericKind then .ok (Structured.indexingMaps op)
  else if op.kind = Structured.matmulKind then .ok Structured.matmulMaps
  else if op.kind = Structured.batchReduceMatmulKind then .ok batchReduceMaps
  else if op.kind = Structured.convNchwFchwKind then do .ok (nchwMaps (← windowOf op))
  else if op.kind = Structured.convNhwcHwcfKind then do .ok (nhwcMaps (← windowOf op))
  else Outcome.fail ("no indexing maps for " ++ op.kind)

def inferExtents : List Int64 → List Expr → List Int64 → Outcome (List Int64)
  | extents, .dim pos :: es, d :: ds => do
    let known ← entryAt extents pos
    inferExtents (if known ≥ 0 then extents else extents.set pos.toNatClampNeg d) es ds
  | extents, _ :: es, _ :: ds => inferExtents extents es ds
  | extents, _, _ => .ok extents

def inferAll (g : Graph) : List Int64 → Nat → List AffineMap → List Operand → Outcome (List Int64)
  | extents, i, m :: ms, v :: vs => do
    let t ← g.operandType v
    if m.numResults ≠ t.rank then
      Outcome.fail ("operand " ++ toString i ++ ": map " ++ m.shownBy "s" ++
        " does not match type " ++ t.render)
    inferAll g (← inferExtents extents m.results t.dims) (i + 1) ms vs
  | extents, _, _, _ => .ok extents

def loopExtents (g : Graph) (maps : List AffineMap) (operands : List Operand) :
    Outcome (List Int64) := do
  if maps.length ≠ operands.length then
    Outcome.fail (toString maps.length ++ " indexing maps for " ++ toString operands.length ++
      " operands")
  match maps with
  | [] => .ok []
  | m :: _ =>
    let n ← listLength m.numDims
    let extents ← inferAll g (List.replicate n (-1)) 0 maps operands
    match extents.findIdx? (· < 0) with
    | some i => Outcome.fail ("cannot infer the number of iterations of loop " ++ toString i)
    | none => .ok extents

variable {α : Type} [Scalar α]

abbrev Locals (α : Type) := Value → α

def Locals.set (env : Locals α) (v : Value) (x : α) : Locals α :=
  fun w => if w = v then x else env w

def Locals.read (env : Locals α) : Operand → α
  | some v => env v
  | none => Scalar.zero

def bindArgs (b : BlockId) (args : List α) : Nat → Nat → Locals α → Outcome (Locals α)
  | 0, _, env => .ok env
  | n + 1, i, env =>
    match args[i]? with
    | none => Outcome.abort
    | some x => bindArgs b args n (i + 1) (env.set (.argument b i) x)

def operandValue (g : Graph) (env : Locals α) (id : OpId) (i : Nat) : Outcome α := do
  .ok (env.read (← g.operandAt id i))

def evalScalar (g : Graph) (env : Locals α) (id : OpId) : Outcome α := do
  let op := g.op id
  let kind := op.kind
  if kind = Arith.constantKind then
    .ok (Scalar.ofFloat ((Arith.constantValue? op).getD 0))
  else if Arith.isAdd kind then
    .ok (Scalar.add (← operandValue g env id 0) (← operandValue g env id 1))
  else if Arith.isMul kind then
    .ok (Scalar.mul (← operandValue g env id 0) (← operandValue g env id 1))
  else if kind = Arith.subKind then
    .ok (Scalar.sub (← operandValue g env id 0) (← operandValue g env id 1))
  else if kind = Arith.maxKind then
    .ok (Scalar.max (← operandValue g env id 0) (← operandValue g env id 1))
  else if Arith.isCast kind then operandValue g env id 0
  else Outcome.fail ("operation " ++ kind ++ " not supported in a body")

def evalOps (g : Graph) (env : Locals α) : List OpId → Outcome (List α)
  | [] => Outcome.fail "body without terminator"
  | id :: rest =>
    if (g.op id).kind = Structured.yieldKind then .ok ((g.op id).operands.map env.read)
    else do
      let x ← evalScalar g env id
      let v ← g.resultAt id 0
      evalOps g (env.set v x) rest

def evalBody (g : Graph) (b : BlockId) (args : List α) : Outcome (List α) := do
  let env ← bindArgs b args (g.block b).args.length 0 fun _ => Scalar.zero
  evalOps g env (g.block b).ops

def operandArrays (g : Graph) (id : OpId) (numInputs : Int64) :
    Int64 → List Operand → Exec α (List Ref)
  | _, [] => return []
  | i, v :: vs => do
    let r ← if i < numInputs then value g v else output g id v (i - numInputs)
    let rs ← operandArrays g id numInputs (i + 1) vs
    return r :: rs

def loadAll (idx : List Int64) : List (AffineMap × Ref) → Exec α (List α)
  | [] => return []
  | (m, r) :: rest => do
    let x ← load r (← lift (m.eval idx))
    let xs ← loadAll idx rest
    return x :: xs

def storeAll (idx : List Int64) : List ((AffineMap × Ref) × α) → Exec α Unit
  | [] => return ()
  | ((m, r), x) :: rest => do
    store r (← lift (m.eval idx)) x
    storeAll idx rest

def point (g : Graph) (b : BlockId) (numInputs : Int64) (operands : List (AffineMap × Ref))
    (idx : List Int64) : Exec α Unit := do
  let args ← loadAll idx operands
  let yielded ← lift (evalBody g b args)
  if numInputs < 0 ∨ Int64.ofNat operands.length < numInputs then abort
  let outs := operands.drop numInputs.toNatClampNeg
  if yielded.length ≠ outs.length then
    fail ("body yields " ++ toString yielded.length ++ " values for " ++ toString outs.length ++
      " outputs")
  storeAll idx (outs.zip yielded)

def structured (g : Graph) (id : OpId) : Exec α Unit := do
  let op := g.op id
  let maps ← lift (indexingMaps op)
  match op.region with
  | none => fail "structured operation without a body"
  | some b =>
    let extents ← lift (loopExtents g maps op.operands)
    let numInputs := Structured.numInputs op
    let refs ← operandArrays g id numInputs 0 op.operands
    Box.each extents (point g b numInputs (maps.zip refs))

end TileLower.Eval

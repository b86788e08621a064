import TileLower.Lowering.Blocking

/-!
Mapping of structured operations on buffers to tile primitives.
-/
namespace TileLower.ToPrimitive

open Blocking (ask nth)

def checkBuffers (s : Site) : Drafting Unit := do
  if ¬ (← ask fun g => Structured.hasBufferSemantics g (g.op s.op)) then
    s.decline "require buffer semantics"
  if ¬ (← ask fun g => Structured.hasStaticShape g (g.op s.op)) then
    s.decline "require static shape"

def checkMaps (s : Site) (numInputs : Int64) : Int64 → List AffineMap → Drafting Unit
  | _, [] => pure ()
  | i, m :: ms => do
    if i < numInputs then
      if ¬ (← ask fun _ => m.isMinorIdentity) then
        s.decline ("map of input " ++ Text.showInt i ++ " " ++ m.shownBy "s" ++
          " is not a minor identity")
    else if ¬ (← ask fun _ => m.isIdentity) then
      s.decline ("map of output " ++ Text.showInt (i - numInputs) ++ " " ++ m.shownBy "s" ++
        " is not an identity")
    checkMaps s numInputs (i + 1) ms

def checkElementwiseMaps (s : Site) : Drafting Unit := do
  let op := (← Drafting.graph).op s.op
  if ¬ Structured.isParallel op then s.decline "require parallel loops only"
  checkMaps s (Structured.numInputs op) 0 (Structured.indexingMaps op)

def replace (s : Site) (kind : String) (ins : List Operand) (out : Operand) : Drafting Unit := do
  let new ← Primitive.make kind ins out
  let g ← Drafting.graph
  s.attempt ("cannot map to " ++ kind ++ ": ") (Primitive.verify g (g.op new))
  Draft.replaceWithNew s.op new

def replaceAll (s : Site) (kind : String) : Drafting Unit := do
  let (ins, outs) ← Blocking.operandsAt s
  replace s kind ins (← nth outs 0)

def matmul : Rule where
  name := "matmul-to-tpp"
  root := Structured.matmulKind
  draft s := do
    checkBuffers s
    replaceAll s Primitive.matmulKind

def genericMatmul : Rule where
  name := "generic-matmul-to-tpp"
  root := Structured.genericKind
  draft s := do
    Blocking.checkMark s
    checkBuffers s
    Blocking.checkMatmulBody s
    let (a, b, c) ← Blocking.matmulOperands s
    replace s Primitive.matmulKind [a, b] c

def brgemm : Rule where
  name := "brgemm-to-tpp"
  root := Structured.batchReduceMatmulKind
  draft s := do
    checkBuffers s
    replaceAll s Primitive.brgemmKind

def copy : Rule where
  name := "copy-to-tpp"
  root := Structured.copyKind
  draft s := do
    checkBuffers s
    replaceAll s Primitive.identityKind

def identity : Rule where
  name := "identity-to-tpp"
  root := Structured.genericKind
  draft s := do
    if ¬ (← ask fun g => Body.hasCopySemantics g (g.op s.op)) then s.decline "not a copy"
    checkBuffers s
    checkElementwiseMaps s
    replaceAll s Primitive.identityKind

def relu : Rule where
  name := "relu-to-tpp"
  root := Structured.genericKind
  draft s := do
    let some source ← ask fun g => Body.reluSource? g s.op
      | s.decline "not a maximum with zero"
    let (ins, outs) ← Blocking.operandsAt s
    match outs with
    | [out] =>
      if 2 < ins.length then s.decline "require at most 2 inputs and 1 output"
      checkBuffers s
      checkElementwiseMaps s
      replace s Primitive.reluKind [source] out
    | _ => s.decline "require at most 2 inputs and 1 output"

def isAddBody (g : Graph) (b : BlockId) : Outcome Bool := do
  match (g.block b).ops with
  | [_, yield] =>
    if (g.block b).args.length ≠ 3 then .ok false
    else match (g.op yield).operands with
      | [v] =>
        match ← Graph.definingOp v with
        | none => .ok false
        | some add =>
          if (g.op add).kind ≠ Arith.addFloatKind then .ok false
          else
            let x ← g.operandAt add 0
            let y ← g.operandAt add 1
            let first := some (Value.argument b 0)
            let second := some (Value.argument b 1)
            .ok ((x == first && y == second) || (x == second && y == first))
      | _ => .ok false
  | _ => .ok false

def add : Rule where
  name := "add-to-tpp"
  root := Structured.genericKind
  draft s := do
    let isAdd ← ask fun g =>
      match (g.op s.op).region with
      | none => .ok false
      | some b => isAddBody g b
    if ¬ isAdd then s.decline "not an addition of two inputs"
    checkBuffers s
    checkElementwiseMaps s
    replaceAll s Primitive.addKind

def rules : List Rule := [matmul, genericMatmul, brgemm, copy, identity, relu, add]

end TileLower.ToPrimitive

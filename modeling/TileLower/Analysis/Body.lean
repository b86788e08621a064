import TileLower.Analysis.ZeroFill
import TileLower.Ops.Primitive

/-!
Recognition of structured operations by their maps, iterators and bodies.
-/
namespace TileLower.Body

def isUnaryChainFrom (g : Graph) (source : Value) : Nat → Operand → Outcome Bool
  | 0, _ => .ok false
  | _ + 1, none => Outcome.abort
  | fuel + 1, some v =>
    if v = source then .ok true
    else match v with
      | .argument .. => .ok false
      | .result id _ =>
        match (g.op id).operands with
        | [w] => isUnaryChainFrom g source fuel w
        | _ => .ok false

def comesFrom (g : Graph) (v : Operand) (source : Value) : Outcome Bool :=
  isUnaryChainFrom g source (g.ops.size + 1) v

def singleOp? (g : Graph) (b : BlockId) (kind : String) : Option OpId :=
  match (g.walkFrom b).filter fun id => (g.op id).kind = kind with
  | [id] => some id
  | _ => none

def isAddMulOf (g : Graph) (b : BlockId) (yielded : Operand) (addKind mulKind : String) :
    Outcome Bool := do
  match singleOp? g b addKind, singleOp? g b mulKind with
  | some add, some mul =>
    let argA := Value.argument b 0
    let argB := Value.argument b 1
    let argC := Value.argument b 2
    if ← comesFrom g yielded (← g.resultAt add 0) then
      let c1 ← g.operandAt add 0
      let c2 ← g.operandAt add 1
      let mulRes ← g.resultAt mul 0
      if ← (comesFrom g c1 argC <&&> comesFrom g c2 mulRes) <||>
          (comesFrom g c1 mulRes <&&> comesFrom g c2 argC) then
        let x ← g.operandAt mul 0
        let y ← g.operandAt mul 1
        (comesFrom g x argA <&&> comesFrom g y argB) <||>
          (comesFrom g x argB <&&> comesFrom g y argA)
      else .ok false
    else .ok false
  | _, _ => .ok false

def isAddMul (g : Graph) (b : BlockId) : Outcome Bool :=
  if (g.block b).args.length ≠ 3 then .ok false
  else match (g.terminator? b).map fun id => (g.op id).operands with
    | some [yielded] =>
      isAddMulOf g b yielded Arith.addFloatKind Arith.mulFloatKind <||>
        isAddMulOf g b yielded Arith.addIntKind Arith.mulIntKind
    | _ => .ok false

def hasMatmulBody (g : Graph) (op : Operation) : Outcome Bool :=
  match op.region with
  | none => .ok false
  | some b => isAddMul g b

def mapsEqual : List AffineMap → List AffineMap → Outcome Bool
  | m :: ms, o :: os => do if ← m.equal o then mapsEqual ms os else .ok false
  | _, _ => .ok true

def hasMatmulMaps (op : Operation) : Outcome Bool := do
  let maps := Structured.indexingMaps op
  if maps.length ≠ Structured.matmulMaps.length then .ok false
  else if ← mapsEqual maps Structured.matmulMaps then
    .ok (Structured.iteratorTypes op == Structured.matmulIterators)
  else .ok false

def hasPrimitiveMark (op : Operation) : Bool :=
  op.kind == Structured.genericKind &&
    (let call := Structured.libraryCall op
     call != "" && dialectOf call == Primitive.dialect)

def isMarkedWith (op : Operation) (kind : String) : Bool :=
  hasPrimitiveMark op && Structured.libraryCall op == kind

def allProjected : List AffineMap → Outcome Bool
  | [] => .ok true
  | m :: ms => do if ← m.isProjectedPermutation then allProjected ms else .ok false

def isElementwise (op : Operation) : Outcome Bool :=
  if op.kind = Structured.genericKind ∧ Structured.isParallel op then
    allProjected (Structured.indexingMaps op)
  else .ok false

def hasCopySemantics (g : Graph) (op : Operation) : Outcome Bool :=
  match op.region with
  | none => .ok false
  | some b =>
    if op.kind = Structured.genericKind ∧ Structured.isParallel op ∧ op.operands.length = 2 ∧
        Structured.numInputs op = 1 then
      match (g.block b).ops with
      | [id] =>
        match (g.op id).operands with
        | [v] =>
          if (g.block b).args.isEmpty then Outcome.abort
          else .ok (v == some (.argument b 0))
        | _ => .ok false
      | _ => .ok false
    else .ok false

def zeroArgument (g : Graph) (id : OpId) (b : BlockId) (lhs rhs : Operand) : List Nat → Outcome Bool
  | [] => .ok false
  | i :: rest => do
    let arg := some (Value.argument b i)
    if arg ≠ lhs ∧ arg ≠ rhs then zeroArgument g id b lhs rhs rest
    else match (g.op id).operands[i]? with
      | none => zeroArgument g id b lhs rhs rest
      | some v => do
        if ← ZeroFill.isZeroBefore g v id then .ok true else zeroArgument g id b lhs rhs rest

def maxWithZero (g : Graph) (id : OpId) (b : BlockId) : List OpId → Outcome Bool
  | [] => .ok false
  | inner :: rest => do
    if (g.op inner).kind ≠ Arith.maxKind then maxWithZero g id b rest
    else
      let lhs ← g.operandAt inner 0
      let rhs ← g.operandAt inner 1
      if ← Arith.isZeroConstant g rhs <||> ZeroFill.isZeroProducer g lhs <||>
          ZeroFill.isZeroProducer g rhs then .ok true
      else if ← zeroArgument g id b lhs rhs (List.range (g.block b).args.length) then .ok true
      else maxWithZero g id b rest

def hasMaxWithZero (g : Graph) (id : OpId) : Outcome Bool :=
  let op := g.op id
  match op.region with
  | none => .ok false
  | some b =>
    if op.kind = Structured.genericKind then maxWithZero g id b (g.block b).ops else .ok false

def operandOfArgument (op : Operation) (b : BlockId) : Value → Option Operand
  | .argument b' i => if b' = b then op.operands[i]? else none
  | .result .. => none

def isZeroOperand (g : Graph) (id : OpId) (b : BlockId) (v : Operand) : Outcome Bool := do
  if ← Arith.isZeroConstant g v <||> ZeroFill.isZeroProducer g v then .ok true
  else match v with
    | none => Outcome.abort
    | some v =>
      match operandOfArgument (g.op id) b v with
      | some operand => ZeroFill.isZeroBefore g operand id
      | none => .ok false

def reluPair (g : Graph) (id : OpId) (b : BlockId) (x zero : Operand) : Outcome (Option Operand) := do
  match x with
  | none => Outcome.abort
  | some v =>
    match operandOfArgument (g.op id) b v with
    | none => .ok none
    | some operand => if ← isZeroOperand g id b zero then .ok (some operand) else .ok none

def reluSource? (g : Graph) (id : OpId) : Outcome (Option Operand) := do
  let op := g.op id
  match op.region with
  | none => .ok none
  | some b =>
    if op.kind ≠ Structured.genericKind then .ok none
    else match (g.terminator? b).map fun t => (g.op t).operands with
      | some [yielded] =>
        match ← Graph.definingOp yielded with
        | none => .ok none
        | some maxOp =>
          if (g.op maxOp).kind ≠ Arith.maxKind ∨ (g.op maxOp).block ≠ some b then .ok none
          else
            let lhs ← g.operandAt maxOp 0
            let rhs ← g.operandAt maxOp 1
            match ← reluPair g id b lhs rhs with
            | some v => .ok (some v)
            | none => reluPair g id b rhs lhs
      | _ => .ok none

end TileLower.Body

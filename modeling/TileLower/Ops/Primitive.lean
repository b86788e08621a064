import TileLower.Graph.Draft

/-!
Tile primitives: operations on small arrays that write their last operand. `verify` states the shapes
on which each primitive is defined.
-/
namespace TileLower.Primitive

def identityKind := "tpp.identity"
def reluKind := "tpp.relu"
def addKind := "tpp.add"
def matmulKind := "tpp.matmul"
def brgemmKind := "tpp.brgemm"
def vnniMatmulKind := "tpp.vnni_matmul"

def dialect := "tpp"

def inputCount? (kind : String) : Option Nat :=
  if kind = identityKind ∨ kind = reluKind then some 1
  else if kind = addKind ∨ kind = matmulKind ∨ kind = brgemmKind ∨ kind = vnniMatmulKind then some 2
  else none

def make (kind : String) (ins : List Operand) (out : Operand) : Drafting OpId := do
  let t ← Drafting.typeOf out
  Drafting.make kind (ins ++ [out]) (if t.isTensor then [t] else []) OrderedMap.empty none

def create (kind : String) (ins : List Operand) (out : Operand) : Drafting OpId := do
  let id ← make kind ins out
  Drafting.list id
  pure id

def isPrimitive (op : Operation) : Bool := op.dialect == dialect

def inputs (op : Operation) : Outcome (List Operand) :=
  if op.operands.isEmpty then Outcome.abort else .ok op.operands.dropLast

def output (op : Operation) : Outcome Operand := .ofOption op.operands.getLast?

def mismatch {α : Type} (a b c : List Int64) : Outcome α :=
  Outcome.fail ("operand dimensions mismatch: A" ++ Text.showInts a ++ " * B" ++ Text.showInts b ++
    " -> C" ++ Text.showInts c)

def verifyMatmul (a b c : List Int64) : Outcome Unit :=
  match a, b, c with
  | [a0, a1], [b0, b1], [c0, c1] =>
    if b0 = a1 ∧ b1 = c1 ∧ a0 = c0 then .ok () else mismatch a b c
  | _, _, _ => Outcome.abort

def verifyRanks (g : Graph) : Nat → List Operand → List Nat → Outcome Unit
  | _, [], _ => .ok ()
  | _, _ :: _, [] => Outcome.abort
  | i, v :: vs, rank :: ranks => do
    let t ← g.operandType v
    if t.isShaped && t.rank == rank then verifyRanks g (i + 1) vs ranks
    else Outcome.fail ("operand " ++ toString i ++ ": expected a rank " ++ toString rank ++
      " array but got " ++ t.render)

def checkRanks (g : Graph) (vals : List Operand) (ranks : List Nat) : Outcome Unit :=
  Outcome.within "fails to verify operands shapes" (verifyRanks g 0 vals ranks)

def broadcastable : List Int64 → List Int64 → Bool
  | [], _ => true
  | _ :: _, [] => false
  | i :: is, o :: os => (i == 1 || i == o) && broadcastable is os

def verifyBroadcast (input out : ValueType) : Outcome Unit :=
  if ¬ input.isShaped then .ok ()
  else if out.rank < input.rank then
    Outcome.fail ("cannot broadcast " ++ input.render ++ " into " ++ out.render ++
      ": input rank is larger than output rank")
  else if broadcastable input.dims.reverse out.dims.reverse then .ok ()
  else Outcome.fail ("cannot broadcast " ++ input.render ++ " into " ++ out.render)

def verifyBroadcasts (g : Graph) (out : Operand) : List Operand → Outcome Unit
  | [] => .ok ()
  | v :: vs => do
    let t ← g.operandType v
    -- A scalar input is fine whatever the output is.
    if t.isShaped then verifyBroadcast t (← g.operandType out)
    verifyBroadcasts g out vs

def verifyElementwise (g : Graph) (op : Operation) : Outcome Unit := do
  let out ← output op
  let t ← g.operandType out
  if t.isShaped && 2 < t.rank then
    Outcome.fail ("expected an output of rank at most 2 but got " ++ t.render)
  verifyBroadcasts g out (← inputs op)

def verifyRelu (g : Graph) (op : Operation) : Outcome Unit := do
  match op.operands with
  | [x, out] =>
    let t ← g.operandType x
    let ok ← if t.isShaped then do .ok (t.dims == (← g.operandType out).dims) else .ok false
    if ok then .ok ()
    else Outcome.fail ("relu does not broadcast: cannot apply to " ++ t.render ++ " into " ++
      (← g.operandType out).render)
  | _ => Outcome.abort

def verifyBrgemm (a b c : List Int64) : Outcome Unit :=
  match a, b with
  | a0 :: as, b0 :: bs =>
    if a0 = b0 then verifyMatmul as bs c
    else Outcome.fail ("batch dimensions mismatch: " ++ Text.showInt a0 ++ " != " ++ Text.showInt b0)
  | _, _ => Outcome.abort

def verifyVnni (a b c : List Int64) : Outcome Unit :=
  match a, b, c with
  | [a0, a1], [b0, b1, b2], [c0, c1] =>
    if b0 * b2 = a1 ∧ b1 = c1 ∧ a0 = c0 then .ok () else mismatch a b c
  | _, _, _ => Outcome.abort

def verifyKnown (g : Graph) (op : Operation) : Outcome Unit := do
  if op.kind = matmulKind then
    checkRanks g op.operands [2, 2, 2]
    match ← g.operandTypes op.operands with
    | [a, b, c] => verifyMatmul a.dims b.dims c.dims
    | _ => Outcome.abort
  else if op.kind = brgemmKind then
    checkRanks g op.operands [3, 3, 2]
    match ← g.operandTypes op.operands with
    | [a, b, c] => verifyBrgemm a.dims b.dims c.dims
    | _ => Outcome.abort
  else if op.kind = vnniMatmulKind then
    checkRanks g op.operands [2, 3, 2]
    match ← g.operandTypes op.operands with
    | [a, b, c] =>
      if b.element ≠ .bf16 then
        Outcome.fail ("expected a bf16 VNNI operand but got " ++ b.render)
      verifyVnni a.dims b.dims c.dims
    | _ => Outcome.abort
  else
    if op.kind = reluKind then verifyRelu g op
    verifyElementwise g op

def verify (g : Graph) (op : Operation) : Outcome Unit :=
  match inputCount? op.kind with
  | none => Outcome.fail (op.kind ++ " is not a primitive")
  | some want =>
    if op.operands.length ≠ want + 1 then
      Outcome.fail ("expected " ++ toString (want + 1) ++ " operands but got " ++
        toString op.operands.length)
    else verifyKnown g op

def verifyEach (g : Graph) : Collector → List OpId → Outcome Collector
  | c, [] => .ok c
  | c, id :: rest =>
    if isPrimitive (g.op id) then
      match verify g (g.op id) with
      | .ok _ => verifyEach g c rest
      | .error .abort => Outcome.abort
      | .error (.error d) => verifyEach g (c.append (.located (g.location (some id)) d)) rest
    else verifyEach g c rest

def verifyAll (g : Graph) : Outcome (List Diagnostic) := do
  .ok (← verifyEach g Collector.empty g.walkAll).results

end TileLower.Primitive

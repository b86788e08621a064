import TileLower.Ops.Memory
import TileLower.Ops.Structured

/-!
Values that hold zeros only. A value is traced back through copies, views and casts to a constant
zero or to a fill with one. Contents of a buffer are those of the last operation that wrote it, or a
buffer that it is a view of, before the operation that reads it.
-/
namespace TileLower.ZeroFill

def readsOnly (op : Operation) (v : Operand) : Outcome Bool :=
  if Structured.isStructured op then do .ok (!(← Structured.outputs op).contains v)
  else if op.kind = Memory.copyKind then do .ok ((← Outcome.ofOption op.operands[1]?) ≠ v)
  else .ok (op.kind = Memory.subviewKind || op.kind = Memory.castKind ||
    op.kind = Memory.extractSliceKind)

def viewSource? (g : Graph) (v : Value) : Outcome Operand :=
  match v with
  | .argument .. => .ok none
  | .result id _ =>
    if (g.op id).kind = Memory.subviewKind then g.operandAt id 0 else .ok none

def covering (g : Graph) : Nat → Value → Outcome (List Value)
  | 0, v => .ok [v]
  | fuel + 1, v => do
    match ← viewSource? g v with
    | none => .ok [v]
    | some source => do .ok (v :: (← covering g fuel source))

structure Writes where
  writer : Option OpId
  isPartial : Bool
  overlapping : List Value

def among (vs : List Value) (v : Operand) : Bool :=
  match v with
  | some v => vs.contains v
  | none => false

def seeOperands (op : Operation) (id : OpId) (cover : List Value) :
    Writes → List Operand → Outcome Writes
  | w, [] => .ok w
  | w, v :: vs => do
    if ← readsOnly op v then seeOperands op id cover w vs
    else if among cover v then seeOperands op id cover { w with writer := some id, isPartial := false } vs
    else if among w.overlapping v then
      seeOperands op id cover { w with writer := some id, isPartial := true } vs
    else seeOperands op id cover w vs

def seeOp (g : Graph) (cover : List Value) (w : Writes) (id : OpId) : Outcome Writes := do
  let op := g.op id
  if op.kind = Memory.subviewKind then
    let source ← g.operandAt id 0
    let view ← g.resultAt id 0
    if (among cover source || among w.overlapping source) && !cover.contains view then
      .ok { w with overlapping := view :: w.overlapping }
    else .ok w
  else seeOperands op id cover w op.operands

def seeAll (g : Graph) (cover : List Value) : Writes → List OpId → Outcome Writes
  | w, [] => .ok w
  | w, id :: rest => do seeAll g cover (← seeOp g cover w id) rest

def lastWriter (g : Graph) (v : Value) (user : Option OpId) : Outcome (Option OpId × Bool) :=
  match user with
  | none => .ok (none, false)
  | some user =>
    if g.inFunction user then do
      let cover ← covering g (g.ops.size + 1) v
      let w ← seeAll g cover ⟨none, false, []⟩ (g.walkAll.takeWhile (· ≠ user))
      .ok (w.writer, w.isPartial)
    else .ok (none, false)

/-- The operation that decides what a value holds just before `user`, or, without one, what it holds
as it is defined. -/
def origin (g : Graph) (v : Operand) (user : Option OpId) : Outcome (Option OpId) := do
  match v with
  | none => Outcome.abort
  | some value =>
    if (g.typeOf value).isBuffer then
      match ← lastWriter g value user with
      | (_, true) => .ok none
      | (some writer, false) => .ok (some writer)
      | (none, false) => Graph.definingOp v
    else Graph.definingOp v

inductive Trace where
  | zero
  | from (source : Option OpId)
  | other

def trace (g : Graph) (id : OpId) : Outcome Trace := do
  let op := g.op id
  if op.kind = Arith.constantKind then
    match Arith.constantValue? op with
    | some x => .ok (if x == 0 then .zero else .other)
    | none => .ok .other
  else if op.kind = Structured.fillKind then
    match ← Structured.inputs op with
    | [v] => do .ok (if ← Arith.isZeroConstant g v then .zero else .other)
    | _ => .ok .other
  else if op.kind = Structured.copyKind then
    match ← Structured.inputs op with
    | [v] => do .ok (.from (← origin g v id))
    | _ => .ok .other
  else if op.kind = Memory.copyKind ∨ op.kind = Memory.subviewKind ∨ op.kind = Memory.castKind ∨
      op.kind = Memory.extractSliceKind then
    .ok (.from (← origin g (← g.operandAt id 0) id))
  else .ok .other

def follow (g : Graph) : Nat → List OpId → Option OpId → Outcome Bool
  | 0, _, _ => .ok false
  | _ + 1, _, none => .ok false
  | fuel + 1, visited, some id =>
    if visited.contains id then .ok false
    else do
      match ← trace g id with
      | .zero => .ok true
      | .from source => follow g fuel (id :: visited) source
      | .other => .ok false

def followFrom (g : Graph) (start : Option OpId) : Outcome Bool :=
  follow g (g.ops.size + 1) [] start

def isZeroProducer (g : Graph) (v : Operand) : Outcome Bool := do
  followFrom g (← Graph.definingOp v)

def isZeroBefore (g : Graph) (v : Operand) (user : Option OpId) : Outcome Bool := do
  followFrom g (← origin g v user)

end TileLower.ZeroFill

import TileLower.Broadcast
import TileLower.Lowering.Blocking
import TileLower.Ops.Kernel

/-!
Lowering of tile primitives on buffers to calls of the kernel library.
-/
namespace TileLower.ToKernel

open Blocking (ask nth)

def checkOutput (s : Site) (out : ValueType) : Drafting String := do
  if ¬ out.isShaped then s.decline "scalar output"
  if ¬ out.isBuffer then s.decline "require buffer semantics"
  if ¬ out.isStatic then s.decline "require static shape"
  s.attempt "" (Kernel.dataTypeOf out)

def check (s : Site) : Drafting (Operation × ValueType × String) := do
  let g ← Drafting.graph
  let op := g.op s.op
  s.attempt "" (Primitive.verify g op)
  let out ← Drafting.typeOf (← ask fun _ => Primitive.output op)
  let dataType ← checkOutput s out
  pure (op, out, dataType)

def check2D (s : Site) (out : ValueType) : Drafting (Int64 × Int64) :=
  match out.dims with
  | [m, n] => pure (m, n)
  | _ => s.decline ("require a 2D output but got " ++ out.render)

def invoke (s : Site) (kind function : String) (handle : Value) (buffers : List Operand)
    (batch : Option Int64) : Drafting Unit := do
  let new ← Kernel.makeInvoke kind function handle buffers batch
  Draft.replaceWithNew s.op new

def extent (t : ValueType) (axis : Nat) : Drafting Int64 := Drafting.require t.dims[axis]?

def contraction (s : Site) (function flags : String) (depthAxis : Nat) (batched : Bool) :
    Drafting Unit := do
  let (op, out, dataType) ← check s
  let left ← Drafting.typeOf (← nth op.operands 0)
  let batch ← if batched then do pure (some (← extent left 0)) else pure none
  let m ← extent out 0
  let n ← extent out 1
  let k ← extent left depthAxis
  let handle ← Kernel.dispatch Kernel.ternaryDispatchKind function (some [m, n, k, m, k, m]) flags
    dataType
  invoke s Kernel.ternaryKind function handle op.operands batch

def matmul : Rule where
  name := "matmul-to-xsmm"
  root := Primitive.matmulKind
  draft s := contraction s "MATMUL" "NONE" 1 false

def brgemm : Rule where
  name := "brgemm-to-xsmm"
  root := Primitive.brgemmKind
  draft s := contraction s "BRGEMM" "NONE" 2 true

def vnniMatmul : Rule where
  name := "vnni-matmul-to-xsmm"
  root := Primitive.vnniMatmulKind
  draft s := contraction s "MATMUL" "VNNI_B" 1 false

def broadcastFlag : Broadcast → String
  | .full => "NONE"
  | .row => "BCAST_COL"
  | .column => "BCAST_ROW"
  | .scalar => "BCAST_SCALAR"

def identity : Rule where
  name := "identity-to-xsmm"
  root := Primitive.identityKind
  draft s := do
    let (op, out, dataType) ← check s
    let (m, n) ← check2D s out
    let input ← nth op.operands 0
    let output ← nth op.operands 1
    let t ← Drafting.typeOf input
    let (ldi, kind) ← ask fun _ => Broadcast.classify t out.dims
    let handle ← Kernel.dispatch Kernel.unaryDispatchKind "IDENTITY" (some [m, n, ldi, n])
      (broadcastFlag kind) dataType
    invoke s Kernel.unaryKind "IDENTITY" handle [input, output] none

def relu : Rule where
  name := "relu-to-xsmm"
  root := Primitive.reluKind
  draft s := do
    let (op, out, dataType) ← check s
    let (m, n) ← check2D s out
    let handle ← Kernel.dispatch Kernel.unaryDispatchKind "RELU" (some [m, n, m, m]) "NONE" dataType
    invoke s Kernel.unaryKind "RELU" handle [← nth op.operands 0, ← nth op.operands 1] none

def classifyInputs (s : Site) (out : List Int64) :
    Nat → String → List Operand → Drafting (List Int64 × String)
  | _, flags, [] => pure ([], flags)
  | i, flags, v :: vs => do
    let t ← Drafting.typeOf v
    let (ld, kind) ← ask fun _ => Broadcast.classify t out
    let flags ←
      if kind = .full then pure flags
      else if flags ≠ "NONE" then s.decline "cannot broadcast both inputs"
      else pure (broadcastFlag kind ++ "_IN" ++ toString i)
    let (lds, flags) ← classifyInputs s out (i + 1) flags vs
    pure (ld :: lds, flags)

def add : Rule where
  name := "add-to-xsmm"
  root := Primitive.addKind
  draft s := do
    let (op, out, dataType) ← check s
    let (m, n) ← check2D s out
    let ins ← ask fun _ => Primitive.inputs op
    match ← classifyInputs s out.dims 0 "NONE" ins with
    | ([ld0, ld1], flags) =>
      let handle ← Kernel.dispatch Kernel.binaryDispatchKind "ADD" (some [m, n, ld0, ld1, n]) flags
        dataType
      invoke s Kernel.binaryKind "ADD" handle op.operands none
    | _ => Drafting.abort

def rules : List Rule := [matmul, brgemm, vnniMatmul, identity, relu, add]

end TileLower.ToKernel

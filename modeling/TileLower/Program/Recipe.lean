import TileLower.Ops.Memory
import TileLower.Ops.Structured
import TileLower.Program.Basic
import TileLower.ValueType.Reader

/-!
How each operation of a program is made, and what its operands must be.
-/
namespace TileLower.Program

inductive Recipe where
  | into (counts : List Nat) (make : Step → List Value → Value → Drafting Operand)
  | fresh (counts : List Nat) (make : Step → List Value → Drafting Operand)

namespace Recipe

def counts : Recipe → List Nat
  | .into counts _ => counts
  | .fresh counts _ => counts

def cannotMix (a b : ValueType) : Outcome Unit :=
  Outcome.fail ("cannot mix " ++ a.render ++ " and " ++ b.render)

def checkRanksFrom : Nat → List ValueType → List Nat → Outcome Unit
  | i, t :: ts, rank :: ranks =>
    if t.rank = rank then checkRanksFrom (i + 1) ts ranks
    else Outcome.fail ("operand " ++ toString i ++ ": got " ++ t.render ++ " but want a rank of " ++
      toString rank)
  | _, _, _ => .ok ()

def checkKinds (last : ValueType) : List ValueType → Outcome Unit
  | [] => .ok ()
  | t :: ts => if t.kind = last.kind then checkKinds last ts else cannotMix t last

def checkRanks (ins : List ValueType) (out : ValueType) (ranks : List Nat) : Outcome Unit := do
  checkRanksFrom 0 (ins ++ [out]) ranks
  checkKinds out (ins ++ [out])

def checkPair (what : String) : Option (List Int64) → Outcome Unit
  | some xs =>
    if xs.length = 2 then .ok ()
    else Outcome.fail ("got " ++ toString xs.length ++ " " ++ what ++ " but want 2")
  | none => .ok ()

def checkConv (s : Step) (ins : List ValueType) (out : ValueType) : Outcome Unit := do
  checkRanks ins out [4, 4, 4]
  checkPair "strides" s.strides
  checkPair "dilations" s.dilations

def checkElementwise (out : ValueType) : Nat → List ValueType → Outcome Unit
  | _, [] => .ok ()
  | i, t :: ts =>
    if t.dims ≠ out.dims.drop (out.dims.length - t.dims.length) then
      Outcome.fail ("input " ++ toString i ++ ": cannot broadcast " ++ t.render ++ " to " ++ out.render)
    else if t.kind ≠ out.kind then cannotMix t out
    else checkElementwise out (i + 1) ts

def firstResult (id : OpId) : Drafting Operand := do
  return ((← Drafting.graph).resultsOf id)[0]?

def checked (check : Step → List ValueType → ValueType → Outcome Unit)
    (make : Step → List Value → Value → Drafting OpId) (s : Step) (ins : List Value) (out : Value) :
    Drafting Operand := do
  let g ← Drafting.graph
  Drafting.lift (check s (ins.map g.typeOf) (g.typeOf out))
  firstResult (← make s ins out)

def binary (make : Operand → Operand → Operand → Drafting OpId) (ins : List Value) (out : Value) :
    Drafting OpId :=
  match ins with
  | [a, b] => make a b out
  | _ => Drafting.abort

def addBody : Structured.Body := fun args => do
  let a : Value ← Drafting.require args[0]?
  let b : Value ← Drafting.require args[1]?
  return [some (← Arith.add a b)]

def reluBody (element : ValueType) : Structured.Body := fun args => do
  let z ← Arith.constant 0 element
  let a : Value ← Drafting.require args[0]?
  return [some (← Arith.max a (some (.result z 0)))]

def elementwise (counts : List Nat) (body : ValueType → Structured.Body) : Recipe :=
  .into counts <| checked (fun _ ins out => checkElementwise out 0 ins) fun _ ins out => do
    let t ← Drafting.typeOf out
    Structured.elementwise (ins.map some) out "" (body (.scalar t.element))

def constantLike (x : Float) (v : Value) : Drafting Value := do
  let t ← Drafting.typeOf v
  return .result (← Arith.constant x (.scalar t.element)) 0

def matmul : Recipe :=
  .into [2] <| checked (fun _ ins out => checkRanks ins out [2, 2, 2]) fun _ ins out =>
    binary Structured.matmul ins out

def batchReduceMatmul : Recipe :=
  .into [2] <| checked (fun _ ins out => checkRanks ins out [3, 3, 2]) fun _ ins out =>
    binary Structured.batchReduceMatmul ins out

def convNchwFchw : Recipe :=
  .into [2] <| checked checkConv fun s ins out =>
    binary (fun a b c => Structured.convNchwFchw a b c s.strides s.dilations) ins out

def convNhwcHwcf : Recipe :=
  .into [2] <| checked checkConv fun s ins out =>
    binary (fun a b c => Structured.convNhwcHwcf a b c s.strides s.dilations) ins out

def add : Recipe := elementwise [2] fun _ => addBody

def relu : Recipe := elementwise [0, 1] reluBody

def checkCopy : List ValueType → ValueType → Outcome Unit
  | [t], out =>
    if t = out then .ok () else Outcome.fail ("cannot copy " ++ t.render ++ " into " ++ out.render)
  | _, _ => Outcome.abort

def identity : Recipe :=
  .into [1] <| checked (fun _ ins out => checkCopy ins out) fun _ ins out =>
    match ins with
    | [a] => Structured.copy a out
    | _ => Drafting.abort

def fill : Recipe :=
  .into [0] fun s _ out => do
    let x ← constantLike s.value out
    firstResult (← Structured.fill x out)

def pad : Recipe :=
  .fresh [1] fun s ins => do
    match ins with
    | [a] =>
      let t ← Drafting.typeOf a
      if ¬ t.isTensor then Drafting.fail ("cannot pad " ++ t.render)
      let x ← constantLike s.value a
      return some (← Memory.pad a x s.low s.high)
    | _ => Drafting.abort

def empty : Recipe :=
  .fresh [0] fun s _ => do
    return some (← Memory.empty (← Drafting.lift (ValueType.parse s.type)))

def alloc : Recipe :=
  .fresh [0] fun s _ => do
    let t ← Drafting.lift (ValueType.parse s.type)
    if ¬ (t.isShaped && t.isStatic) then Drafting.fail ("cannot allocate " ++ t.render)
    return some (← Memory.alloc t)

def named : List (String × Recipe) :=
  [("matmul", matmul), ("batch_reduce_matmul", batchReduceMatmul),
   ("conv_2d_nchw_fchw", convNchwFchw), ("conv_2d_nhwc_hwcf", convNhwcHwcf), ("add", add),
   ("relu", relu), ("identity", identity), ("fill", fill), ("pad", pad), ("empty", empty),
   ("alloc", alloc)]

def ofName? (name : String) : Option Recipe := named.lookup name

end Recipe
end TileLower.Program

import TileLower.Graph.Draft

/-!
Operations that make, pad, cut and copy arrays, for tensors and for buffers, and the return.
-/
namespace TileLower.Memory

def emptyKind := "tensor.empty"
def padKind := "tensor.pad"
def castKind := "tensor.cast"
def extractSliceKind := "tensor.extract_slice"
def allocKind := "memref.alloc"
def copyKind := "memref.copy"
def subviewKind := "memref.subview"
def returnKind := "func.return"

def lowAttr := "low"
def highAttr := "high"
def offsetsAttr := "offsets"
def sizesAttr := "sizes"
def stridesAttr := "strides"

def empty (type : ValueType) : Drafting Value := do
  let id ← Drafting.createPlain emptyKind [] [type.withKind .tensor]
  pure (.result id 0)

def alloc (type : ValueType) : Drafting Value := do
  let id ← Drafting.createPlain allocKind [] [type.withKind .buffer]
  pure (.result id 0)

def paddedDims : List Int64 → List Int64 → List Int64 → List Int64
  | d :: ds, l :: ls, h :: hs =>
    (if d = ValueType.dynamicSize then d else d + (l + h)) :: paddedDims ds ls hs
  | _, _, _ => []

def paddedType (t : ValueType) (low high : List Int64) : Outcome ValueType :=
  if low.length = t.rank ∧ high.length = t.rank then .ok (t.withDims (paddedDims t.dims low high))
  else Outcome.fail ("cannot pad " ++ t.render ++ ": got " ++ toString low.length ++ " low and " ++
    toString high.length ++ " high paddings for a rank of " ++ toString t.rank)

def makePad (source value : Operand) (low high : Option (List Int64)) : Drafting OpId := do
  let t ← Drafting.typeOf source
  let padded ← Drafting.lift (paddedType t (low.getD []) (high.getD []))
  Drafting.make padKind [source, value] [padded]
    (Attributes.ofList [(lowAttr, .ints low), (highAttr, .ints high)]) none

def pad (source value : Operand) (low high : Option (List Int64)) : Drafting Value := do
  let id ← makePad source value low high
  Drafting.list id
  pure (.result id 0)

def padLow (op : Operation) : List Int64 := (op.attrs.ints? lowAttr).getD []

def padHigh (op : Operation) : List Int64 := (op.attrs.ints? highAttr).getD []

def paddedAxesFrom (axis : Nat) : List Int64 → List Int64 → Outcome (List Nat)
  | [], _ => .ok []
  | l :: ls, high => do
    -- The upper padding is asked for only where the lower one is zero.
    let here ← if l ≠ 0 then .ok true
      else match high with
        | [] => Outcome.abort
        | h :: _ => .ok (h ≠ 0)
    let rest ← paddedAxesFrom (axis + 1) ls (high.drop 1)
    .ok (if here then axis :: rest else rest)

def paddedAxes (op : Operation) : Outcome (List Nat) := paddedAxesFrom 0 (padLow op) (padHigh op)

def cast (v : Operand) (type : ValueType) : Drafting Value := do
  let id ← Drafting.createPlain castKind [v] [type]
  pure (.result id 0)

def slice (kind : String) (v : Operand) (offsets sizes strides : Option (List Int64)) :
    Drafting Value := do
  let t ← Drafting.typeOf v
  let id ← Drafting.create kind [v] [t.withDims (sizes.getD [])]
    (Attributes.ofList
      [(offsetsAttr, .ints offsets), (sizesAttr, .ints sizes), (stridesAttr, .ints strides)]) none
  pure (.result id 0)

def extractSlice (v : Operand) (offsets sizes strides : Option (List Int64)) : Drafting Value :=
  slice extractSliceKind v offsets sizes strides

def subview (v : Operand) (offsets sizes strides : Option (List Int64)) : Drafting Value :=
  slice subviewKind v offsets sizes strides

def copy (source dest : Operand) : Drafting OpId := Drafting.createPlain copyKind [source, dest] []

def ret (vals : List Operand) : Drafting OpId := Drafting.createPlain returnKind vals []

end TileLower.Memory

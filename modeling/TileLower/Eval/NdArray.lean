import TileLower.ArrayText
import TileLower.Eval.Scalar
import TileLower.ValueType.Basic

/-!
Arrays of scalars in row-major order.
-/
namespace TileLower

structure NdArray (α : Type) where
  type : ValueType
  data : Array α
  deriving Repr

namespace NdArray

variable {α : Type}

instance : Inhabited (NdArray α) := ⟨⟨default, #[]⟩⟩

def filled (t : ValueType) (v : α) : Outcome (NdArray α) := do
  let n ← listLength t.numElements
  .ok ⟨t, Array.replicate n v⟩

def ofData (t : ValueType) (data : Array α) : Outcome (NdArray α) :=
  if ¬ t.isStatic then
    Outcome.fail ("cannot create an array of type " ++ t.render ++ ": shape is not static")
  else if t.numElements ≠ Int64.ofNat data.size then
    Outcome.fail ("cannot create an array of type " ++ t.render ++ " from " ++ toString data.size ++
      " values: want " ++ Text.showInt t.numElements ++ " values")
  else .ok ⟨t, data⟩

def iota (t : ValueType) (start step : Float) : Outcome (NdArray Float) := do
  let n ← listLength t.numElements
  .ok ⟨t, (Array.range n).map fun i => start + Float.ofNat i * step⟩

def withType (a : NdArray α) (t : ValueType) : NdArray α := { a with type := t }

def fill (a : NdArray α) (v : α) : NdArray α := { a with data := a.data.map fun _ => v }

def offsetFrom? : Int64 → List Int64 → List Int64 → Option Int64
  | off, d :: ds, x :: xs =>
    if x < 0 ∨ d ≤ x then none else offsetFrom? (off * d + x) ds xs
  | off, _, _ => some off

def offset (a : NdArray α) (idx : List Int64) : Outcome Int64 :=
  if idx.length ≠ a.type.rank then
    Outcome.fail ("index " ++ Text.showInts idx ++ " has " ++ toString idx.length ++
      " coordinates for an array of type " ++ a.type.render)
  else match offsetFrom? 0 a.type.dims idx with
    | some off => .ok off
    | none => Outcome.fail ("index " ++ Text.showInts idx ++ " out of bounds for an array of type " ++
        a.type.render)

def place (a : NdArray α) (off : Int64) : Outcome Nat :=
  if 0 ≤ off ∧ off.toNatClampNeg < a.data.size then .ok off.toNatClampNeg else Outcome.abort

def get (a : NdArray α) (idx : List Int64) : Outcome α := do
  let off ← a.offset idx
  if off < 0 then Outcome.abort else Outcome.ofOption a.data[off.toNatClampNeg]?

def set (a : NdArray α) (idx : List Int64) (v : α) : Outcome (NdArray α) := do
  let i ← a.place (← a.offset idx)
  .ok { a with data := a.data.setIfInBounds i v }

def inBounds (a : NdArray α) (idx : List Int64) : Bool :=
  idx.length == a.type.rank && (offsetFrom? 0 a.type.dims idx).isSome

def equal (a b : NdArray Float) : Bool := a.type.dims == b.type.dims && a.data == b.data

def render (a : NdArray Float) : Outcome String :=
  ArrayText.render (a.data.map (ArrayText.number ArrayText.doublePlaces)) a.type.dims
    (some a.type.element.name)

end NdArray
end TileLower

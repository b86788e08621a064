import TileLower.Text.Numeral

/-!
Types of values: scalars, indices, tensors (immutable arrays) and buffers (mutable memory), the last
two with an extent for each axis.
-/
namespace TileLower

inductive ElementType where
  | invalid | int | i1 | i32 | i64 | ui32 | ui64 | bf16 | f32 | f64
  deriving DecidableEq, Repr, Inhabited

namespace ElementType

def name : ElementType → String
  | .invalid => "invalid"
  | .int => "invalid"
  | .i1 => "i1"
  | .i32 => "i32"
  | .i64 => "i64"
  | .ui32 => "ui32"
  | .ui64 => "ui64"
  | .bf16 => "bf16"
  | .f32 => "f32"
  | .f64 => "f64"

def ofName? : String → Option ElementType
  | "i1" => some .i1
  | "i32" => some .i32
  | "i64" => some .i64
  | "ui32" => some .ui32
  | "ui64" => some .ui64
  | "bf16" => some .bf16
  | "f32" => some .f32
  | "f64" => some .f64
  | _ => none

end ElementType

inductive TypeKind where
  | invalid | scalar | index | tensor | buffer
  deriving DecidableEq, Repr, Inhabited

def TypeKind.ofName? : String → Option TypeKind
  | "invalid" => some .invalid
  | "scalar" => some .scalar
  | "index" => some .index
  | "tensor" => some .tensor
  | "memref" => some .buffer
  | _ => none

structure ValueType where
  kind : TypeKind
  element : ElementType
  dims : List Int64
  deriving DecidableEq, Repr, Inhabited

namespace ValueType

def dynamicSize : Int64 := -1

def scalar (e : ElementType) : ValueType := ⟨.scalar, e, []⟩
def index : ValueType := ⟨.index, .i64, []⟩
def tensor (e : ElementType) (dims : List Int64) : ValueType := ⟨.tensor, e, dims⟩
def buffer (e : ElementType) (dims : List Int64) : ValueType := ⟨.buffer, e, dims⟩

def isTensor (t : ValueType) : Bool := t.kind = .tensor
def isBuffer (t : ValueType) : Bool := t.kind = .buffer
def isShaped (t : ValueType) : Bool := t.isTensor || t.isBuffer

def rank (t : ValueType) : Nat := t.dims.length
def isStatic (t : ValueType) : Bool := !t.dims.contains dynamicSize

def count (dims : List Int64) : Int64 := dims.foldl (· * ·) 1

def numElements (t : ValueType) : Int64 := count t.dims

def withDims (t : ValueType) (dims : List Int64) : ValueType := { t with dims }
def withKind (t : ValueType) (kind : TypeKind) : ValueType := { t with kind }

def showDim (d : Int64) : String := if d = dynamicSize then "?x" else Text.showInt d ++ "x"

def showDims (t : ValueType) : String := String.join (t.dims.map showDim) ++ t.element.name

def render (t : ValueType) : String :=
  match t.kind with
  | .invalid => "invalid"
  | .scalar => t.element.name
  | .index => "index"
  | .tensor => "tensor<" ++ t.showDims ++ ">"
  | .buffer => "memref<" ++ t.showDims ++ ">"

end ValueType
end TileLower

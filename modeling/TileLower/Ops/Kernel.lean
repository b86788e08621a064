import TileLower.Graph.Draft

/-!
Calls of a kernel library: a dispatch asks for a kernel by its sizes and gives a handle, an
invocation runs the kernel behind a handle on buffers.
-/
namespace TileLower.Kernel

def unaryDispatchKind := "xsmm.unary.dispatch"
def binaryDispatchKind := "xsmm.binary.dispatch"
def ternaryDispatchKind := "xsmm.ternary.dispatch"
def unaryKind := "xsmm.unary"
def binaryKind := "xsmm.binary"
def ternaryKind := "xsmm.ternary"

def dialect := "xsmm"

def kindAttr := "kind"
def inputsAttr := "inputs"
def flagsAttr := "flags"
def dataTypeAttr := "data_type"
def batchAttr := "batch"

def dataTypeOf (t : ValueType) : Outcome String :=
  match t.element with
  | .f32 => .ok "F32"
  | .bf16 => .ok "BF16"
  | e => Outcome.fail ("element type " ++ e.name ++ " of " ++ t.render ++ " not supported by kernels")

def dispatch (kind function : String) (inputs : Option (List Int64)) (flags dataType : String) :
    Drafting Value := do
  let id ← Drafting.create kind [] [.scalar .i64]
    (Attributes.ofList
      [(kindAttr, .text function), (inputsAttr, .ints inputs), (flagsAttr, .text flags),
       (dataTypeAttr, .text dataType)]) none
  pure (.result id 0)

def makeInvoke (kind function : String) (handle : Operand) (buffers : List Operand)
    (batch : Option Int64) : Drafting OpId :=
  let attrs := Attributes.ofList [(kindAttr, .text function)]
  let attrs := match batch with
    | some n => attrs.store batchAttr (.int n)
    | none => attrs
  Drafting.make kind (handle :: buffers) [] attrs none

def isDispatch (op : Operation) : Bool :=
  op.kind == unaryDispatchKind || op.kind == binaryDispatchKind || op.kind == ternaryDispatchKind

def function (op : Operation) : String := (op.attrs.text? kindAttr).getD ""
def inputs (op : Operation) : List Int64 := (op.attrs.ints? inputsAttr).getD []
def flags (op : Operation) : String := (op.attrs.text? flagsAttr).getD ""
def dataType (op : Operation) : String := (op.attrs.text? dataTypeAttr).getD ""

end TileLower.Kernel

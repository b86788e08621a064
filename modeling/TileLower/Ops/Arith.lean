import TileLower.Graph.Draft

/-!
Scalar arithmetic: constants, the four binary operations and casts.
-/
namespace TileLower.Arith

def constantKind := "arith.constant"
def addFloatKind := "arith.addf"
def addIntKind := "arith.addi"
def mulFloatKind := "arith.mulf"
def mulIntKind := "arith.muli"
def subKind := "arith.subf"
def maxKind := "arith.maxf"
def truncKind := "arith.truncf"
def extendKind := "arith.extf"
def intToFloatKind := "arith.sitofp"

def valueAttr := "value"

def isAdd (kind : String) : Bool := kind == addFloatKind || kind == addIntKind
def isMul (kind : String) : Bool := kind == mulFloatKind || kind == mulIntKind
def isCast (kind : String) : Bool :=
  kind == truncKind || kind == extendKind || kind == intToFloatKind

def constant (value : Float) (type : ValueType) : Drafting OpId :=
  Drafting.create constantKind [] [type] (Attributes.ofList [(valueAttr, .float value)]) none

def constantValue? (op : Operation) : Option Float :=
  if op.kind = constantKind then op.attrs.float? valueAttr else none

def isZeroConstant (g : Graph) (v : Operand) : Outcome Bool := do
  match ← Graph.definingOp v with
  | none => .ok false
  | some id =>
    match constantValue? (g.op id) with
    | some x => .ok (x == 0)
    | none => .ok false

def isInteger : ElementType → Bool
  | .i32 | .i64 | .ui32 | .ui64 => true
  | _ => false

def binary (kind : String) (x y : Operand) : Drafting Value := do
  let t ← Drafting.typeOf x
  let id ← Drafting.createPlain kind [x, y] [t]
  pure (.result id 0)

def add (x y : Operand) : Drafting Value := do
  let t ← Drafting.typeOf x
  binary (if isInteger t.element then addIntKind else addFloatKind) x y

def mul (x y : Operand) : Drafting Value := do
  let t ← Drafting.typeOf x
  binary (if isInteger t.element then mulIntKind else mulFloatKind) x y

def sub (x y : Operand) : Drafting Value := binary subKind x y

def max (x y : Operand) : Drafting Value := binary maxKind x y

def cast (kind : String) (x : Operand) (type : ValueType) : Drafting Value := do
  let id ← Drafting.createPlain kind [x] [type]
  pure (.result id 0)

end TileLower.Arith

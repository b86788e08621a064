import TileLower.Ops.Arith
import TileLower.Storage

/-!
Structured operations: loop nests given by indexing maps and iterators, whose region computes one
output element from elements of the operands. Inputs come before outputs among the operands; an
output that is a tensor has a result, an output that is a buffer is written in place.
-/
namespace TileLower.Structured

def matmulKind := "linalg.matmul"
def batchReduceMatmulKind := "linalg.batch_reduce_matmul"
def genericKind := "linalg.generic"
def fillKind := "linalg.fill"
def copyKind := "linalg.copy"
def convNchwFchwKind := "linalg.conv_2d_nchw_fchw"
def convNhwcHwcfKind := "linalg.conv_2d_nhwc_hwcf"
def yieldKind := "linalg.yield"

def numInputsAttr := "num_inputs"
def indexingMapsAttr := "indexing_maps"
def iteratorTypesAttr := "iterator_types"
def libraryCallAttr := "library_call"
def stridesAttr := "strides"
def dilationsAttr := "dilations"

def kinds : List String :=
  [matmulKind, batchReduceMatmulKind, genericKind, fillKind, copyKind, convNchwFchwKind,
    convNhwcHwcfKind]

def isStructured (op : Operation) : Bool := kinds.contains op.kind

def numInputs (op : Operation) : Int64 := (op.attrs.int? numInputsAttr).getD 0

def countWithin (op : Operation) (room : Nat) : Outcome Nat :=
  let n := numInputs op
  if 0 ≤ n ∧ n ≤ Int64.ofNat room then .ok n.toNatClampNeg else Outcome.abort

def inputCount (op : Operation) : Outcome Nat := countWithin op op.operands.length

/-- The operands before the outputs. There may be more inputs than operands as long as there are
places for them; those past the last operand are empty. -/
def inputs (op : Operation) : Outcome (List Operand) := do
  let n ← countWithin op (Storage.places op.operands.length)
  .ok (op.operands.take n ++ List.replicate (n - op.operands.length) none)

def outputs (op : Operation) : Outcome (List Operand) := do
  .ok (op.operands.drop (← inputCount op))

def allTypes (g : Graph) (ok : ValueType → Bool) : List Operand → Outcome Bool
  | [] => .ok true
  | v :: vs => do
    let t ← g.operandType v
    if ok t then allTypes g ok vs else .ok false

def hasTensorSemantics (g : Graph) (op : Operation) : Outcome Bool :=
  allTypes g (fun t => !t.isBuffer) op.operands

def hasBufferSemantics (g : Graph) (op : Operation) : Outcome Bool :=
  allTypes g (fun t => !t.isTensor) op.operands

def hasStaticShape (g : Graph) (op : Operation) : Outcome Bool :=
  allTypes g (fun t => !t.isShaped || t.isStatic) op.operands

def elementOf (t : ValueType) : ValueType := if t.isShaped then .scalar t.element else t

def make (kind : String) (ins outs : List Operand) (attrs : Attributes) (region : Option BlockId) :
    Drafting OpId := do
  let outTypes ← Drafting.typesOf outs
  let attrs := attrs.store numInputsAttr (.int (Int64.ofNat ins.length))
  Drafting.make kind (ins ++ outs) (outTypes.filter ValueType.isTensor) attrs region

abbrev Body := List Value → Drafting (List Operand)

def yield (vals : List Operand) : Drafting OpId := Drafting.createPlain yieldKind vals []

def openBody (ins outs : List Operand) : Drafting BlockId := do
  let types ← Drafting.typesOf (ins ++ outs)
  Drafting.newBlock (types.map elementOf)

def newBody (ins outs : List Operand) (body : Body) : Drafting BlockId := do
  let b ← openBody ins outs
  Drafting.inBlock b do
    let yielded ← body ((← Drafting.graph).argumentsOf b)
    let _ ← yield yielded
    pure b

def mulAdd : Body := fun args => do
  let a : Value ← Drafting.require args[0]?
  let b : Value ← Drafting.require args[1]?
  let m ← Arith.mul a b
  let c : Value ← Drafting.require args[2]?
  let s ← Arith.add c m
  pure [some s]

def contraction (kind : String) (attrs : Attributes) (a b c : Operand) : Drafting OpId := do
  let region ← newBody [a, b] [c] mulAdd
  let id ← make kind [a, b] [c] attrs (some region)
  Drafting.list id
  pure id

def matmul (a b c : Operand) : Drafting OpId := contraction matmulKind OrderedMap.empty a b c

def batchReduceMatmul (a b c : Operand) : Drafting OpId :=
  contraction batchReduceMatmulKind OrderedMap.empty a b c

def fill (value out : Operand) : Drafting OpId := do
  let id ← make fillKind [value] [out] OrderedMap.empty none
  Drafting.list id
  pure id

def copy (source out : Operand) : Drafting OpId := do
  let id ← make copyKind [source] [out] OrderedMap.empty none
  Drafting.list id
  pure id

def convAttrs (strides dilations : Option (List Int64)) : Attributes :=
  Attributes.ofList
    [(stridesAttr, .ints (some (strides.getD [1, 1]))),
     (dilationsAttr, .ints (some (dilations.getD [1, 1])))]

def convNchwFchw (image filter out : Operand) (strides dilations : Option (List Int64)) :
    Drafting OpId :=
  contraction convNchwFchwKind (convAttrs strides dilations) image filter out

def convNhwcHwcf (image filter out : Operand) (strides dilations : Option (List Int64)) :
    Drafting OpId :=
  contraction convNhwcHwcfKind (convAttrs strides dilations) image filter out

def strides (op : Operation) : List Int64 := (op.attrs.ints? stridesAttr).getD [1, 1]

def dilations (op : Operation) : List Int64 := (op.attrs.ints? dilationsAttr).getD [1, 1]

def matmulMaps : List AffineMap :=
  [⟨3, [.dim 0, .dim 2]⟩, ⟨3, [.dim 2, .dim 1]⟩, ⟨3, [.dim 0, .dim 1]⟩]

def matmulIterators : List Iterator := [.parallel, .parallel, .reduction]

def genericAttrs (maps : List AffineMap) (iterators : List Iterator) (libraryCall : String) :
    Attributes :=
  let attrs := Attributes.ofList
    [(indexingMapsAttr, .maps maps), (iteratorTypesAttr, .iterators iterators)]
  if libraryCall = "" then attrs else attrs.store libraryCallAttr (.text libraryCall)

def makeGeneric (ins outs : List Operand) (maps : List AffineMap) (iterators : List Iterator)
    (libraryCall : String) (region : Option BlockId) : Drafting OpId :=
  make genericKind ins outs (genericAttrs maps iterators libraryCall) region

def generic (ins outs : List Operand) (maps : List AffineMap) (iterators : List Iterator)
    (libraryCall : String) (body : Body) : Drafting OpId := do
  let region ← newBody ins outs body
  let id ← makeGeneric ins outs maps iterators libraryCall (some region)
  Drafting.list id
  pure id

def elementwiseMaps (ins : List Operand) (out : Operand) : Drafting (List AffineMap × Nat) := do
  let rank := (← Drafting.typeOf out).rank
  let types ← Drafting.typesOf (ins ++ [out])
  pure (types.map fun t => AffineMap.minorOf rank t.rank, rank)

def elementwise (ins : List Operand) (out : Operand) (libraryCall : String) (body : Body) :
    Drafting OpId := do
  let (maps, rank) ← elementwiseMaps ins out
  generic ins [out] maps (List.replicate rank .parallel) libraryCall body

def indexingMaps (op : Operation) : List AffineMap := (op.attrs.maps? indexingMapsAttr).getD []

def iteratorTypes (op : Operation) : List Iterator :=
  (op.attrs.iterators? iteratorTypesAttr).getD []

def numLoops (op : Operation) : Nat := (iteratorTypes op).length

def numParallelLoops (op : Operation) : Nat := ((iteratorTypes op).filter (· = .parallel)).length

def isParallel (op : Operation) : Bool := (iteratorTypes op).all (· = .parallel)

def libraryCall (op : Operation) : String := (op.attrs.text? libraryCallAttr).getD ""

end TileLower.Structured

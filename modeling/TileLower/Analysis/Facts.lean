import TileLower.Analysis.Body
import TileLower.Ops.Kernel
import TileLower.Ops.Relayout

/-!
Named facts about an operation: each predicate that rules ask, under the name by which it is shown.
-/
namespace TileLower.Facts

def table (g : Graph) (id : OpId) : List (String × Outcome Bool) :=
  let op := g.op id
  [("has_matmul_body", Body.hasMatmulBody g op), ("has_matmul_maps", Body.hasMatmulMaps op),
   ("has_static_shape", Structured.hasStaticShape g op),
   ("has_tpp_mark", .ok (Body.hasPrimitiveMark op)),
   ("marked_matmul", .ok (Body.isMarkedWith op Primitive.matmulKind)),
   ("marked_relu", .ok (Body.isMarkedWith op Primitive.reluKind)),
   ("is_elementwise", Body.isElementwise op), ("has_copy_semantics", Body.hasCopySemantics g op),
   ("has_max_with_zero", Body.hasMaxWithZero g id),
   ("is_structured", .ok (Structured.isStructured op)),
   ("has_tensor_semantics", Structured.hasTensorSemantics g op),
   ("has_buffer_semantics", Structured.hasBufferSemantics g op),
   ("is_add", .ok (Arith.isAdd op.kind)), ("is_mul", .ok (Arith.isMul op.kind)),
   ("is_cast", .ok (Arith.isCast op.kind)), ("is_primitive", .ok (Primitive.isPrimitive op)),
   ("is_dispatch", .ok (Kernel.isDispatch op)), ("is_pack", .ok (Relayout.isPack op)),
   ("is_unpack", .ok (Relayout.isUnpack op))]

def isTrue : Outcome Bool → Bool
  | .ok b => b
  | .error _ => false

def isFault : Outcome Bool → Bool
  | .ok _ => false
  | .error _ => true

def holding (g : Graph) (id : OpId) : List String :=
  ((table g id).filter fun f => isTrue f.2).map Prod.fst

def undecided (g : Graph) (id : OpId) : List String :=
  ((table g id).filter fun f => isFault f.2).map Prod.fst

end TileLower.Facts

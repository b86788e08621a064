import TileLower.Layout
import TileLower.Ops.Memory

/-!
Packing into a blocked layout and unpacking from it.
-/
namespace TileLower.Relayout

def packKind := "linalgx.pack"
def unpackKind := "linalgx.unpack"

def innerDimsPosAttr := "inner_dims_pos"
def outerDimsPermAttr := "outer_dims_perm"
def innerTilesAttr := "inner_tiles"

def isPack (op : Operation) : Bool := op.kind == packKind
def isUnpack (op : Operation) : Bool := op.kind == unpackKind

def layoutAttrs (inner outer tiles : Option (List Int64)) : Attributes :=
  let attrs := Attributes.ofList [(innerDimsPosAttr, .ints inner)]
  let attrs := if (outer.getD []).isEmpty then attrs else attrs.store outerDimsPermAttr (.ints outer)
  attrs.store innerTilesAttr (.ints tiles)

def make (kind : String) (source dest : Operand) (inner outer tiles : Option (List Int64)) :
    Drafting OpId := do
  let t ← Drafting.typeOf dest
  Drafting.make kind [source, dest] (if t.isTensor then [t] else [])
    (layoutAttrs inner outer tiles) none

def layoutOf (op : Operation) : Layout :=
  ⟨(op.attrs.ints? innerDimsPosAttr).getD [], (op.attrs.ints? outerDimsPermAttr).getD [],
    (op.attrs.ints? innerTilesAttr).getD []⟩

structure Blanks where
  inner : Bool
  tiles : Bool
  deriving DecidableEq, Repr

namespace Blanks

def kept : Blanks := ⟨false, false⟩

def dropped : Blanks := ⟨true, true⟩

def ofOp (op : Operation) : Blanks :=
  ⟨(op.attrs.given? innerDimsPosAttr).isNone, (op.attrs.given? innerTilesAttr).isNone⟩

def write (isDropped : Bool) (xs : List Int64) : Option (List Int64) :=
  if isDropped && xs.isEmpty then none else some xs

end Blanks

def destination (t : ValueType) : Drafting Value :=
  if t.isTensor then Memory.empty t else Memory.alloc t

def emit (kind : String) (source dest : Operand) (d : Layout) (b : Blanks) : Drafting Operand := do
  let id ← make kind source dest (Blanks.write b.inner d.inner) (some d.outer)
    (Blanks.write b.tiles d.tiles)
  Drafting.list id
  if (← Drafting.graph).op id |>.results.isEmpty then pure dest else pure (some (.result id 0))

def doesNotDivide {α : Type} (d : Layout) (t : ValueType) : Outcome α :=
  Outcome.fail ("layout " ++ d.render ++ " does not divide " ++ t.render)

def packedTypeOf (d : Layout) (t : ValueType) : Outcome ValueType := do
  if ¬ t.isShaped then Outcome.fail ("cannot pack a value of type " ++ t.render)
  if ← d.divides t.dims then d.packedType t else doesNotDivide d t

def pack (v : Operand) (d : Layout) (b : Blanks) : Drafting Operand := do
  let t ← Drafting.typeOf v
  let packed ← Drafting.lift (packedTypeOf d t)
  let dest ← destination packed
  emit packKind v dest d b

def unpack (blocked dest : Operand) (d : Layout) (b : Blanks) : Drafting Operand := do
  let destType ← Drafting.typeOf dest
  if ← Drafting.lift (d.divides destType.dims) then
    let want ← Drafting.lift (d.packedShape destType.dims)
    let blockedType ← Drafting.typeOf blocked
    if blockedType.dims ≠ want then
      Drafting.fail ("cannot unpack " ++ blockedType.render ++ " into " ++ destType.render ++
        ": want blocked shape " ++ Text.showInts want)
    emit unpackKind blocked dest d b
  else Drafting.lift (doesNotDivide d destType)

end TileLower.Relayout

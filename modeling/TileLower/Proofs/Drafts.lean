import TileLower.Proofs.Histories
import TileLower.Proofs.Outcomes
import TileLower.Ops.Relayout
import TileLower.Rule.Basic

/-!
What the makers of operations do to a draft. Operations without a region are pushed to the end of the table,
so the values that were there keep their meaning.
-/
namespace TileLower

open OrderedMap

def Value.Below (n : Nat) : Value → Prop
  | .result id _ => id < n
  | .argument .. => True

theorem Value.Below.mono {m n} {v : Value} (below : v.Below m) (le : m ≤ n) : v.Below n := by
  cases v with
  | result id i => exact below.trans_le le
  | argument b i => trivial

theorem Graph.resultTypes (g : Graph) (id : OpId) : (g.resultsOf id).map g.typeOf = (g.op id).results.map Slot.type := by
  refine List.ext_getElem (by simp [resultsOf]) fun i lt _ => ?_
  have inside : i < (g.op id).results.length := by simpa [resultsOf] using lt
  simp [resultsOf,typeOf,slot,inside]

namespace Graph

def push (g : Graph) (op : Operation) : Graph := { g with ops := g.ops.push op }

variable (g : Graph) (o : Operation)

@[simp] theorem pushSize : (g.push o).ops.size = g.ops.size + 1 := by simp [push]

@[simp] theorem pushBlocks : (g.push o).blocks = g.blocks := rfl

@[simp] theorem pushBlock (b : BlockId) : (g.push o).block b = g.block b := rfl

@[simp] theorem pushNew : (g.push o).op g.ops.size = o := by simp [push,op,Array.getD]

theorem pushOp {id} (old : id < g.ops.size) : (g.push o).op id = g.op id := by
  simp [push,op,Array.getD,old,Nat.lt_succ_of_lt old,Array.getElem_push]

theorem pushType {v : Value} (old : v.Below g.ops.size) : (g.push o).typeOf v = g.typeOf v := by
  cases v with
  | result id i => simp only [typeOf,slot,g.pushOp o old]
  | argument b i => rfl

end Graph

namespace Draft

def push (d : Draft) (op : Operation) : Draft :=
  { d with graph := d.graph.push op, created := d.created ++ [d.graph.ops.size] }

variable (d : Draft) (o : Operation)

@[simp] theorem pushGraph : (d.push o).graph = d.graph.push o := rfl

@[simp] theorem pushCreated : (d.push o).created = d.created ++ [d.graph.ops.size] := rfl

@[simp] theorem pushMoves : (d.push o).moves = d.moves := rfl

@[simp] theorem pushReplacements : (d.push o).replacements = d.replacements := rfl

@[simp] theorem pushErased : (d.push o).erased = d.erased := rfl

end Draft

namespace Drafting

variable {d : Draft}

@[simp] theorem graphRun : graph d = .ok d.graph d := rfl

@[simp] theorem typeOfRun (v : Value) : typeOf (some v) d = .ok (d.graph.typeOf v) d := rfl

theorem typeOfOk {v t e} : typeOf v d = .ok t e ↔ (∃ w, v = some w ∧ d.graph.typeOf w = t) ∧ d = e := by
  cases v with
  | none => simp [typeOf]
  | some w => simp

end Drafting

namespace Memory

variable {d : Draft}

def emptyOp (t : ValueType) : Operation :=
  ⟨emptyKind,[],[.ofType (t.withKind .tensor)],OrderedMap.empty,none,none⟩

def allocOp (t : ValueType) : Operation :=
  ⟨allocKind,[],[.ofType (t.withKind .buffer)],OrderedMap.empty,none,none⟩

theorem emptyRun (t : ValueType) : empty t d = .ok (.result d.graph.ops.size 0) (d.push (emptyOp t)) := rfl

theorem allocRun (t : ValueType) : alloc t d = .ok (.result d.graph.ops.size 0) (d.push (allocOp t)) := rfl

end Memory

namespace Relayout

variable {d : Draft}

def convertOp (kind : String) (source dest : Operand) (t : ValueType) (l : Layout) (b : Blanks) : Operation :=
  ⟨kind,[source, dest],if t.isTensor then [.ofType t] else [],
    layoutAttrs (Blanks.write b.inner l.inner) (some l.outer) (Blanks.write b.tiles l.tiles),none,none⟩

@[simp] theorem writeGet (dropped : Bool) (xs : List Int64) : (Blanks.write dropped xs).getD [] = xs := by
  cases dropped <;> cases xs <;> rfl

theorem layoutOfAttrs {op : Operation} {l : Layout} {b : Blanks}
    (attrs : op.attrs = layoutAttrs (Blanks.write b.inner l.inner) (some l.outer) (Blanks.write b.tiles l.tiles)) :
    layoutOf op = l := by
  cases l with
  | mk inner outer tiles =>
    rw [layoutOf,attrs]
    cases outer <;>
      simp [layoutAttrs,Attributes.ofList,loadStore,loadEmpty,Attributes.ints?,innerDimsPosAttr,outerDimsPermAttr,
        innerTilesAttr]

theorem emitRun (kind : String) (source : Operand) (w : Value) (l : Layout) (b : Blanks) :
    emit kind source (some w) l b d =
      .ok (some (if (d.graph.typeOf w).isTensor then .result d.graph.ops.size 0 else w))
        (d.push (convertOp kind source (some w) (d.graph.typeOf w) l b)) := by
  let o := convertOp kind source (some w) (d.graph.typeOf w) l b
  have results : ((if (d.graph.typeOf w).isTensor then [d.graph.typeOf w] else []).map Slot.ofType) = o.results := by
    simp only [o,convertOp]
    split <;> rfl
  have made : make kind source (some w) (Blanks.write b.inner l.inner) (some l.outer) (Blanks.write b.tiles l.tiles) d =
      .ok d.graph.ops.size { d with graph := d.graph.push o } := by
    rw [show o = ⟨kind,[source, some w],o.results,o.attrs,none,none⟩ from rfl,← results]
    rfl
  have listed : Drafting.list d.graph.ops.size { d with graph := d.graph.push o } = .ok () (d.push o) := rfl
  rw [emit,Step.bindOfOk made,Step.bindOfOk listed,Step.bindOfOk Drafting.graphRun]
  simp only [Draft.pushGraph,Graph.pushNew,← results]
  cases (d.graph.typeOf w).isTensor <;> rfl

end Relayout

end TileLower

import TileLower.Proofs.Drafts
import TileLower.Proofs.Scopes
import TileLower.Rule.Commit

/-!
What is left of a function after a draft is committed that replaces one operation by new ones: the new
operations stand where the old one stood, and its results are replaced wherever they are used.
-/
namespace TileLower

open List

namespace Graph

def pushAll (g : Graph) (ops : List Operation) : Graph := { g with ops := g.ops ++ ops.toArray }

section PushAll

variable (g : Graph) (ops : List Operation)

@[simp] theorem pushAllNil : g.pushAll [] = g := by simp [pushAll]

theorem pushAllPush (o : Operation) : (g.pushAll ops).push o = g.pushAll (ops ++ [o]) := by
  simp only [pushAll,push]
  congr 1
  exact Array.toList_inj.mp (by simp)

@[simp] theorem pushAllSize : (g.pushAll ops).ops.size = g.ops.size + ops.length := by simp [pushAll]

@[simp] theorem pushAllBlocks : (g.pushAll ops).blocks = g.blocks := rfl

@[simp] theorem pushAllBlock (b : BlockId) : (g.pushAll ops).block b = g.block b := rfl

theorem pushAllOld {id} (old : id < g.ops.size) : (g.pushAll ops).op id = g.op id := by
  simp only [op,pushAll,Array.getD_eq_getD_getElem?,Array.getElem?_append_left old]

theorem pushAllNew {m o} (at_ : ops[m]? = some o) : (g.pushAll ops).op (g.ops.size + m) = o := by
  obtain ⟨within,rfl⟩ := List.getElem?_eq_some_iff.mp at_
  simp [pushAll,op,Array.getD,within]

theorem pushAllType {v : Value} (old : v.Below g.ops.size) : (g.pushAll ops).typeOf v = g.typeOf v := by
  cases v with
  | result id i => simp only [typeOf,slot,g.pushAllOld ops old]
  | argument b i => rfl

theorem pushAllResultType {m} {o : Operation} (at_ : ops[m]? = some o) (i : Nat) :
    (g.pushAll ops).typeOf (.result (g.ops.size + m) i) = (o.results.getD i default).type := by
  simp only [typeOf,slot,g.pushAllNew ops at_]

end PushAll

end Graph

namespace Draft

def staged (g : Graph) (ops : List Operation) : Draft :=
  { Draft.ofGraph g with graph := g.pushAll ops, created := range' g.ops.size ops.length }

variable (g : Graph) (ops : List Operation)

theorem stagedNil : staged g [] = Draft.ofGraph g := by simp [staged,Draft.ofGraph]

theorem stagedPush (o : Operation) : (staged g ops).push o = staged g (ops ++ [o]) := by
  have created : range' g.ops.size ops.length ++ [(g.pushAll ops).ops.size] =
      range' g.ops.size (ops ++ [o]).length := by
    rw [g.pushAllSize,length_append,length_singleton,range'_concat]
    simp
  simp only [staged,push,g.pushAllPush,created]

theorem stagedList (o : Operation) : Drafting.list (g.ops.size + ops.length)
    { staged g ops with graph := (g.pushAll ops).push o } = .ok () (staged g (ops ++ [o])) := by
  have pushed := stagedPush g ops o
  rw [push,show (staged g ops).graph.ops.size = _ from g.pushAllSize ops] at pushed
  rw [← pushed]
  rfl

end Draft

def renameFrom (id : OpId) (k : Nat) (vs : List Value) : Value → Value
  | .result j i => if j = id ∧ k ≤ i then vs.getD (i - k) (.result j i) else .result j i
  | .argument b i => .argument b i

theorem renameFromOther {id w} (other : ∀ i, w ≠ .result id i) (k : Nat) (vs : List Value) :
    renameFrom id k vs w = w := by
  cases w with
  | result j i =>
    have apart : j ≠ id := fun same => other i (same ▸ rfl)
    rw [renameFrom,if_neg fun h => apart h.1]
  | argument b i => rfl

theorem renameFromNil (id : OpId) (k : Nat) (w : Value) : renameFrom id k [] w = w := by
  cases w with
  | result j i => simp [renameFrom]
  | argument b i => rfl

theorem renameFromCons {id v} (apart : ∀ i, v ≠ .result id i) (k : Nat) (vs : List Value) (w : Value) :
    renameFrom id (k + 1) vs (if w = .result id k then v else w) = renameFrom id k (v :: vs) w := by
  by_cases here : w = .result id k
  · subst here
    rw [if_pos rfl,renameFromOther apart]
    simp [renameFrom]
  · rw [if_neg here]
    cases w with
    | argument b i => rfl
    | result j i =>
      by_cases later : j = id ∧ k ≤ i
      · obtain ⟨rfl,le⟩ := later
        have above : k + 1 ≤ i := Nat.lt_of_le_of_ne le fun same => here (same ▸ rfl)
        obtain ⟨m,rfl⟩ := Nat.exists_eq_add_of_le above
        have outer : k + 1 + m - k = m + 1 := by omega
        simp [renameFrom,le,outer]
      · have notLater : ¬ (j = id ∧ k + 1 ≤ i) := fun h => later ⟨h.1,Nat.le_of_succ_le h.2⟩
        rw [renameFrom,renameFrom,if_neg later,if_neg notLater]

namespace Draft

open TileLower.Graph

variable (g : Graph) (id : OpId) (k : Nat) (vs : List Value)

theorem replaceResultsBlocks : (replaceResults g id k (vs.map some)).blocks = g.blocks := by
  induction vs generalizing g k with
  | nil => rfl
  | cons v vs ih => rw [map_cons,replaceResults,ih,replaceUsesBlocks]

theorem replaceResultsSize : (replaceResults g id k (vs.map some)).ops.size = g.ops.size := by
  induction vs generalizing g k with
  | nil => rfl
  | cons v vs ih => rw [map_cons,replaceResults,ih,replaceUsesSize]

theorem replaceResultsName : (replaceResults g id k (vs.map some)).name = g.name := by
  induction vs generalizing g k with
  | nil => rfl
  | cons v vs ih => rw [map_cons,replaceResults,ih,replaceUsesName]

/- Whatever takes the place of the results, an operation keeps all but its operands. -/
theorem replaceResultsFrame (vs : List Operand) (j : OpId) :
    ∃ operands, (replaceResults g id k vs).op j = { g.op j with operands } := by
  induction vs generalizing g k with
  | nil => exact ⟨_,rfl⟩
  | cons v vs ih =>
    obtain ⟨operands,same⟩ := ih (g.replaceUses (some (.result id k)) v) (k + 1)
    refine ⟨operands,?_⟩
    rw [replaceResults,same,replaceUsesOp]
    split <;> rfl

theorem replaceResultsUnused (vs : List Operand) {j} (unused : ∀ i, some (.result id i) ∉ (g.op j).operands) :
    (replaceResults g id k vs).op j = g.op j := by
  induction vs generalizing g k with
  | nil => rfl
  | cons v vs ih =>
    have same : (g.replaceUses (some (.result id k)) v).op j = g.op j := by
      rw [replaceUsesOp,substituteOperands]
      have kept : ((g.op j).operands.map fun u => if u = some (.result id k) then v else u) = (g.op j).operands := by
        conv_rhs => rw [← map_id (g.op j).operands]
        refine map_congr_left fun u mem => ?_
        have other : u ≠ some (.result id k) := fun same => unused k (same ▸ mem)
        exact if_neg other
      split
      · rw [kept]
      · rfl
    rw [replaceResults,ih _ _ (by rwa [same]),same]

theorem replaceResultsOp (apart : ∀ v ∈ vs, ∀ i, v ≠ .result id i) (j : OpId) :
    (replaceResults g id k (vs.map some)).op j = if j ∈ g.walkAll then
      { g.op j with operands := (g.op j).operands.map (Option.map (renameFrom id k vs)) } else g.op j := by
  induction vs generalizing g k with
  | nil =>
    have same : Option.map (renameFrom id k []) = (fun v => v) := by
      funext v
      cases v with
      | none => rfl
      | some w => exact congrArg some (renameFromNil id k w)
    simp [replaceResults,same]
  | cons v vs ih =>
    have walked : (g.replaceUses (some (.result id k)) (some v)).walkAll = g.walkAll := by
      refine walkAllCongr (fun b => by rw [replaceUsesBlock]) (fun i => ?_) (by rw [replaceUsesBlocks])
      rw [replaceUsesOp]
      split <;> rfl
    rw [map_cons,replaceResults,ih _ _ fun w mem => apart w (.tail _ mem),walked,replaceUsesOp]
    by_cases mem : j ∈ g.walkAll
    · have step (w : Option Value) : Option.map (renameFrom id (k + 1) vs)
          (if w = some (.result id k) then some v else w) = w.map (renameFrom id k (v :: vs)) := by
        cases w with
        | none => rfl
        | some w =>
          rw [Option.map_some,← renameFromCons (apart v (.head _))]
          by_cases here : w = .result id k
          · simp [here]
          · simp [here]
      simp only [if_pos mem,substituteOperands,map_map]
      congr 2
      funext w
      exact step w
    · simp only [if_neg mem]

end Draft

structure Replaced (g g' : Graph) (id : OpId) (b : BlockId) (created : List OpId) (vals : List Value) : Prop where
  name : g'.name = g.name
  args : ∀ c, c < g.blocks.size → (g'.block c).args = (g.block c).args
  here : ∀ pre post, (g.block b).ops = pre ++ id :: post → id ∉ pre → (g'.block b).ops = pre ++ (created ++ post)
  other : ∀ c, c < g.blocks.size → c ≠ b → (g'.block c).ops = (g.block c).ops
  results : ∀ j, j < g.ops.size → (g'.op j).results = (g.op j).results
  old : ∀ c scope j, g.At c scope j → j ≠ id →
    g'.op j = { g.op j with operands := (g.op j).operands.map (Option.map (renameFrom id 0 vals)) }
  types : ∀ i v, vals[i]? = some v → g'.typeOf v = g.typeOf (.result id i)

end TileLower

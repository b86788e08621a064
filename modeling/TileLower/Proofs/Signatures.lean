import TileLower.Proofs.Checks
import TileLower.Proofs.Words

/-!
Operations as they are made. A kind tells how many operands and results an operation has, what is written has a result
if it is a tensor, and a body has an argument for each operand.
-/
namespace TileLower

open Structured Arith

def signature? (kind : String) : Option (Nat × Nat) :=
  if kind ∈ [constantKind, Memory.emptyKind, Memory.allocKind] then some (0, 1)
  else if kind ∈ [addFloatKind, addIntKind, mulFloatKind, mulIntKind, subKind,
    maxKind, Memory.padKind] then some (2, 1)
  else if kind ∈ [truncKind, extendKind, intToFloatKind, Memory.castKind, Memory.extractSliceKind,
    Memory.subviewKind] then some (1, 1)
  else if kind = Memory.copyKind then some (2, 0)
  else none

def namedInputs? (kind : String) : Option Nat :=
  if kind ∈ [fillKind, copyKind] then some 1
  else if kind ∈ [matmulKind, batchReduceMatmulKind, convNchwFchwKind,
    convNhwcHwcfKind] then some 2
  else none

namespace Graph

def tensorTypes (g : Graph) (vs : List Operand) : List ValueType :=
  (vs.filterMap fun v => v.map g.typeOf).filter ValueType.isTensor

@[mk_iff]
structure Built (g : Graph) (id : OpId) : Prop where
  room : (g.op id).operands.length ≤ lengthLimit.toNatClampNeg
  counts : ∀ c ∈ signature? (g.op id).kind, (g.op id).operands.length = c.1 ∧ (g.op id).results.length = c.2
  split : isStructured (g.op id) = true → 0 ≤ numInputs (g.op id) ∧
    (numInputs (g.op id)).toNatClampNeg ≤ (g.op id).operands.length ∧ (g.op id).results.map Slot.type =
      g.tensorTypes ((g.op id).operands.drop (numInputs (g.op id)).toNatClampNeg)
  named : ∀ n ∈ namedInputs? (g.op id).kind,
    (g.op id).operands.length = n + 1 ∧ numInputs (g.op id) = Int64.ofNat n
  converted : (g.op id).kind = Relayout.packKind ∨ (g.op id).kind = Relayout.unpackKind →
    (g.op id).operands.length = 2 ∧ (g.op id).results.map Slot.type = g.tensorTypes ((g.op id).operands.drop 1)
  primitive : Primitive.isPrimitive (g.op id) = true → (g.op id).operands ≠ [] ∧
    (g.op id).results.map Slot.type = g.tensorTypes ((g.op id).operands.drop ((g.op id).operands.length - 1))
  body : ∀ b ∈ (g.op id).region, (g.block b).args.length = (g.op id).operands.length

instance (g : Graph) (id : OpId) : Decidable (g.Built id) := decidable_of_iff' _ (built_iff g id)

end Graph

theorem Storage.placesBounds (n : Nat) : n ≤ places n ∧ places n ≤ n + 4096 := by
  have bounds (size : Nat) : size ≤ roomFor size ∧ roomFor size ≤ size + 32768 := by
    unfold roomFor
    dsimp only
    generalize (if size ≤ headerLimit then 0 else wordSize) = header
    split
    · omega
    · split
      · rename_i block found
        have fits : size + header ≤ block := by simpa using List.find?_some found
        have small : ∀ b ∈ blockSizes, b ≤ 32768 := by decide
        have := small block (List.mem_of_find?_eq_some found)
        omega
      · simp only [pageSize]
        omega
  have := bounds (wordSize * n)
  simp only [places,wordSize] at this ⊢
  omega

namespace Graph.Built

variable {g : Graph} {id : OpId}

theorem short (built : g.Built id) : (g.op id).operands.length + 4096 < wordBound := by
  have room := built.room
  have limit : lengthLimit.toNatClampNeg + 4096 < wordBound := by decide
  omega

theorem few (built : g.Built id) : (g.op id).operands.length < wordBound := by
  have := built.short
  omega

theorem parts (built : g.Built id) (structured : isStructured (g.op id) = true) :
    ∃ n ≤ (g.op id).operands.length, numInputs (g.op id) = Int64.ofNat n ∧
      inputs (g.op id) = .ok ((g.op id).operands.take n) ∧
      outputs (g.op id) = .ok ((g.op id).operands.drop n) ∧
      (g.op id).results.map Slot.type = g.tensorTypes ((g.op id).operands.drop n) := by
  obtain ⟨nonneg,le,results⟩ := built.split structured
  obtain ⟨count,small⟩ := Word.ofNonneg nonneg
  generalize (numInputs (g.op id)).toNatClampNeg = n at le results count small
  have short := built.short
  have within (room : Nat) (fits : n ≤ room) (short : room < wordBound) :
      countWithin (g.op id) room = .ok n := by
    rw [countWithin,count,if_pos ⟨Word.ofNatNonneg small,(Word.ofNatLeIff small short).mpr fits⟩,
      Word.toNatOfNat small]
  obtain ⟨least,most⟩ := Storage.placesBounds (g.op id).operands.length
  refine ⟨n,le,count,?_,?_,results⟩
  · rw [inputs,within _ (le.trans least) (by omega),Outcome.bindOfOk,Nat.sub_eq_zero_of_le le]
    simp
  · rw [outputs,inputCount,within _ le (by omega)]
    rfl

end Graph.Built

end TileLower

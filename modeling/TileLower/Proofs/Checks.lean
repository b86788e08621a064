import TileLower.Proofs.Drafts
import TileLower.Lowering.Catalogue

/-! What a rule knows once its checks have passed. A check only reads the draft. -/
namespace TileLower

open List Outcome

namespace Step

variable {σ β γ : Type}

theorem checkOk {c : Prop} [Decidable c] {x : EStateM Fault σ β} {f : β → EStateM Fault σ γ} {k : EStateM Fault σ γ}
    {b : γ} {s t : σ} (faults : ∀ u w, ¬ x s = .ok u w) :
    (if c then x >>= f else k) s = .ok b t ↔ ¬ c ∧ k s = .ok b t := by
  by_cases h : c
  · simp only [if_pos h,bindOk]
    exact ⟨fun ⟨u,w,ok,_⟩ => absurd ok (faults u w),fun ⟨not,_⟩ => absurd h not⟩
  · simp [h]

theorem guardOk {c : Prop} [Decidable c] {x : EStateM Fault σ Unit} {s t : σ} (faults : ∀ u w, ¬ x s = .ok u w) :
    (if c then x else pure ()) s = .ok () t ↔ ¬ c ∧ s = t := by
  by_cases h : c
  · simp only [if_pos h]
    exact ⟨fun ok => absurd ok (faults () t),fun ⟨not,_⟩ => absurd h not⟩
  · simp [h]

end Step

namespace Drafting

variable {β : Type} {d e : Draft}

@[simp] theorem graphOk {g} : graph d = .ok g e ↔ d.graph = g ∧ d = e := by simp

@[simp] theorem requireOk {o : Option β} {b : β} : require o d = .ok b e ↔ o = some b ∧ d = e := by
  simp [require]

end Drafting

namespace Site

variable {β : Type} {s : Site} {d e : Draft}

@[simp] theorem declineOk {reason : String} {b : β} : ¬ s.decline reason d = .ok b e := nofun

theorem checkOk {γ : Type} {c : Prop} [Decidable c] {reason : String} {f : β → Drafting γ} {k : Drafting γ} {b : γ} :
    (if c then s.decline reason >>= f else k) d = .ok b e ↔ ¬ c ∧ k d = .ok b e :=
  Step.checkOk fun _ _ => declineOk

theorem guardOk {c : Prop} [Decidable c] {reason : String} :
    (if c then s.decline reason else pure ()) d = .ok () e ↔ ¬ c ∧ d = e :=
  Step.guardOk fun _ _ => declineOk

@[simp] theorem expectOk {m : Drafting β} {b : β} : s.expect m d = .ok b e ↔ m d = .ok b e := by
  unfold expect
  cases m d with
  | ok a d => simp
  | error f d => cases f <;> simp

@[simp] theorem attemptOk {lead : String} {m : Outcome β} {b : β} : s.attempt lead m d = .ok b e ↔ m = .ok b ∧ d = e := by
  unfold attempt
  cases m with
  | ok a => simp
  | error f => cases f <;> simp

end Site

namespace Structured

variable {op : Operation} {ins outs : List Operand} {n : Nat}

theorem countWithinOk {room} (ok : countWithin op room = .ok n) :
    0 ≤ numInputs op ∧ numInputs op ≤ Int64.ofNat room ∧ n = (numInputs op).toNatClampNeg := by
  simp only [countWithin] at ok
  split at ok
  · rename_i fits
    cases ok
    exact ⟨fits.1,fits.2,rfl⟩
  · exact absurd ok abortOk

theorem inputCountOk (ok : inputCount op = .ok n) : n ≤ op.operands.length ∧ n = (numInputs op).toNatClampNeg := by
  obtain ⟨nonneg,le,rfl⟩ := countWithinOk ok
  rw [Int64.le_iff_toInt_le] at nonneg le
  refine ⟨?_,rfl⟩
  rw [Int64.toInt_zero] at nonneg
  rw [Int64.toInt_ofNat',Int.bmod_def,show (Int64.size : Int) = 2 ^ 64 from rfl] at le
  rw [Int64.toNatClampNeg,Int.toNat_le]
  split at le <;> omega

theorem operandsSplit (inputs : inputs op = .ok ins) (outputs : outputs op = .ok outs) :
    ∃ n, inputCount op = .ok n ∧ n ≤ op.operands.length ∧ ins = op.operands.take n ∧ outs = op.operands.drop n := by
  obtain ⟨m,room,ins'⟩ := bindOk.mp inputs
  obtain ⟨n,count,outs'⟩ := bindOk.mp outputs
  cases ins'
  cases outs'
  obtain ⟨le,here⟩ := inputCountOk count
  have same : m = n := (countWithinOk room).2.2.trans here.symm
  refine ⟨n,count,le,?_,rfl⟩
  rw [same,Nat.sub_eq_zero_of_le le,replicate_zero,append_nil]

theorem twoInputs {u v w} (two : numInputs op = 2) (operands : op.operands = [u, v, w]) (inputs : inputs op = .ok ins)
    (outputs : outputs op = .ok outs) : ins = [u, v] ∧ outs = [w] := by
  obtain ⟨n,count,-,rfl,rfl⟩ := operandsSplit inputs outputs
  obtain rfl : n = 2 := (inputCountOk count).2.trans (congrArg Int64.toNatClampNeg two)
  rw [operands]
  exact ⟨rfl,rfl⟩

theorem operandsMem (inputs : inputs op = .ok ins) (outputs : outputs op = .ok outs) :
    (∀ v ∈ ins, v ∈ op.operands) ∧ ∀ v ∈ outs, v ∈ op.operands := by
  obtain ⟨n,-,-,rfl,rfl⟩ := operandsSplit inputs outputs
  exact ⟨fun v => mem_of_mem_take,fun v => mem_of_mem_drop⟩

end Structured

namespace Blocking

variable {β : Type} {s : Site} {d e : Draft}

@[simp] theorem askOk {f : Graph → Outcome β} {b : β} : ask f d = .ok b e ↔ f d.graph = .ok b ∧ d = e := by
  unfold ask
  rw [Step.bindOfOk Drafting.graphRun,Drafting.liftOk]

@[simp] theorem nthOk {vs : List Operand} {i : Nat} {v : Operand} : nth vs i d = .ok v e ↔ vs[i]? = some v ∧ d = e :=
  Drafting.requireOk

theorem checkTilesOk {tiles : List Int64} {n : Nat} :
    checkTiles s tiles n d = .ok () e ↔ (tiles.length = n ∧ ∀ t ∈ tiles, 0 < t) ∧ d = e := by
  unfold checkTiles
  rw [Site.checkOk,Site.guardOk]
  simp only [ne_eq,not_not,any_eq_true,decide_eq_true_eq,not_exists,not_and,Int64.not_le,and_assoc]

theorem checkOperandsOk : checkOperands s d = .ok () e ↔
    (Structured.hasStaticShape d.graph (d.graph.op s.op) = .ok true ∧
      Structured.hasTensorSemantics d.graph (d.graph.op s.op) = .ok true) ∧ d = e := by
  unfold checkOperands
  constructor
  · intro ok
    obtain ⟨_,static,ok⟩ := Step.read askOk ok
    obtain ⟨isStatic,ok⟩ := Site.checkOk.mp ok
    obtain ⟨_,tensor,ok⟩ := Step.read askOk ok
    obtain ⟨isTensor,rfl⟩ := Site.guardOk.mp ok
    rw [not_not] at isStatic isTensor
    exact ⟨⟨isStatic ▸ static,isTensor ▸ tensor⟩,rfl⟩
  · rintro ⟨⟨static,tensor⟩,rfl⟩
    refine Step.bindOk.mpr ⟨true,d,askOk.mpr ⟨static,rfl⟩,?_⟩
    refine Site.checkOk.mpr ⟨by simp,?_⟩
    exact Step.bindOk.mpr ⟨true,d,askOk.mpr ⟨tensor,rfl⟩,rfl⟩

def Packing.Divides (g : Graph) (p : Packing) : Prop :=
  ∃ v, p.value = some v ∧ p.layout.validate (Int64.ofNat (g.typeOf v).rank) = .ok () ∧
    p.layout.divides (g.typeOf v).dims = .ok true

theorem checkDividesOk {ps : List Packing} :
    checkDivides s ps d = .ok () e ↔ (∀ p ∈ ps, p.Divides d.graph) ∧ d = e := by
  induction ps with
  | nil => simp [checkDivides]
  | cons p ps ih =>
    unfold checkDivides
    constructor
    · intro ok
      obtain ⟨_,⟨v,value,rfl⟩,ok⟩ := Step.read Drafting.typeOfOk ok
      obtain ⟨_,valid,ok⟩ := Step.read Site.attemptOk ok
      obtain ⟨_,divides,ok⟩ := Step.read askOk ok
      obtain ⟨yes,ok⟩ := Site.checkOk.mp ok
      rw [not_not] at yes
      obtain ⟨rest,rfl⟩ := ih.mp ok
      exact ⟨forall_mem_cons.mpr ⟨⟨v,value,valid,yes ▸ divides⟩,rest⟩,rfl⟩
    · rintro ⟨all,rfl⟩
      obtain ⟨⟨v,value,valid,divides⟩,rest⟩ := forall_mem_cons.mp all
      refine Step.bindOk.mpr ⟨_,d,Drafting.typeOfOk.mpr ⟨⟨v,value,rfl⟩,rfl⟩,?_⟩
      refine Step.bindOk.mpr ⟨(),d,Site.attemptOk.mpr ⟨valid,rfl⟩,?_⟩
      refine Step.bindOk.mpr ⟨true,d,askOk.mpr ⟨divides,rfl⟩,?_⟩
      exact Site.checkOk.mpr ⟨by simp,ih.mpr ⟨rest,rfl⟩⟩

theorem operandsAtOk {ins outs : List Operand} : operandsAt s d = .ok (ins, outs) e ↔
    (Structured.inputs (d.graph.op s.op) = .ok ins ∧ Structured.outputs (d.graph.op s.op) = .ok outs) ∧ d = e := by
  unfold operandsAt
  rw [askOk]
  constructor
  · rintro ⟨ok,rfl⟩
    obtain ⟨ins',inputs,ok⟩ := bindOk.mp ok
    obtain ⟨outs',outputs,ok⟩ := bindOk.mp ok
    cases ok
    exact ⟨⟨inputs,outputs⟩,rfl⟩
  · rintro ⟨⟨inputs,outputs⟩,rfl⟩
    exact ⟨bindOk.mpr ⟨ins,inputs,bindOk.mpr ⟨outs,outputs,rfl⟩⟩,rfl⟩

end Blocking

end TileLower

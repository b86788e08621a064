import TileLower.Proofs.Fullness
import TileLower.Proofs.Preservation

/-!
What one run leaves alone. Every value is held by an array of its type, and a tensor keeps it as long as it is not
computed again.
-/
namespace TileLower

instance (op : Operation) (j i : Nat) : Decidable (Eval.Copied op j i) := inferInstanceAs (Decidable (_ ∨ _))

namespace Graph

/- What is written over a copy of a tensor has the type of that tensor. -/
def CopiesTyped (g : Graph) (id : OpId) : Prop :=
  ∀ j i v, (g.op id).operands[j]? = some (some v) → (g.typeOf v).isTensor = true →
    Eval.Copied (g.op id) j i → i < (g.op id).results.length → g.typeOf (.result id i) = g.typeOf v

/-- Results are declared as they are computed, and a cast keeps the number of elements. -/
structure Declared (g : Graph) (id : OpId) : Prop where
  copied : g.CopiesTyped id
  cast : (g.op id).kind = Memory.castKind → ∀ v, (g.op id).operands[0]? = some (some v) →
    (g.typeOf (.result id 0)).numElements = (g.typeOf v).numElements

def declares (g : Graph) (id : OpId) : Bool :=
  let op := g.op id
  (List.range op.operands.length).all (fun j => (List.range op.results.length).all fun i =>
    match op.operands[j]? with
    | some (some v) => !(g.typeOf v).isTensor || !decide (Eval.Copied op j i) || g.typeOf (.result id i) == g.typeOf v
    | _ => true) &&
  (op.kind != Memory.castKind || match op.operands[0]? with
    | some (some v) => (g.typeOf (.result id 0)).numElements == (g.typeOf v).numElements
    | _ => true)

theorem declaresIff {g : Graph} {id} : g.declares id = true ↔ g.Declared id := by
  rw [declares,Bool.and_eq_true,List.all_eq_true]
  refine ⟨fun ⟨copied,cast⟩ => ⟨fun j i v at_ tensor copy within => ?_,fun isCast v at_ => ?_⟩,
    fun ⟨copied,cast⟩ => ⟨fun j _ => List.all_eq_true.mpr fun i within => ?_,?_⟩⟩
  · have inside := (List.getElem?_eq_some_iff.mp at_).1
    have same := List.all_eq_true.mp (copied j (List.mem_range.mpr inside)) i (List.mem_range.mpr within)
    simpa [at_,tensor,copy] using same
  · simpa [isCast,at_] using cast
  · cases at_ : (g.op id).operands[j]? with
    | none => rfl
    | some v =>
      cases v with
      | none => rfl
      | some v =>
        by_cases tensor : (g.typeOf v).isTensor = true
        · by_cases copy : Eval.Copied (g.op id) j i
          · simp [copied j i v at_ tensor copy (List.mem_range.mp within)]
          · simp [copy]
        · simp [tensor]
  · by_cases isCast : (g.op id).kind = Memory.castKind
    · cases at_ : (g.op id).operands[0]? with
      | none => simp
      | some v =>
        cases v with
        | none => simp
        | some v => simp [cast isCast v at_]
    · simp [isCast]

instance (g : Graph) (id : OpId) : Decidable (g.Declared id) := decidable_of_iff _ declaresIff

structure Orderly (g : Graph) (id : OpId) : Prop where
  copied : g.CopiesTyped id
  few : (g.op id).operands.length < wordBound
  fewResults : (g.op id).results.length < wordBound
  buffers : (g.op id).kind = Memory.copyKind → ∀ v, (g.op id).operands[1]? = some (some v) →
    (g.typeOf v).isTensor = false

structure Conventional (g : Graph) (id : OpId) : Prop extends g.Declared id, g.Orderly id

end Graph

namespace Eval

def InPlace (g : Graph) (v : Value) : Prop := (g.typeOf v).isTensor = false

def Fits (g : Graph) (v : Value) (t : ValueType) (n : Nat) : Prop :=
  g.Has v → t = g.typeOf v ∧ n < wordBound ∧ Int64.ofNat n = t.numElements

def Makes (g : Graph) (v : Value) (t : ValueType) (n : Nat) : Prop := Fits g v t n ∧ n ≤ lengthLimit.toNatClampNeg

variable {α : Type} {g : Graph} {id : OpId}

theorem filledOk {t : ValueType} {x : α} {a : NdArray α} : NdArray.filled t x = .ok a ↔
    (0 ≤ t.numElements ∧ t.numElements ≤ lengthLimit) ∧ a = ⟨t,Array.replicate t.numElements.toNatClampNeg x⟩ := by
  rw [NdArray.filled,listLength]
  split
  · rename_i range
    rw [Outcome.bindOfOk]
    exact ⟨fun ok => ⟨range,(Except.ok.inj ok).symm⟩,fun ok => congrArg Except.ok ok.2.symm⟩
  · rename_i range
    refine ⟨fun ok => ?_,fun ok => absurd ok.1 range⟩
    obtain ⟨_,length,-⟩ := Outcome.bindOk.mp ok
    exact absurd length Outcome.abortOk

theorem filledCounted {t : ValueType} {x : α} {a : NdArray α} (ok : NdArray.filled t x = .ok a) :
    a.type = t ∧ a.Counted := by
  obtain ⟨range,rfl⟩ := filledOk.mp ok
  obtain ⟨n,lt,count⟩ := Word.existsOfNonneg range.1
  refine ⟨rfl,?_,?_⟩ <;> rw [Array.size_replicate,count,Word.toNatOfNat lt]
  exact lt

theorem filledShort {t : ValueType} {x : α} {a : NdArray α} (ok : NdArray.filled t x = .ok a) :
    a.data.size ≤ lengthLimit.toNatClampNeg := by
  obtain ⟨range,rfl⟩ := filledOk.mp ok
  obtain ⟨n,lt,count⟩ := Word.existsOfNonneg range.1
  rw [Array.size_replicate,count,Word.toNatOfNat lt]
  rw [count,Word.leLimit lt] at range
  exact range.2

variable [Scalar α]

/- A run beside itself, to see what it leaves alone. Only results of `id` may be bound. -/
section Alone

def View.self (W : Value → Prop) (F : Value → ValueType → Nat → Prop) (id : OpId) : View where
  rename v := v
  live _ := True
  writable := W
  bindable v := ∃ i, v = .result id i
  fits := F
  kept _ _ := rfl
  only _ _ _ _ same := same

variable {W : Value → Prop} {F : Value → ValueType → Nat → Prop} {s t : Machine α}

theorem Suits.kept (suits : Suits α W F g id) : Kept α (View.self W F id) g g id where
  kind := rfl
  attrs := rfl
  results := rfl
  operands := by simp [View.self]
  live _ _ := trivial
  types _ _ := rfl
  writable := suits.writable
  few := suits.few
  region := rfl
  bodies _ _ _ _ ok := ok
  bindable i := ⟨i,rfl⟩
  filled := suits.filled
  copied := suits.copied
  cast := suits.cast

def Sane (W : Value → Prop) (F : Value → ValueType → Nat → Prop) (s : Machine α) : Prop :=
  ∃ p, Agree (View.self W F 0) p s s ∧ Settled (View.self W F 0) p s

omit [Scalar α] in
theorem Sane.fits (sane : Sane W F s) {v r} (found : s.env v = some r) :
    F v (s.arrayAt r).type (s.arrayAt r).data.size ∧ r < s.memory.size := by
  obtain ⟨p,agree,settled⟩ := sane
  obtain ⟨⟨t,n,shape,fits⟩,-⟩ := agree.env v r trivial found
  obtain ⟨within,rfl,rfl⟩ := agree.shaped r t n shape
  exact ⟨fits,within⟩

theorem evalOpFrame (suits : Suits α W F g id) (sane : Sane W F s) (ok : evalOp g id s = .ok () t) : Sane W F t ∧
    (∀ v, (∀ i, v ≠ .result id i) → t.env v = s.env v) ∧
    ∀ v r, ¬ W v → s.env v = some r → t.arrayAt r = s.arrayAt r := by
  obtain ⟨p,agree,settled⟩ := sane
  have agree : Agree (View.self W F id) p s s := ⟨agree.valid,agree.owned,agree.shaped,agree.held,agree.env⟩
  have settled : Settled (View.self W F id) p s := ⟨settled.holds,settled.valid,settled.own,settled.apart⟩
  obtain ⟨q,_,t',ran,after,passes,-⟩ := suits.kept.evalOp p (.refl p) s s agree () t ok
  rw [ok] at ran
  cases ran
  obtain ⟨next,-⟩ := settled.step passes after
  have after := after.settle
  refine ⟨⟨_,⟨after.valid,after.owned,after.shaped,after.held,after.env⟩,
    ⟨next.holds,next.valid,next.own,next.apart⟩⟩,fun v other => ?_,fun v r free found => ?_⟩
  · exact passes.env v fun ⟨i,same⟩ => other i same
  · refine passes.contents r (settled.valid v r found) fun r' own => ?_
    obtain ⟨w,writable,found'⟩ := settled.own r r' own
    exact free (settled.apart v w r free found found' ▸ writable)

theorem evalEachFrame {ids} (suits : ∀ j ∈ ids, Suits α W F g j) (sane : Sane W F s) (ok : evalEach g ids s = .ok () t) :
    Sane W F t ∧ (∀ v, (∀ j ∈ ids, ∀ i, v ≠ .result j i) → t.env v = s.env v) ∧
    ∀ v r, ¬ W v → (∀ j ∈ ids, ∀ i, v ≠ .result j i) → s.env v = some r → t.arrayAt r = s.arrayAt r := by
  induction ids generalizing s with
  | nil =>
    cases ok
    exact ⟨sane,fun _ _ => rfl,fun _ _ _ _ _ => rfl⟩
  | cons j ids ih =>
    obtain ⟨here,later⟩ := List.forall_mem_cons.mp suits
    obtain ⟨_,u,first,rest⟩ := Step.bindOk.mp ok
    obtain ⟨sane,env,contents⟩ := evalOpFrame here sane first
    obtain ⟨sane,envs,keeps⟩ := ih later sane rest
    refine ⟨sane,fun v other => ?_,fun v r free other found => ?_⟩ <;>
      obtain ⟨otherHere,otherLater⟩ := List.forall_mem_cons.mp other
    · rw [envs v otherLater,env v otherHere]
    · rw [keeps v r free otherLater ((env v otherHere).trans found),contents v r free found]

omit [Scalar α] in
theorem Started.resultsUnbound {memory args} (started : Started g memory args s) (k : OpId) (i : Nat) :
    s.env (.result k i) = none := by
  cases bound : s.env (.result k i) with
  | none => rfl
  | some q =>
    obtain ⟨_,_,same,-⟩ := started.argument bound
    cases same

omit [Scalar α] in
theorem Started.sane {memory args} (started : Started g memory args s)
    (tensors : ∀ k, ¬ W (.argument Graph.body k) → (g.typeOf (.argument Graph.body k)).isTensor = true)
    (fits : ∀ v r, s.env v = some r → F v (s.arrayAt r).type (s.arrayAt r).data.size) : Sane W F s :=
  ⟨_,started.agree (fun _ _ => rfl) fun v r _ found => fits v r found,started.settled tensors⟩

end Alone

end Eval

namespace Graph

open Eval

variable {α : Type} {g : Graph} {id : OpId}

section Declared

variable (declared : g.Declared id) (has : ∀ v, some v ∈ (g.op id).operands → g.Has v)

include declared has

theorem Declared.copies {j i v t n} (at_ : (g.op id).operands[j]? = some (some v))
    (tensor : (g.typeOf v).isTensor = true) (copied : Copied (g.op id) j i) (fits : Fits g v t n) :
    Fits g (.result id i) t n := fun within => by
  rw [declared.copied j i v at_ tensor copied within]
  exact fits (has v (List.mem_of_getElem? at_))

theorem Declared.casts (isCast : (g.op id).kind = Memory.castKind) {v t n} (at_ : (g.op id).operands[0]? = some (some v))
    (fits : Fits g v t n) :
    Fits g (.result id 0) (g.typeOf (.result id 0)) n := fun _ => by
  obtain ⟨rfl,lt,count⟩ := fits (has v (List.mem_of_getElem? at_))
  exact ⟨rfl,lt,by rw [count,declared.cast isCast v at_]⟩

theorem Declared.fitting : Suits α (fun _ => True) (Fits g) g id where
  writable _ _ _ _ := trivial
  few := .inr fun _ _ => trivial
  filled _ _ _ made _ := filledCounted made
  copied _ _ _ _ _ at_ tensor copied fits := declared.copies has at_ tensor copied fits
  cast isCast _ _ _ at_ fits := declared.casts has isCast at_ fits

theorem Declared.suits : Suits α (fun _ => True) (Makes g) g id where
  writable _ _ _ _ := trivial
  few := .inr fun _ _ => trivial
  filled _ _ _ made := ⟨fun _ => filledCounted made,filledShort made⟩
  copied _ _ _ _ _ at_ tensor copied fits := ⟨declared.copies has at_ tensor copied fits.1,fits.2⟩
  cast isCast _ _ _ at_ fits := ⟨declared.casts has isCast at_ fits.1,fits.2⟩

end Declared

theorem Conventional.suits (conventional : g.Conventional id) (has : ∀ v, some v ∈ (g.op id).operands → g.Has v) :
    Suits α (InPlace g) (Fits g) g id where
  writable _ v at_ place := place.elim And.right fun ⟨isCopy,second⟩ => conventional.buffers isCopy v (second ▸ at_)
  few := .inl conventional.few
  filled _ _ _ made _ := filledCounted made
  copied _ _ _ _ _ at_ tensor copied fits := conventional.copies has at_ tensor copied fits
  cast isCast _ _ _ at_ fits := conventional.casts has isCast at_ fits

end Graph

end TileLower

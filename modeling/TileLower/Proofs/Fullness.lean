import TileLower.Proofs.Conversions

/-!
Conversions that end show that arrays are full, although the number of elements of a type is counted in words.
-/
namespace TileLower

open Step Box

open Box (Inside grid)

variable {α : Type}

theorem countWords (ns : List Nat) : ValueType.count (words ns) = Int64.ofNat ns.prod := by
  have fold (m : Nat) : (words ns).foldl (· * ·) (Int64.ofNat m) = Int64.ofNat (m * ns.prod) := by
    induction ns generalizing m with
    | nil => simp
    | cons n ns ih =>
      rw [wordsCons,List.foldl_cons,Word.mulWords,ih,List.prod_cons,Nat.mul_assoc]
  have whole := fold 1
  rwa [Nat.one_mul] at whole

theorem Tiling.flatProduct {rank} (T : Tiling rank) {ns : List Nat} (length : ns.length = rank) :
    ns.prod ≤ (T.packed ns).prod := by
  have once : ((grid ns).map T.blocked).Nodup := by
    refine (gridNodup ns).map_on fun x hx y hy same => ?_
    rw [← T.flatBlocked ((memGrid.mp hx).length_eq.trans length),same,
      T.flatBlocked ((memGrid.mp hy).length_eq.trans length)]
  have inside : (grid ns).map T.blocked ⊆ grid (T.packed ns) := by
    intro y hy
    obtain ⟨x,hx,rfl⟩ := List.mem_map.mp hy
    exact memGrid.mpr (T.blockedInside length (memGrid.mp hx))
  simpa [gridLength] using (once.subperm inside).length_le

namespace NdArray

def Counted (a : NdArray α) : Prop := a.data.size < wordBound ∧ Int64.ofNat a.data.size = a.type.numElements

instance (a : NdArray α) : Decidable a.Counted := inferInstanceAs (Decidable (_ ∧ _))

variable {a : NdArray α} {ns : List Nat} (counted : a.Counted) (dims : a.type.dims = words ns) (small : Small ns)

include counted dims small

theorem Counted.full (fits : ns.prod < wordBound) : a.Full ns := by
  obtain ⟨lt,elements⟩ := counted
  rw [ValueType.numElements,dims,countWords] at elements
  exact ⟨dims,small,Word.ofNatInj lt fits elements,fits⟩

theorem Counted.fullOfPlaces (places : ∀ is, Inside is ns → ∃ b : NdArray α, ∃ i, b.type = a.type ∧
    b.data.size = a.data.size ∧ (do b.place (← b.offset (words is))) = .ok i) : a.Full ns := by
  refine counted.full dims small (Nat.lt_of_not_le fun large => ?_)
  obtain ⟨is,inside,here⟩ := positionSurj (counted.1.trans_le large)
  obtain ⟨b,i,type,size,ok⟩ := places is inside
  rw [offsetAt (type ▸ dims) small inside,here,Outcome.bindOfOk,placeAt counted.1,size] at ok
  exact Nat.lt_irrefl _ ok.1

end NdArray

namespace Eval

def Writes (dest : Ref) (s t : Machine α) : Prop :=
  ∃ b : NdArray α, t = s.withArray dest b ∧ b.type = (s.arrayAt dest).type ∧ b.data.size = (s.arrayAt dest).data.size

variable {dest source : Ref} {s t u : Machine α}

theorem Writes.refl (dest : Ref) (s : Machine α) : Writes dest s s := ⟨_,(s.withArraySelf dest).symm,rfl,rfl⟩

theorem Writes.same (writes : Writes dest s t) (valid : dest < s.memory.size) :
    (t.arrayAt dest).type = (s.arrayAt dest).type ∧ (t.arrayAt dest).data.size = (s.arrayAt dest).data.size ∧
      dest < t.memory.size := by
  obtain ⟨b,rfl,type,size⟩ := writes
  rw [s.withArrayHere b valid,s.withArraySize]
  exact ⟨type,size,valid⟩

theorem Writes.trans (first : Writes dest s t) (valid : dest < s.memory.size) (second : Writes dest t u) :
    Writes dest s u := by
  obtain ⟨type,size,-⟩ := first.same valid
  obtain ⟨b,rfl,-,-⟩ := first
  obtain ⟨c,rfl,type',size'⟩ := second
  exact ⟨c,s.withArrayTwice dest b c,type'.trans type,size'.trans size⟩

theorem storeWrites {idx x} (ok : store dest idx x s = .ok () t) : Writes dest s t := by
  obtain ⟨i,-,rfl⟩ := storeOk.mp ok
  exact ⟨_,rfl,rfl,by simp⟩

theorem alongWrites {ι : Type} {is : List ι} {f : ι → Exec α Unit}
    (step : ∀ i ∈ is, ∀ s t, f i s = .ok () t → Writes dest s t) (valid : dest < s.memory.size)
    (ok : along is f s = .ok () t) :
    Writes dest s t ∧ ∀ i ∈ is, ∃ u w, Writes dest s u ∧ f i u = .ok () w := by
  induction is generalizing s with
  | nil =>
    cases ok
    exact ⟨.refl dest _,nofun⟩
  | cons i is ih =>
    obtain ⟨here,later⟩ := List.forall_mem_cons.mp step
    obtain ⟨_,u,first,rest⟩ := bindOk.mp ok
    have writes := here s u first
    obtain ⟨writes',steps⟩ := ih later (writes.same valid).2.2 rest
    refine ⟨writes.trans valid writes',fun j mem => ?_⟩
    rcases List.mem_cons.mp mem with rfl | mem
    · exact ⟨s,u,.refl dest s,first⟩
    · obtain ⟨v,w,between,ran⟩ := steps j mem
      exact ⟨v,w,writes.trans valid between,ran⟩

variable [Scalar α] {m : AffineMap} {idx : List Int64}

theorem packPointOk (ok : packPoint m source dest idx s = .ok () t) : ∃ x, store dest idx x s = .ok () t := by
  obtain ⟨_,-,ok⟩ := read liftOk ok
  rw [bindOfOk (arrayRun source _)] at ok
  split at ok
  · obtain ⟨x,-,ok⟩ := read liftOk ok
    exact ⟨x,ok⟩
  · exact ⟨Scalar.zero,ok⟩

omit [Scalar α] in
theorem unpackPointOk (ok : unpackPoint m source dest idx s = .ok () t) : ∃ flat, m.eval idx = .ok flat ∧
    if (s.arrayAt dest).inBounds flat then ∃ x, (s.arrayAt source).get idx = .ok x ∧ store dest flat x s = .ok () t
    else t = s := by
  obtain ⟨flat,eval,ok⟩ := read liftOk ok
  rw [bindOfOk (arrayRun dest _)] at ok
  refine ⟨flat,eval,?_⟩
  split at ok
  · rename_i inside
    rw [if_pos inside]
    exact read liftOk ok
  · rename_i outside
    rw [if_neg outside]
    cases ok
    rfl

omit [Scalar α] in
theorem unpackPointWrites (ok : unpackPoint m source dest idx s = .ok () t) : Writes dest s t := by
  obtain ⟨flat,-,ran⟩ := unpackPointOk ok
  split at ran
  · exact storeWrites ran.choose_spec.2
  · exact ran ▸ .refl dest s

section Loops

variable {rank : Nat} {T : Tiling rank} {ns : List Nat} (rounds : T.Rounds ns) (valid : dest < s.memory.size)
  (counted : (s.arrayAt dest).Counted)

include rounds valid counted

theorem packLoopOk (dims : (s.arrayAt dest).type.dims = words (T.packed ns))
    (ok : each (words (T.packed ns)) (packPoint m source dest) s = .ok () t) :
    Writes dest s t ∧ (s.arrayAt dest).Full (T.packed ns) := by
  rw [eachAlong (T.packedSmall rounds)] at ok
  obtain ⟨writes,steps⟩ := alongWrites (fun y _ s t ok => storeWrites (packPointOk ok).choose_spec) valid ok
  refine ⟨writes,counted.fullOfPlaces dims (T.packedSmall rounds) fun y inside => ?_⟩
  obtain ⟨u,w,before,ran⟩ := steps y (memGrid.mpr inside)
  obtain ⟨type,size,-⟩ := before.same valid
  obtain ⟨x,stored⟩ := packPointOk ran
  obtain ⟨i,place,-⟩ := storeOk.mp stored
  exact ⟨_,i,type,size,place⟩

omit [Scalar α] in
theorem unpackLoopOk (map : T.Maps m) (length : ns.length = rank) (small : Small ns)
    (dims : (s.arrayAt dest).type.dims = words ns)
    (ok : Box.each (words (T.packed ns)) (unpackPoint m source dest) s = .ok () t) :
    Writes dest s t ∧ (s.arrayAt dest).Full ns := by
  rw [Box.eachAlong (T.packedSmall rounds)] at ok
  obtain ⟨writes,steps⟩ := alongWrites (fun y _ s t ok => unpackPointWrites ok) valid ok
  refine ⟨writes,counted.fullOfPlaces dims small fun x inside => ?_⟩
  have blocked := T.blockedInside length inside
  obtain ⟨u,w,before,ran⟩ := steps (T.blocked x) (Box.memGrid.mpr blocked)
  obtain ⟨type,size,-⟩ := before.same valid
  obtain ⟨flat,eval,stored⟩ := unpackPointOk ran
  rw [map _ (T.blockedLength x),T.flatBlocked (inside.length_eq.trans length)] at eval
  cases eval
  rw [if_pos (NdArray.inBoundsInside (type ▸ dims) small inside)] at stored
  obtain ⟨y,-,stored⟩ := stored
  obtain ⟨i,place,-⟩ := storeOk.mp stored
  exact ⟨_,i,type,size,place⟩

end Loops

end Eval

end TileLower

import TileLower.Proofs.Layouts
import TileLower.Proofs.MapTexts

/-!
Composition of maps. The folding constructors keep the value of an expression, so a composed map gives what its parts
give one after the other.
-/
namespace TileLower

open List Int64

open TileLower.Affine (Expr)

section Entries

variable {β : Type} {xs : List β} {i : Int64} {x : β}

theorem entryAtOk : entryAt xs i = .ok x ↔ 0 ≤ i ∧ xs[i.toNatClampNeg]? = some x := by
  rw [entryAt,Outcome.ofOptionOk,entryAt?]
  split
  · rename_i negative
    exact ⟨(fun found => by cases found),fun found => absurd negative (Int64.not_lt.mpr found.1)⟩
  · rename_i nonneg
    exact ⟨fun found => ⟨Int64.not_lt.mp nonneg,found⟩,And.right⟩

end Entries

namespace Affine.Expr

def Within (n : Int64) : Expr → Prop
  | .dim pos => 0 ≤ pos ∧ pos < n
  | .const _ => True
  | .sum x y => x.Within n ∧ y.Within n
  | .scaled x _ => x.Within n

variable {dims : List Int64} {x y : Expr} {a b : Int64}

theorem sumEval (left : x.eval dims = .ok a) (right : y.eval dims = .ok b) : (sum x y).eval dims = .ok (a + b) := by
  rw [eval,left,right]
  rfl

theorem scaledEval (ok : x.eval dims = .ok a) (c : Int64) : (scaled x c).eval dims = .ok (a * c) := by
  rw [eval,ok]
  rfl

theorem addEval (left : x.eval dims = .ok a) (right : y.eval dims = .ok b) : (add x y).eval dims = .ok (a + b) := by
  unfold add
  split
  · cases left
    cases right
    rfl
  · cases left
    split
    · rename_i zero
      rw [zero,Int64.zero_add,right]
    · exact sumEval rfl right
  · cases right
    split
    · rename_i zero
      rw [zero,Int64.add_zero,left]
    · exact sumEval left rfl
  · exact sumEval left right

theorem mulEval (ok : x.eval dims = .ok a) (c : Int64) : (mul x c).eval dims = .ok (a * c) := by
  unfold mul
  split
  · rename_i one
    rw [one,Int64.mul_one,ok]
  · split
    · rename_i zero
      rw [zero,mul_zero]
      rfl
    · split
      · cases ok
        rfl
      · exact scaledEval ok c

end Affine.Expr

namespace AffineMap

theorem evalAllOk {indices : List Int64} {es : List Expr} {vs : List Int64} :
    evalAll indices es = .ok vs ↔ Forall₂ (fun e v => e.eval indices = .ok v) es vs :=
  Outcome.allOk (evalAll indices) rfl fun _ _ => rfl

theorem substituteAllOk {args es fs : List Expr} :
    substituteAll args es = .ok fs ↔ Forall₂ (fun e f => e.substitute args = .ok f) es fs :=
  Outcome.allOk (substituteAll args) rfl fun _ _ => rfl

end AffineMap

namespace Affine.Expr

theorem withinEval {dims : List Int64} {e : Expr} (within : e.Within (ofNat dims.length)) :
    ∃ v, e.eval dims = .ok v := by
  induction e with
  | dim pos =>
    obtain ⟨x,found⟩ := entryAtInside within.1 within.2
    exact ⟨x,congrArg Outcome.ofOption found⟩
  | const v => exact ⟨v,rfl⟩
  | sum x y ihx ihy =>
    obtain ⟨a,left⟩ := ihx within.1
    obtain ⟨b,right⟩ := ihy within.2
    exact ⟨a + b,sumEval left right⟩
  | scaled x c ih =>
    obtain ⟨a,ok⟩ := ih within
    exact ⟨a * c,scaledEval ok c⟩

theorem withinSubstitute {args : List Expr} {e : Expr} (within : e.Within (ofNat args.length)) :
    ∃ f, e.substitute args = .ok f := by
  induction e with
  | dim pos =>
    obtain ⟨x,found⟩ := entryAtInside within.1 within.2
    exact ⟨x,congrArg Outcome.ofOption found⟩
  | const v => exact ⟨.const v,rfl⟩
  | sum x y ihx ihy =>
    obtain ⟨f,left⟩ := ihx within.1
    obtain ⟨g,right⟩ := ihy within.2
    exact ⟨add f g,by rw [substitute,left,right]; rfl⟩
  | scaled x c ih =>
    obtain ⟨f,ok⟩ := ih within
    exact ⟨mul f c,by rw [substitute,ok]; rfl⟩

theorem substituteEval {indices vs args} (values : Forall₂ (fun e v => e.eval indices = .ok v) args vs) {e f : Expr}
    (made : e.substitute args = .ok f) {v} (ok : e.eval vs = .ok v) : f.eval indices = .ok v := by
  induction e generalizing f v with
  | dim pos =>
    obtain ⟨-,found⟩ := entryAtOk.mp made
    obtain ⟨-,valued⟩ := entryAtOk.mp ok
    obtain ⟨inArgs,rfl⟩ := List.getElem?_eq_some_iff.mp found
    obtain ⟨inValues,rfl⟩ := List.getElem?_eq_some_iff.mp valued
    exact (forall₂_iff_get.mp values).2 _ inArgs inValues
  | const c =>
    cases made
    exact ok
  | sum x y ihx ihy =>
    obtain ⟨f,left,made⟩ := Outcome.bindOk.mp made
    obtain ⟨g,right,same⟩ := Outcome.bindOk.mp made
    cases same
    obtain ⟨a,leftValue,ok⟩ := Outcome.bindOk.mp ok
    obtain ⟨b,rightValue,same⟩ := Outcome.bindOk.mp ok
    cases same
    exact addEval (ihx left leftValue) (ihy right rightValue)
  | scaled x c ih =>
    obtain ⟨f,inner,same⟩ := Outcome.bindOk.mp made
    cases same
    obtain ⟨a,value,same⟩ := Outcome.bindOk.mp ok
    cases same
    exact mulEval (ih inner value) c

end Affine.Expr

namespace AffineMap

variable {m o c : AffineMap}

def Within (m : AffineMap) : Prop := ∀ e ∈ m.results, e.Within m.numDims

theorem composeOk : m.compose o = .ok c ↔ ofNat o.numResults = m.numDims ∧ c.numDims = o.numDims ∧
    Forall₂ (fun e f => e.substitute o.results = .ok f) m.results c.results := by
  rw [compose]
  split
  · rename_i count
    rw [Outcome.bindOk]
    refine ⟨fun ⟨fs,all,same⟩ => ?_,fun ⟨_,dims,all⟩ => ⟨_,substituteAllOk.mpr all,?_⟩⟩
    · cases same
      exact ⟨count,rfl,substituteAllOk.mp all⟩
    · cases c
      cases dims
      rfl
  · rename_i count
    exact ⟨fun ok => absurd ok Outcome.failOk,fun ok => absurd ok.1 count⟩

theorem composeIff (within : m.Within) : (∃ c, m.compose o = .ok c) ↔ ofNat o.numResults = m.numDims := by
  refine ⟨fun ⟨c,ok⟩ => (composeOk.mp ok).1,fun count => ?_⟩
  obtain ⟨fs,all⟩ := Outcome.allSucceed fun e mem => Expr.withinSubstitute (count ▸ within e mem)
  exact ⟨⟨o.numDims,fs⟩,composeOk.mpr ⟨count,rfl,all⟩⟩

theorem withinEval (within : m.Within) {x : List Int64} (length : ofNat x.length = m.numDims) :
    ∃ vs, m.eval x = .ok vs := by
  obtain ⟨vs,all⟩ := Outcome.allSucceed fun e mem => Expr.withinEval (length ▸ within e mem)
  exact ⟨vs,evalAllOk.mpr all⟩

theorem composeEval (ok : m.compose o = .ok c) {x ys zs} (inner : o.eval x = .ok ys) (outer : m.eval ys = .ok zs) :
    c.eval x = .ok zs := by
  obtain ⟨-,-,made⟩ := composeOk.mp ok
  have inner := evalAllOk.mp inner
  have outer := evalAllOk.mp outer
  refine evalAllOk.mpr (forall₂_iff_get.mpr ⟨made.length_eq.symm.trans outer.length_eq,fun i inC inZ => ?_⟩)
  have inM : i < m.results.length := made.length_eq ▸ inC
  exact Expr.substituteEval inner ((forall₂_iff_get.mp made).2 i inM inC) ((forall₂_iff_get.mp outer).2 i inM inZ)

theorem distinctDimsOk {n seen es} (ok : distinctDims n seen es = .ok true) :
    ∃ ps : List Int64, es = ps.map .dim ∧ ps.Nodup ∧ ∀ p ∈ ps, (0 ≤ p ∧ p < n) ∧ p ∉ seen := by
  induction es generalizing seen with
  | nil => exact ⟨[],rfl,.nil,nofun⟩
  | cons e es ih =>
    cases e with
    | dim pos =>
      rw [distinctDims] at ok
      split at ok
      · cases ok
      · rename_i below
        split at ok
        · cases ok
        · rename_i nonneg
          split at ok
          · cases ok
          · rename_i unseen
            obtain ⟨ps,rfl,nodup,each⟩ := ih ok
            refine ⟨pos :: ps,rfl,nodup_cons.mpr ⟨fun mem => (each pos mem).2 (.head _),nodup⟩,?_⟩
            refine forall_mem_cons.mpr ⟨⟨⟨Int64.not_lt.mp nonneg,Int64.not_le.mp below⟩,?_⟩,fun p mem => ?_⟩
            · simpa using unseen
            · exact ⟨(each p mem).1,fun before => (each p mem).2 (.tail _ before)⟩
    | const | sum | scaled => cases ok

theorem ofIsPermutation (ok : m.isPermutation = .ok true) : ∃ ps : List Nat, m = permutation (words ps) ∧
    ps.Perm (range ps.length) ∧ ps.length ≤ lengthLimit.toNatClampNeg := by
  rw [isPermutation] at ok
  split at ok
  · rename_i count
    obtain ⟨n,length,distinct⟩ := Outcome.bindOk.mp ok
    obtain ⟨dims,short⟩ := listLengthOk length
    obtain ⟨xs,results,nodup,each⟩ := distinctDimsOk distinct
    obtain ⟨ps,small,rfl⟩ := wordsOfNonneg fun p mem => (each p mem).1.1
    have counted : ofNat ps.length = ofNat n := by
      rw [← dims,← count,numResults,results,length_map,wordsLength]
    have vector : Permutation.isVector (words ps) = true := by
      simp only [Permutation.isVector,Bool.and_eq_true,all_eq_true,decide_eq_true_eq,wordsLength,counted,← dims]
      exact ⟨fun p mem => (each p mem).1,nodup⟩
    have perm := Layout.permOfVector small (short.trans_lt Word.limitSmall) counted vector
    obtain rfl : ps.length = n := by simpa using perm.length_eq
    refine ⟨ps,?_,perm,short⟩
    cases m
    simp_all [permutation]
  · cases ok

theorem composePermutations {ps qs : List Nat} (count : qs.length = ps.length) (small : ps.length < wordBound)
    (below : ∀ p ∈ ps, p < ps.length) :
    (permutation (words ps)).compose (permutation (words qs)) =
      .ok (permutation (words (ps.map fun p => qs.getD p 0))) := by
  refine composeOk.mpr ⟨by simp [numResults,permutation,count],by simp [permutation,count],?_⟩
  simp only [permutation,forall₂_map_left_iff,forall₂_map_right_iff,words]
  refine forall₂_same.mpr fun p mem => entryAtOk.mpr ⟨Word.ofNatNonneg ((below p mem).trans small),?_⟩
  have inside : p < qs.length := count ▸ below p mem
  rw [Word.toNatOfNat ((below p mem).trans small)]
  simp [inside]

theorem positionOfPermutation {ps : List Nat} (small : Small ps) {pos} (below : pos < wordBound) :
    (permutation (words ps)).positionOf (ofNat pos) = ofNat (ps.idxOf pos) := by
  refine congrArg ofNat ?_
  change ((words ps).map Expr.dim).findIdx (fun e => e == .dim (ofNat pos)) = _
  induction ps with
  | nil => rfl
  | cons p ps ih =>
    have same : (Expr.dim (ofNat p) == .dim (ofNat pos)) = (p == pos) := by
      simp [Word.ofNatEqIff small.head below]
    rw [wordsCons,map_cons,findIdx_cons,idxOf_cons,ih small.tail,same]

theorem inverseOk {ps : List Nat} (ok : (permutation (words ps)).isPermutation = .ok true)
    (small : ps.length < wordBound) (below : ∀ p ∈ ps, p < ps.length) :
    (permutation (words ps)).inverse = .ok (permutation (words ((range ps.length).map ps.idxOf))) := by
  rw [inverse,ok,Outcome.bindOfOk,if_pos rfl]
  have dims : (permutation (words ps)).numDims = ofNat ps.length := by simp [permutation]
  have positions : (range ps.length).map (fun pos => Expr.dim ((permutation (words ps)).positionOf (ofNat pos))) =
      (words ((range ps.length).map ps.idxOf)).map .dim := by
    rw [words.eq_def (List.map _ _),map_map,map_map]
    refine map_congr_left fun pos mem => congrArg Expr.dim ?_
    exact positionOfPermutation (fun p mem => (below p mem).trans small) ((mem_range.mp mem).trans small)
  rw [dims,Word.toNatOfNat small,positions,permutation,wordsLength,length_map,length_range]

theorem mapIdxOf {ps : List Nat} (nodup : ps.Nodup) : ps.map ps.idxOf = range ps.length := by
  refine ext_getElem (by simp) fun i _ _ => ?_
  rw [getElem_map,getElem_range,nodup.idxOf_getElem]

theorem identityIsIdentity {n} (short : n ≤ lengthLimit.toNatClampNeg) :
    (permutation (words (range n))).isIdentity = .ok true := by
  have small := short.trans_lt Word.limitSmall
  have length : listLength (ofNat n) = .ok n := by
    rw [listLength,if_pos ⟨Word.ofNatNonneg small,(Word.leLimit small).mpr short⟩,Word.toNatOfNat small]
  have same : minorIdentity (ofNat n) (ofNat n) = .ok (permutation (words (range n))) := by
    simp [minorIdentity,length,permutation,words,Function.comp_def]
  have text : ∃ text, (permutation (words (range n))).render = .ok text :=
    ⟨_,by rw [render,permutation,wordsLength,length_range,length]; rfl⟩
  obtain ⟨text,rendered⟩ := text
  have dims : (permutation (words (range n))).numDims = ofNat n := by simp [permutation]
  have count : (permutation (words (range n))).numResults = n := by simp [numResults,permutation]
  rw [isIdentity,dims,count,if_pos rfl,isMinorIdentity,dims,count,if_neg (Int64.lt_irrefl),same,Outcome.bindOfOk,
    equal,rendered,Outcome.bindOfOk,Outcome.bindOfOk,beq_self_eq_true]

/-- Composition of maps is composition of functions. A permutation composed with its inverse, on either side, is found to be
the identity. -/
theorem composition :
    (∀ m o : AffineMap, m.Within → o.Within →
      ((∃ c, m.compose o = .ok c) ↔ Int64.ofNat o.numResults = m.numDims) ∧
      ∀ c, m.compose o = .ok c → c.numDims = o.numDims ∧ ∀ x : List Int64, Int64.ofNat x.length = o.numDims →
        ∃ ys zs, o.eval x = .ok ys ∧ m.eval ys = .ok zs ∧ c.eval x = .ok zs) ∧
    ∀ m : AffineMap, m.isPermutation = .ok true → ∃ i, m.inverse = .ok i ∧
      (∃ c, m.compose i = .ok c ∧ c.isIdentity = .ok true) ∧ ∃ c, i.compose m = .ok c ∧ c.isIdentity = .ok true := by
  refine ⟨fun m o withinM withinO => ⟨composeIff withinM,fun c ok => ?_⟩,fun m ok => ?_⟩
  · obtain ⟨count,dims,-⟩ := composeOk.mp ok
    refine ⟨dims,fun x length => ?_⟩
    obtain ⟨ys,inner⟩ := withinEval withinO length
    have same : ys.length = o.numResults := (evalAllOk.mp inner).length_eq.symm
    obtain ⟨zs,outer⟩ := withinEval withinM (same ▸ count)
    exact ⟨ys,zs,inner,outer,composeEval ok inner outer⟩
  · obtain ⟨ps,rfl,perm,short⟩ := ofIsPermutation ok
    have small : ps.length < wordBound := short.trans_lt (by decide)
    have below : ∀ p ∈ ps, p < ps.length := fun p mem => List.mem_range.mp (perm.mem_iff.mp mem)
    have forth : ps.map (fun p => ((List.range ps.length).map ps.idxOf).getD p 0) = List.range ps.length := by
      refine (List.map_congr_left fun p mem => ?_).trans (mapIdxOf (perm.nodup_iff.mpr List.nodup_range))
      simp [below p mem]
    have back : ((List.range ps.length).map ps.idxOf).map (fun p => ps.getD p 0) = List.range ps.length := by
      rw [List.map_map]
      refine (List.map_congr_left fun pos mem => ?_).trans (List.map_id _)
      have found : ps.idxOf pos < ps.length := List.idxOf_lt_length_of_mem (perm.mem_iff.mpr mem)
      simp [found]
    refine ⟨_,inverseOk ok small below,⟨_,composePermutations (by simp) small below,?_⟩,_,
      composePermutations (by simp) (by simpa using small) fun p mem => ?_,?_⟩
    · rw [forth]
      exact identityIsIdentity short
    · obtain ⟨pos,inside,rfl⟩ := List.mem_map.mp mem
      rw [List.length_map,List.length_range]
      exact List.idxOf_lt_length_of_mem (perm.mem_iff.mpr inside)
    · rw [back]
      exact identityIsIdentity short

theorem compositionFolding :
    (∃ c, compose ⟨2, [.sum (.dim 0) (.const 3), .scaled (.sum (.dim 1) (.dim 0)) 2]⟩
        ⟨1, [.const (-3), .scaled (.dim 0) 0]⟩ = .ok c ∧
      ∃ ys zs, eval ⟨1, [.const (-3), .scaled (.dim 0) 0]⟩ [Int64.minValue] = .ok ys ∧
        eval ⟨2, [.sum (.dim 0) (.const 3), .scaled (.sum (.dim 1) (.dim 0)) 2]⟩ ys = .ok zs ∧
        c.eval [Int64.minValue] = .ok zs) ∧
      ∃ i, (permutation [1, 2, 0]).inverse = .ok i ∧
        (∃ c, (permutation [1, 2, 0]).compose i = .ok c ∧ c.isIdentity = .ok true) ∧
          ∃ c, i.compose (permutation [1, 2, 0]) = .ok c ∧ c.isIdentity = .ok true := by
  have withinM : Within ⟨2,[.sum (.dim 0) (.const 3), .scaled (.sum (.dim 1) (.dim 0)) 2]⟩ := by
    simp [Within,Expr.Within]
  have withinO : Within ⟨1,[.const (-3), .scaled (.dim 0) 0]⟩ := by
    simp [Within,Expr.Within]
  obtain ⟨defined,gives⟩ := composition.1 _ _ withinM withinO
  obtain ⟨c,ok⟩ := defined.mpr rfl
  exact ⟨⟨c,ok,(gives c ok).2 _ rfl⟩,composition.2 _ (by decide)⟩

end AffineMap
end TileLower

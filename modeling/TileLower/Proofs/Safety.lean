import TileLower.Proofs.Broadcasts
import TileLower.Proofs.ElementMappings

/-!
Primitives that pass the check can be run: every index lies in the array it is used on, shared or not. Main statement:
`Eval.primitiveSucceeds`.
-/
namespace TileLower.Eval

open Primitive List Outcome Step Word Box

open Box (Inside grid)
open Blocking (groupedContraction groupedCounts)

variable {α : Type} {s t u : Machine α} {ns xs ys : List Nat}

def StaysFull (s t : Machine α) : Prop := ∀ r ns, (s.arrayAt r).Full ns → (t.arrayAt r).Full ns

theorem StaysFull.refl (s : Machine α) : StaysFull s s := fun _ _ full => full

theorem StaysFull.store {q i} (stays : StaysFull s u) (full : (s.arrayAt q).Full ns) (inside : Inside i ns) (x : α) :
    ∃ t, store q (words i) x u = .ok () t ∧ StaysFull s t := by
  have here := stays q ns full
  refine ⟨_,storeRun here inside x,fun r ms fullR => ?_⟩
  rw [u.arrayAtWith _ (fullValid here)]
  split
  · rename_i same
    subst same
    have dims : ms = ns := wordsInj fullR.small full.small (fullR.dims.symm.trans full.dims)
    exact dims ▸ here.put i x
  · exact stays r ms fullR

theorem alongSucceeds {ι : Type} {is : List ι} {f : ι → Exec α Unit} {P : Machine α → Prop}
    (one : ∀ i ∈ is, ∀ u, P u → ∃ t, f i u = .ok () t ∧ P t) (start : P s) : ∃ t, along is f s = .ok () t ∧ P t := by
  induction is generalizing s with
  | nil => exact ⟨s,rfl,start⟩
  | cons i is ih =>
    obtain ⟨first,rest⟩ := forall_mem_cons.mp one
    obtain ⟨u,ran,kept⟩ := first s start
    obtain ⟨t,ends,holds⟩ := ih rest kept
    exact ⟨t,by rw [along,bindOfOk ran,ends],holds⟩

theorem foldlMSucceeds {ι ν : Type} {is : List ι} {f : ν → ι → Outcome ν} (one : ∀ i ∈ is, ∀ v, ∃ w, f v i = .ok w)
    (v : ν) : ∃ w, is.foldlM f v = .ok w := by
  induction is generalizing v with
  | nil => exact ⟨v,rfl⟩
  | cons i is ih =>
    obtain ⟨first,rest⟩ := forall_mem_cons.mp one
    obtain ⟨w,ok⟩ := first v
    obtain ⟨x,ends⟩ := ih rest w
    exact ⟨x,by rw [foldlM_cons,ok]; exact ends⟩

theorem outputSucceeds (g : Graph) (id : OpId) {z rz} (bound : s.env z = some rz) :
    ∃ q t, output g id (some z) 0 s = .ok q t ∧ t.arrayAt q = s.arrayAt rz ∧
      ∀ p < s.memory.size, t.arrayAt p = s.arrayAt p := by
  rw [output,bindOfOk (valueRun bound)]
  dsimp only
  split
  · have pushed (p : Ref) : ({ s with memory := s.memory.push (s.arrayAt rz) } : Machine α).arrayAt p =
        if p = s.memory.size then s.arrayAt rz else s.arrayAt p := s.arrayAtFresh (.result id 0) (s.arrayAt rz) p
    rw [bindOfOk (arrayRun rz s),bindOfOk (allocateRun _ s)]
    split
    · exact ⟨_,_,rfl,(pushed _).trans (if_pos rfl),fun p old => (pushed p).trans (if_neg (old.ne))⟩
    · exact ⟨_,_,rfl,(pushed _).trans (if_pos rfl),fun p old => (pushed p).trans (if_neg (old.ne))⟩
  · exact ⟨rz,s,rfl,rfl,fun _ _ => rfl⟩

section Elements

variable [Scalar α] {i : List Nat}

/- Along an axis of one element the first is read, along any other the coordinate of the output. -/
theorem replicatedFits {ms} (fits : Forall₂ (fun x n => x = 1 ∨ x = n) xs ms) (small : Small xs)
    (inside : Inside i ms) : ∃ js, (words i).zipWith (fun x d => if d = 1 then 0 else x) (words xs) = words js ∧ Inside js xs := by
  induction fits generalizing i with
  | nil => exact ⟨[],by simp,.nil⟩
  | @cons x n xs ms here _ ih =>
    cases inside with
    | @cons k _ is _ below inside =>
      obtain ⟨js,same,rest⟩ := ih small.tail inside
      by_cases one : x = 1
      · subst one
        exact ⟨0 :: js,by simp [same],.cons Nat.zero_lt_one rest⟩
      · have other : Int64.ofNat x ≠ 1 := fun same => one (ofNatInj small.head (by decide) same)
        exact ⟨k :: js,by simp [same,other],.cons (here.resolve_left one ▸ below) rest⟩

theorem broadcastSucceeds {r m} (full : (u.arrayAt r).Full xs) (le : m ≤ ns.length)
    (fits : Forall₂ (fun x n => x = 1 ∨ x = n) xs (ns.drop m)) (inside : Inside i ns) :
    ∃ x, broadcastAt r (words i) u = .ok x u := by
  have length : i.length = ns.length := inside.length_eq
  have rank : xs.length = ns.length - m := by rw [fits.length_eq,length_drop]
  obtain ⟨js,same,within⟩ := replicatedFits fits full.small (forall₂_drop m inside)
  have index : broadcastIndex (u.arrayAt r).type (words i) = .ok (words js) := by
    have axes : (words i).length - (u.arrayAt r).type.rank = m := by rw [full.rank,wordsLength,length,rank]; omega
    rw [broadcastIndex,if_neg (by rw [full.rank,wordsLength,length,rank]; omega),axes,full.dims,← same,
      show (words i).drop m = words (i.drop m) from map_drop.symm]
  exact ⟨_,by
    rw [broadcastAt,bindOfOk (arrayRun r u),index]
    exact (bindOfOk (x := lift _) rfl _).trans (loadRun full within)⟩

omit [Scalar α] in
theorem broadcastAllSucceeds {rs : List Ref} (each : ∀ r ∈ rs, ∃ x : α, broadcastAt r (words i) u = .ok x u) :
    ∃ vs : List α, vs.length = rs.length ∧ broadcastAll (words i) rs u = .ok vs u := by
  induction rs with
  | nil => exact ⟨[],rfl,rfl⟩
  | cons r rs ih =>
    obtain ⟨⟨x,here⟩,rest⟩ := forall_mem_cons.mp each
    obtain ⟨vs,length,ok⟩ := ih rest
    exact ⟨x :: vs,by simp [length],by rw [broadcastAll,bindOfOk here,bindOfOk ok]; rfl⟩

theorem elementsSucceed {rs : List Ref} {q} {f : List α → Outcome α} (full : (s.arrayAt q).Full ns)
    (fits : ∀ r ∈ rs, ∃ xs m, (s.arrayAt r).Full xs ∧ m ≤ ns.length ∧
      Forall₂ (fun x n => x = 1 ∨ x = n) xs (ns.drop m))
    (total : ∀ vs : List α, vs.length = rs.length → ∃ y, f vs = .ok y) :
    ∃ t, each (s.arrayAt q).type.dims (elementPoint f rs q) s = .ok () t := by
  rw [full.dims,eachAlong full.small]
  refine (alongSucceeds (P := StaysFull s) (fun i mem u stays => ?_) (.refl s)).imp fun _ => And.left
  have inside := memGrid.mp mem
  obtain ⟨vs,length,read⟩ := broadcastAllSucceeds fun r mem => by
    obtain ⟨xs,m,fullX,le,fits⟩ := fits r mem
    exact broadcastSucceeds (stays r xs fullX) le fits inside
  obtain ⟨y,value⟩ := total vs length
  obtain ⟨t,stored,stays⟩ := stays.store full inside y
  exact ⟨t,by rw [elementPoint,bindOfOk read,value]; exact stored,stays⟩

end Elements

section Products

variable [Scalar α] {c : Contraction} {batch depth m n : Nat}

structure Contraction.Inside (c : Contraction) (batch depth m n : Nat) (xs ys : List Nat) : Prop where
  counts : c.Counts batch depth
  left : ∀ t < batch, ∀ i < m, ∀ k < depth,
    ∃ js, c.left (Int64.ofNat t) (Int64.ofNat i) (Int64.ofNat k) = words js ∧ Box.Inside js xs
  right : ∀ t < batch, ∀ k < depth, ∀ j < n,
    ∃ js, c.right (Int64.ofNat t) (Int64.ofNat k) (Int64.ofNat j) = .ok (words js) ∧ Box.Inside js ys

theorem addProductsSucceed (within : c.Inside batch depth m n xs ys) {a b : NdArray α} (fullA : a.Full xs)
    (fullB : b.Full ys) {i j} (hi : i < m) (hj : j < n) (v : α) : ∃ w, addProducts c batch depth a b i j v = .ok w := by
  refine foldlMSucceeds (fun p mem v => foldlMSucceeds (fun k mem' v => ?_) v) v
  obtain ⟨js,left,insideA⟩ := within.left p (mem_range.mp mem) i hi k (mem_range.mp mem')
  obtain ⟨ks,right,insideB⟩ := within.right p (mem_range.mp mem) k (mem_range.mp mem') j hj
  exact ⟨_,by rw [addProduct,left,right,fullA.get insideA,Outcome.bindOfOk,Outcome.bindOfOk,fullB.get insideB]; rfl⟩

theorem contractSucceeds (within : c.Inside batch depth m n xs ys) {rx ry q} (fullX : (s.arrayAt rx).Full xs)
    (fullY : (s.arrayAt ry).Full ys) (full : (s.arrayAt q).Full [m, n]) : ∃ t, contract c rx ry q s = .ok () t := by
  rw [contractPoints,full.dims,eachAlong full.small]
  refine (alongSucceeds (P := StaysFull s) (fun idx mem u stays => ?_) (.refl s)).imp fun _ => And.left
  have inside := memGrid.mp mem
  obtain ⟨i,j,rfl⟩ := length_eq_two.mp inside.length_eq
  obtain ⟨hi,hj⟩ : i < m ∧ j < n := by simpa using inside
  obtain ⟨w,sum⟩ := addProductsSucceed within (stays rx xs fullX) (stays ry ys fullY) hi hj
    ((u.arrayAt q).cell [m, n] [i, j])
  obtain ⟨t,stored,stays'⟩ := stays.store full inside w
  refine ⟨t,?_,stays'⟩
  rw [contractPoint,bindOfOk (loadRun (stays q _ full) inside)]
  exact (bindOfOk (accumulateRun within.counts sum) _).trans stored

variable {p k v : Nat}

theorem planeInside (small : k < wordBound) : (planeContraction k).Inside 1 k m n [m, k] [k, n] where
  counts := ⟨rfl,rfl,by decide,small⟩
  left _ _ i hi l hl := ⟨[i, l],rfl,by simp [hi,hl]⟩
  right _ _ l hl j hj := ⟨[l, j],rfl,by simp [hl,hj]⟩

theorem batchInside (smallP : p < wordBound) (smallK : k < wordBound) :
    (batchContraction p k).Inside p k m n [p, m, k] [p, k, n] where
  counts := ⟨rfl,rfl,smallP,smallK⟩
  left t ht i hi l hl := ⟨[t, i, l],rfl,by simp [ht,hi,hl]⟩
  right t ht l hl j hj := ⟨[t, l, j],rfl,by simp [ht,hl,hj]⟩

/- A group of rows has at least one row where one is read. -/
theorem groupedInside (smallK : k < wordBound) (smallV : v < wordBound) (rows : 0 < n → k = p * v) :
    (groupedContraction k v).Inside 1 k m n [m, k] [p, n, v] where
  counts := groupedCounts smallK
  left _ _ i hi l hl := ⟨[i, l],rfl,by simp [hi,hl]⟩
  right _ _ l hl j hj := by
    have below : l < v * p := by rw [Nat.mul_comm,← rows (Nat.zero_lt_of_lt hj)]; exact hl
    have some : 0 < v := Nat.pos_of_mul_pos_right (Nat.zero_lt_of_lt below)
    have nonzero : Int64.ofNat v ≠ 0 := fun zero => Nat.ne_of_gt some (Word.ofNatInj smallV (by decide) zero)
    have smallL : l < wordBound := hl.trans smallK
    refine ⟨[l / v, j, l % v],?_,?_⟩
    · simp only [groupedContraction,if_neg nonzero,Word.divWords smallL smallV,Word.modWords smallL smallV]
      rfl
    · simp [Nat.div_lt_of_lt_mul below,hj,Nat.mod_lt l some]

theorem multipliesInside {kind} {tx ty : ValueType} {zs} (shapes : Multiplies kind tx.dims ty.dims (words zs))
    (dimsX : tx.dims = words xs) (dimsY : ty.dims = words ys) (smallX : Small xs) (smallY : Small ys) (smallZ : Small zs)
    (fits : ys.prod < wordBound) :
    ∃ c batch depth m n, zs = [m, n] ∧ contractionOf kind tx ty = .ok c ∧ c.Inside batch depth m n xs ys := by
  have word {ds : List Int64} {ns : List Nat} (dims : ds = words ns) (small : Small ns) {d : Int64} (mem : d ∈ ds) :
      ∃ n, n < wordBound ∧ d = Int64.ofNat n := by
    obtain ⟨n,inside,rfl⟩ := mem_map.mp (dims ▸ mem)
    exact ⟨n,small n inside,rfl⟩
  have same {ds : List Int64} {ms ns : List Nat} (dims : ds = words ns) (small : Small ns) (shape : ds = words ms)
      (smallM : Small ms) : ns = ms := wordsInj small smallM (dims.symm.trans shape)
  rcases shapes with ⟨rfl,m,n,k,shapeX,shapeY,shapeZ⟩ | ⟨rfl,p,m,n,k,shapeX,shapeY,shapeZ⟩ |
    ⟨rfl,m,n,p,v,shapeX,shapeY,shapeZ⟩
  · obtain ⟨m,smallM,rfl⟩ := word dimsX smallX (d := m) (by simp [shapeX])
    obtain ⟨k,smallK,rfl⟩ := word dimsX smallX (d := k) (by simp [shapeX])
    obtain ⟨n,smallN,rfl⟩ := word dimsY smallY (d := n) (by simp [shapeY])
    obtain rfl : xs = [m, k] := same dimsX smallX shapeX (by simp [Small,smallM,smallK])
    obtain rfl : ys = [k, n] := same dimsY smallY shapeY (by simp [Small,smallN,smallK])
    refine ⟨planeContraction k,1,k,m,n,same rfl smallZ shapeZ (by simp [Small,smallM,smallN]),?_,planeInside smallK⟩
    simp [contractionOf,shapeX,planeContraction,ofOption]
  · obtain ⟨p,smallP,rfl⟩ := word dimsX smallX (d := p) (by simp [shapeX])
    obtain ⟨m,smallM,rfl⟩ := word dimsX smallX (d := m) (by simp [shapeX])
    obtain ⟨k,smallK,rfl⟩ := word dimsX smallX (d := k) (by simp [shapeX])
    obtain ⟨n,smallN,rfl⟩ := word dimsY smallY (d := n) (by simp [shapeY])
    obtain rfl : xs = [p, m, k] := same dimsX smallX shapeX (by simp [Small,smallP,smallM,smallK])
    obtain rfl : ys = [p, k, n] := same dimsY smallY shapeY (by simp [Small,smallP,smallN,smallK])
    refine ⟨batchContraction p k,p,k,m,n,same rfl smallZ shapeZ (by simp [Small,smallM,smallN]),?_,
      batchInside smallP smallK⟩
    simp [contractionOf,shapeX,batchContraction,ofOption,brgemmKind,matmulKind]
  · obtain ⟨m,smallM,rfl⟩ := word dimsX smallX (d := m) (by simp [shapeX])
    obtain ⟨k,smallK,depth⟩ := word dimsX smallX (d := p * v) (by simp [shapeX])
    obtain ⟨p,smallP,rfl⟩ := word dimsY smallY (d := p) (by simp [shapeY])
    obtain ⟨n,smallN,rfl⟩ := word dimsY smallY (d := n) (by simp [shapeY])
    obtain ⟨v,smallV,rfl⟩ := word dimsY smallY (d := v) (by simp [shapeY])
    rw [depth] at shapeX
    obtain rfl : xs = [m, k] := same dimsX smallX shapeX (by simp [Small,smallM,smallK])
    obtain rfl : ys = [p, n, v] := same dimsY smallY shapeY (by simp [Small,smallP,smallN,smallV])
    refine ⟨groupedContraction k v,1,k,m,n,same rfl smallZ shapeZ (by simp [Small,smallM,smallN]),?_,
      groupedInside smallK smallV fun some => ?_⟩
    · simp [contractionOf,shapeX,shapeY,groupedContraction,ofOption,vnniMatmulKind,
        brgemmKind,matmulKind]
    · have whole : p * v ≤ [p, n, v].prod := by
        rw [prod_cons,prod_cons,prod_singleton]
        exact Nat.mul_le_mul_left p (Nat.le_mul_of_pos_left v some)
      exact ofNatInj smallK (whole.trans_lt fits) (depth.symm.trans (mulWords p v))

end Products

structure Supplied (g : Graph) (s : Machine α) (v : Value) (r : Ref) : Prop where
  bound : s.env v = some r
  ofType : (s.arrayAt r).OfType (g.typeOf v)
  nonneg : (g.typeOf v).dims.all (0 ≤ ·) = true
  counted : (g.typeOf v).exactCount < 2 ^ 63

theorem Supplied.full {g : Graph} {v r} (supplied : Supplied g s v r) :
    ∃ ns, (g.typeOf v).dims = words ns ∧ (s.arrayAt r).Full ns := by
  obtain ⟨ns,small,dims⟩ := wordsOfNonneg (by simpa using supplied.nonneg)
  exact ⟨ns,dims,supplied.ofType.full dims small supplied.counted⟩

variable {g : Graph} {id : OpId}

theorem suppliedRefs {vs : List Value} (supplied : ∀ v ∈ vs, ∃ r, Supplied g s v r) :
    ∃ rs : List Ref, vs.map s.env = rs.map some ∧ ∀ r ∈ rs, ∃ v ∈ vs, Supplied g s v r := by
  induction vs with
  | nil => exact ⟨[],rfl,nofun⟩
  | cons v vs ih =>
    obtain ⟨⟨r,here⟩,rest⟩ := forall_mem_cons.mp supplied
    obtain ⟨rs,bound,all⟩ := ih rest
    refine ⟨r :: rs,by simp [here.bound,bound],forall_mem_cons.mpr ⟨⟨v,.head _,here⟩,fun p mem => ?_⟩⟩
    obtain ⟨w,inside,supplied⟩ := all p mem
    exact ⟨w,.tail _ inside,supplied⟩

variable [Scalar α]

theorem elementTotal {kind n} (count : inputCount? kind = some n)
    (elements : kind ∈ [identityKind, reluKind, addKind]) :
    ∃ f : List α → Outcome α, elementOf? kind = some f ∧ ∀ vs, vs.length = n → ∃ y, f vs = .ok y := by
  simp only [mem_cons,not_mem_nil,or_false] at elements
  rcases elements with rfl | rfl | rfl <;> cases count
  · refine ⟨identityOf,rfl,fun vs one => ?_⟩
    obtain ⟨x,rfl⟩ := length_eq_one_iff.mp one
    exact ⟨x,rfl⟩
  · refine ⟨reluOf,rfl,fun vs one => ?_⟩
    obtain ⟨x,rfl⟩ := length_eq_one_iff.mp one
    exact ⟨_,rfl⟩
  · refine ⟨sumOf,rfl,fun vs two => ?_⟩
    obtain ⟨x,y,rfl⟩ := length_eq_two.mp two
    exact ⟨_,rfl⟩

theorem elementwiseSucceeds (ok : verify g (g.op id) = .ok ())
    (kind : (g.op id).kind ∈ [identityKind, reluKind, addKind])
    (supplied : ∀ v, some v ∈ (g.op id).operands → ∃ r, Supplied g s v r)
    (plain : ∀ v, some v ∈ (g.op id).operands.dropLast → (g.typeOf v).isShaped = true ∨ (g.typeOf v).dims = []) :
    ∃ t, primitive g id s = .ok () t := by
  obtain ⟨n,count,length,-⟩ := verifyCount ok
  obtain ⟨vs,z,operands,-,fits⟩ := elementwiseOperands (verifyElementwiseOk ok kind)
  obtain ⟨f,known,total⟩ := elementTotal (α := α) count kind
  obtain ⟨rz,suppliedZ⟩ := supplied z (by simp [operands])
  obtain ⟨rs,bound,inputs⟩ := suppliedRefs fun v (mem : v ∈ vs) => supplied v (by simp [operands,mem])
  obtain ⟨ns,dims,fullZ⟩ := suppliedZ.full
  obtain ⟨q,t,out,atOut,old⟩ := outputSucceeds g id suppliedZ.bound
  rw [elementwiseRun ok known operands bound out]
  refine elementsSucceed (atOut ▸ fullZ) (fun r mem => ?_) fun xs same => total xs ?_
  · obtain ⟨v,inside,here⟩ := inputs r mem
    obtain ⟨xs,dimsX,fullX⟩ := here.full
    obtain ⟨m,le,ys,dimsY,aligned⟩ := broadcastWords dims (plain v (by simp [operands,inside])) (fits v inside)
    obtain rfl : xs = ys := wordsInj fullX.small (fitsSmall aligned fun n mem => fullZ.small n (mem_of_mem_drop mem))
      (dimsX.symm.trans dimsY)
    exact ⟨xs,m,old r (fullValid fullX) ▸ fullX,le,aligned⟩
  · have counts : vs.length = rs.length := by simpa using congrArg List.length bound
    rw [operands,length_append,length_map,length_singleton] at length
    rw [same,← counts,Nat.succ.inj length]

theorem contractionSucceeds (ok : verify g (g.op id) = .ok ())
    (kind : (g.op id).kind = matmulKind ∨ (g.op id).kind = brgemmKind ∨
      (g.op id).kind = vnniMatmulKind) (supplied : ∀ v, some v ∈ (g.op id).operands → ∃ r, Supplied g s v r) :
    ∃ t, primitive g id s = .ok () t := by
  obtain ⟨x,y,z,operands⟩ := contractionOperands ok kind
  obtain ⟨rx,suppliedX⟩ := supplied x (by simp [operands])
  obtain ⟨ry,suppliedY⟩ := supplied y (by simp [operands])
  obtain ⟨rz,suppliedZ⟩ := supplied z (by simp [operands])
  obtain ⟨xs,dimsX,fullX⟩ := suppliedX.full
  obtain ⟨ys,dimsY,fullY⟩ := suppliedY.full
  obtain ⟨zs,dimsZ,fullZ⟩ := suppliedZ.full
  obtain ⟨q,t,out,atOut,old⟩ := outputSucceeds g id suppliedZ.bound
  have validX := fullValid fullX
  have validY := fullValid fullY
  rw [← atOut] at fullZ
  rw [← old rx validX] at fullX
  rw [← old ry validY] at fullY
  have shapes := multiplies ok kind operands
  rw [dimsZ] at shapes
  obtain ⟨c,batch,depth,m,n,rfl,found,inside⟩ :=
    multipliesInside shapes dimsX dimsY fullX.small fullY.small fullZ.small fullY.fits
  have others : (g.op id).kind ∉ [identityKind, reluKind, addKind] := by
    rcases kind with kind | kind | kind <;> (rw [kind]; decide)
  have types : contractionOf (g.op id).kind (t.arrayAt rx).type (t.arrayAt ry).type = .ok c := by
    rw [old rx validX,old ry validY,suppliedX.ofType.type,suppliedY.ofType.type,found]
  rw [primitiveRun ok others operands suppliedX.bound suppliedY.bound out types]
  exact contractSucceeds inside fullX fullY fullZ

/-- Verified primitives execute safely. A primitive that passes the check succeeds on all arrays of the types of its
operands, shared or not. A type that is not shaped must have no extents, since the check of a broadcast does not look at
them and evaluation does. -/
theorem primitiveSucceeds (ok : Primitive.verify g (g.op id) = .ok ())
    (supplied : ∀ v, some v ∈ (g.op id).operands → ∃ r, Supplied g s v r)
    (plain : ∀ v, some v ∈ (g.op id).operands.dropLast → (g.typeOf v).isShaped = true ∨ (g.typeOf v).dims = []) :
    ∃ t, primitive g id s = .ok () t := by
  obtain ⟨_,count,-,-⟩ := Primitive.verifyCount ok
  rcases Primitive.countCases count with ⟨identity | relu,-⟩ | ⟨add | contracts,-⟩
  · exact elementwiseSucceeds ok (by simp [identity]) supplied plain
  · exact elementwiseSucceeds ok (by simp [relu]) supplied plain
  · exact elementwiseSucceeds ok (by simp [add]) supplied plain
  · exact contractionSucceeds ok contracts supplied

def primitiveOn (kind : String) (ts : List ValueType) : Graph where
  name := "main"
  ops := #[⟨kind,(range ts.length).map fun i => some (.argument 0 i),[],OrderedMap.empty,none,some 0⟩]
  blocks := #[⟨ts.map .ofType,[0],none⟩]

def squareAlone : Machine Int := ⟨#[⟨.buffer .f32 [2, 2],#[1, 2, 3, 4]⟩],fun _ => some 0⟩

theorem primitiveSucceedsShared :
    ∃ t, primitive (primitiveOn Primitive.matmulKind (List.replicate 3 (.buffer .f32 [2, 2]))) 0 squareAlone = .ok () t := by
  have type {v : Value} (mem : some v ∈ (List.range 3).map fun i => some (.argument 0 i)) :
      (primitiveOn Primitive.matmulKind (List.replicate 3 (.buffer .f32 [2, 2]))).typeOf v = .buffer .f32 [2, 2] := by
    obtain ⟨i,below,rfl⟩ : ∃ i < 3, Value.argument 0 i = v := by simpa using mem
    interval_cases i <;> rfl
  have four : (ValueType.buffer .f32 [2, 2]).exactCount = 4 := by decide +kernel
  refine primitiveSucceeds (by decide +kernel) (fun v mem => ⟨0,rfl,?_,?_,?_⟩) (fun v mem => .inl ?_)
  · rw [type mem]
    exact ⟨rfl,four.symm⟩
  · rw [type mem]
    decide +kernel
  · rw [type mem,four]
    norm_num
  · rw [type (List.mem_of_mem_dropLast mem)]
    rfl

def scalarOfExtents : Graph := primitiveOn identityKind [⟨.scalar,.f32,[2, 2]⟩, .buffer .f32 [2]]

def besideVector : Machine Int :=
  ⟨#[⟨⟨.scalar,.f32,[2, 2]⟩,#[1, 2, 3, 4]⟩, ⟨.buffer .f32 [2],#[0, 0]⟩],
    fun v => if v = .argument 0 0 then some 0 else some 1⟩

theorem extentsOfScalarUnchecked : Primitive.verify scalarOfExtents (scalarOfExtents.op 0) = .ok () ∧
    (∀ v, some v ∈ (scalarOfExtents.op 0).operands → ∃ r, Supplied scalarOfExtents besideVector v r) ∧
    ¬ ∃ t, primitive scalarOfExtents 0 besideVector = .ok () t := by
  have matrix : (scalarOfExtents.typeOf (.argument 0 0)).exactCount = 4 := by decide +kernel
  have vector : (scalarOfExtents.typeOf (.argument 0 1)).exactCount = 2 := by decide +kernel
  refine ⟨by decide +kernel,fun v mem => ?_,?_⟩
  · obtain rfl | rfl : v = .argument 0 0 ∨ v = .argument 0 1 := by
      simpa using (show some v ∈ [some (.argument 0 0), some (.argument 0 1)] from mem)
    · exact ⟨0,rfl,⟨rfl,matrix.symm⟩,by decide +kernel,by rw [matrix]; norm_num⟩
    · exact ⟨1,rfl,⟨rfl,vector.symm⟩,by decide +kernel,by rw [vector]; norm_num⟩
  · rintro ⟨t,ran⟩
    have stops : (match primitive scalarOfExtents 0 besideVector with
        | .ok _ _ => true
        | .error _ _ => false) = false := by decide +kernel
    rw [ran] at stops
    cases stops

end TileLower.Eval

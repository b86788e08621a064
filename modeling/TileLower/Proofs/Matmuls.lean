import TileLower.Proofs.Blockings

/-!
Blocked matrix multiplications. For each element of the output the body runs on the same pairs of elements in the same
order, tile by tile. Main statement: `Blocking.matmulRefines`.
-/
namespace TileLower.Blocking

open Box (Inside grid sections)
open Eval

section Planes

variable {T : Tiling 2} {a b : Nat} (inner : T.inner = [0, 1]) (tiles : T.tiles = [a, b])

include inner tiles

theorem planeTiles : T.tile 0 = a ∧ T.tile 1 = b := by simp [Tiling.tile,inner,tiles]

theorem planeInOrder (order : T.order = [0, 1]) (i j m n : Nat) : T.blocked [i, j] = [i / a, j / b, i % a, j % b] ∧
    T.packed [m, n] = [(m + a - 1) / a, (n + b - 1) / b, a, b] := by
  simp [Tiling.blocked,Tiling.packed,planeTiles inner tiles,inner,tiles,order]

theorem planeSwapped (order : T.order = [1, 0]) (i j m n : Nat) : T.blocked [i, j] = [j / b, i / a, i % a, j % b] ∧
    T.packed [m, n] = [(n + b - 1) / b, (m + a - 1) / a, a, b] := by
  simp [Tiling.blocked,Tiling.packed,planeTiles inner tiles,inner,tiles,order]

end Planes

theorem ncncParts {T : Tiling 2} {a b} (small : Small [a, b])
    (describes : (Layout.ncnc (Int64.ofNat a) (Int64.ofNat b)).Describes T) :
    T.inner = [0, 1] ∧ T.tiles = [a, b] ∧ T.order = [0, 1] :=
  describes.parts (by decide) [0, 1] [a, b] [] (by decide) small (by decide) rfl

theorem kcckParts {T : Tiling 2} {a b} (small : Small [a, b])
    (describes : (Layout.kcck (Int64.ofNat a) (Int64.ofNat b)).Describes T) :
    T.inner = [0, 1] ∧ T.tiles = [a, b] ∧ T.order = [1, 0] :=
  describes.parts (by decide) [0, 1] [a, b] [1, 0] (by decide) small (by decide) rfl

def matmulLoops (I J K : Nat) (pos : ∀ t ∈ [I, J, K], 0 < t) (small : Small [I, J, K]) : Tiling 3 where
  inner := [0, 1, 2]
  tiles := [I, J, K]
  order := [0, 1, 2]
  innerLt := by decide
  innerNodup := by decide
  sameLength := rfl
  tilesPos := pos
  tilesSmall := small
  orderPerm := .refl _

section Loops

variable {I J K : Nat} (pos : ∀ t ∈ [I, J, K], 0 < t) (small : Small [I, J, K])

theorem loopsBlocked (i j k : Nat) : (matmulLoops I J K pos small).blocked [i, j, k] =
    [i / I, j / J, k / K, i % I, j % J, k % K] := by
  simp [Tiling.blocked,Tiling.tile,matmulLoops,List.idxOf_cons]

theorem loopsPacked (i j k : Nat) : (matmulLoops I J K pos small).packed [i, j, k] =
    [(i + I - 1) / I, (j + J - 1) / J, (k + K - 1) / K, I, J, K] := by
  simp [Tiling.packed,Tiling.tile,matmulLoops,List.idxOf_cons]

end Loops

theorem insideThree {i a b c} (inside : Inside i [a, b, c]) : ∃ x y z, i = [x, y, z] ∧ x < a ∧ y < b ∧ z < c := by
  rcases inside with _ | ⟨ha,_ | ⟨hb,_ | ⟨hc,⟨⟩⟩⟩⟩
  exact ⟨_,_,_,rfl,ha,hb,hc⟩

/- Tile by tile, the points of one element are the points that they were, in the same order. -/
theorem matmulOrder {I J K a b c} (pos : ∀ t ∈ [I, J, K], 0 < t) (small : Small [I, J, K]) (i j : Nat) :
    (grid [a, b, c, I, J, K]).filter (pick [0, 1, 3, 4] · = [i / I, j / J, i % I, j % J]) =
      ((grid [a * I, b * J, c * K]).filter (pick [0, 1] · = [i, j])).map (matmulLoops I J K pos small).blocked := by
  obtain ⟨posI,posJ,posK⟩ : 0 < I ∧ 0 < J ∧ 0 < K := by simpa using pos
  have flat : (grid [a * I, b * J, c * K]).filter (pick [0, 1] · = [i, j]) =
      sections [some i, some j, none] [a * I, b * J, c * K] := by
    refine Box.filterGrid rfl fun x inside => ?_
    rcases inside with _ | ⟨-,_ | ⟨-,_ | ⟨-,⟨⟩⟩⟩⟩
    simp [pick,Box.Meets]
  have blocked : (grid [a, b, c, I, J, K]).filter (pick [0, 1, 3, 4] · = [i / I, j / J, i % I, j % J]) =
      sections [some (i / I), some (j / J), none, some (i % I), some (j % J), none] [a, b, c, I, J, K] := by
    refine Box.filterGrid rfl fun x inside => ?_
    rcases inside with _ | ⟨-,_ | ⟨-,_ | ⟨-,_ | ⟨-,_ | ⟨-,_ | ⟨-,⟨⟩⟩⟩⟩⟩⟩⟩
    simp [pick,Box.Meets]
  rw [flat,blocked]
  have left : i < a * I ↔ i / I < a := (Nat.div_lt_iff_lt_mul posI).symm
  have right : j < b * J ↔ j / J < b := (Nat.div_lt_iff_lt_mul posJ).symm
  simp only [sections,← left,← right,Nat.mod_lt i posI,Nat.mod_lt j posJ,if_true]
  split
  · split
    · rw [← NdArray.rangeBlocks c K]
      simp only [List.map_flatMap,List.flatMap_map,List.flatMap_assoc,List.map_cons,List.map_nil]
      refine List.flatMap_congr fun r _ => List.flatMap_congr fun k mem => ?_
      have below := List.mem_range.mp mem
      have quotient : (r * K + k) / K = r := by
        rw [Nat.mul_comm,Nat.mul_add_div posK,Nat.div_eq_of_lt below,Nat.add_zero]
      rw [loopsBlocked,quotient,Nat.mul_add_mod',Nat.mod_eq_of_lt below]
    · rfl
  · rfl

section Extents

variable {tx ty tz : ValueType} {g : Graph} {vs : List Value} (types : vs.map g.typeOf = [tx, ty, tz])

include types

theorem flatExtents {m n k k' m' n'} (dimsX : tx.dims = words [m, k]) (dimsY : ty.dims = words [k', n])
    (dimsZ : tz.dims = words [m', n']) (small : Small [m, n, k]) :
    loopExtents g Structured.matmulMaps (vs.map some) = .ok (words [m, n, k]) := by
  obtain ⟨hm,hn,hk⟩ : m < wordBound ∧ n < wordBound ∧ k < wordBound := by simpa [Small] using small
  exact loopExtentsOf (n := 3) types rfl dimsX dimsY dimsZ rfl rfl rfl (inferUnknown rfl (inferUnknown rfl rfl))
    (inferKnown rfl hk (inferUnknown rfl rfl)) (inferKnown rfl hm (inferKnown rfl hn rfl)) small

theorem blockedExtents {a b c c' a' b' I J K K' I' J'} (dimsX : tx.dims = words [a, c, I, K])
    (dimsY : ty.dims = words [b, c', K', J]) (dimsZ : tz.dims = words [a', b', I', J'])
    (small : Small [a, b, c, I, J, K]) : loopExtents g matmulMaps (vs.map some) = .ok (words [a, b, c, I, J, K]) := by
  obtain ⟨ha,hb,hc,hI,hJ,hK⟩ : a < wordBound ∧ b < wordBound ∧ c < wordBound ∧ I < wordBound ∧ J < wordBound ∧
    K < wordBound := by simpa [Small] using small
  exact loopExtentsOf (n := 6) types rfl dimsX dimsY dimsZ rfl rfl rfl
    (inferUnknown rfl (inferUnknown rfl (inferUnknown rfl (inferUnknown rfl rfl))))
    (inferUnknown rfl (inferKnown rfl hc (inferKnown rfl hK (inferUnknown rfl rfl))))
    (inferKnown rfl ha (inferKnown rfl hb (inferKnown rfl hI (inferKnown rfl hJ rfl)))) small

end Extents

section Operands

variable {g : Graph} {id : OpId} {x y z : Value} {I J K : Nat} {tx ty tz : ValueType}
  (pos : ∀ t ∈ [I, J, K], 0 < t) (small : Small [I, J, K])
  {m k k' n m' n' : Nat} {X : Tiling [m, k].length} {Y : Tiling [k', n].length} {Z : Tiling [m', n'].length}
  (tiledX : TiledAs (.ncnc (Int64.ofNat I) (Int64.ofNat K)) (g.typeOf x) tx [m, k] X)
  (tiledY : TiledAs (.kcck (Int64.ofNat K) (Int64.ofNat J)) (g.typeOf y) ty [k', n] Y)
  (tiledZ : TiledAs (.ncnc (Int64.ofNat I) (Int64.ofNat J)) (g.typeOf z) tz [m', n'] Z)

include tiledX tiledY

theorem matmulDivides : (matmulLoops I J K pos small).Divides [m, n, k] := by
  obtain ⟨smallI,smallJ,smallK⟩ : I < wordBound ∧ J < wordBound ∧ K < wordBound := by simpa [Small] using small
  obtain ⟨innerX,tilesX,-⟩ := ncncParts (by simp [Small,smallI,smallK]) tiledX.describes
  obtain ⟨innerY,tilesY,-⟩ := kcckParts (by simp [Small,smallJ,smallK]) tiledY.describes
  obtain ⟨tileI,tileK⟩ := planeTiles innerX tilesX
  obtain ⟨-,tileJ⟩ := planeTiles innerY tilesY
  have rows := tiledX.whole 0
  have columns := tiledY.whole 1
  have depth := tiledX.whole 1
  rw [tileI] at rows
  rw [tileJ] at columns
  rw [tileK] at depth
  rintro (_ | _ | _ | a)
  · exact rows
  · exact columns
  · exact depth
  · exact Nat.dvd_zero _

include tiledZ

theorem matmulLoopsOf :
    Loops X Y Z [g.typeOf x, g.typeOf y, g.typeOf z] [tx, ty, tz] ⟨3,[.dim 0, .dim 2]⟩ ⟨3,[.dim 2, .dim 1]⟩ ⟨3,
      [.dim 0, .dim 1]⟩ ⟨6,[.dim 0, .dim 2, .dim 3, .dim 5]⟩ ⟨6,[.dim 1, .dim 2, .dim 5, .dim 4]⟩ ⟨6,
      [.dim 0, .dim 1, .dim 3, .dim 4]⟩ [m, n, k] ((matmulLoops I J K pos small).packed [m, n, k]) (pick [0,
      1]) (pick [0, 1, 3, 4]) (matmulLoops I J K pos small).blocked := by
  obtain ⟨smallI,smallJ,smallK⟩ : I < wordBound ∧ J < wordBound ∧ K < wordBound := by simpa [Small] using small
  obtain ⟨innerX,tilesX,orderX⟩ := ncncParts (by simp [Small,smallI,smallK]) tiledX.describes
  obtain ⟨innerY,tilesY,orderY⟩ := kcckParts (by simp [Small,smallJ,smallK]) tiledY.describes
  obtain ⟨innerZ,tilesZ,orderZ⟩ := ncncParts (by simp [Small,smallI,smallJ]) tiledZ.describes
  have packedX := (planeInOrder innerX tilesX orderX 0 0 m k).2
  have packedY := (planeSwapped innerY tilesY orderY 0 0 k' n).2
  have packedZ := (planeInOrder innerZ tilesZ orderZ 0 0 m' n').2
  obtain ⟨smallM,smallK'⟩ : m < wordBound ∧ k < wordBound := by simpa [Small] using tiledX.small
  obtain ⟨-,smallN⟩ : k' < wordBound ∧ n < wordBound := by simpa [Small] using tiledY.small
  have blockedX := packedX ▸ X.packedSmall tiledX.rounds
  have blockedY := packedY ▸ Y.packedSmall tiledY.rounds
  simp only [Small,List.mem_cons,List.not_mem_nil,or_false,forall_eq_or_imp,forall_eq] at blockedX blockedY
  have dimsX := tiledX.blockedDims
  have dimsY := tiledY.blockedDims
  have dimsZ := tiledZ.blockedDims
  rw [packedX] at dimsX
  rw [packedY] at dimsY
  rw [packedZ] at dimsZ
  have divides : (matmulLoops I J K pos small).Divides [m, n, k] :=
    matmulDivides pos small tiledX tiledY
  have smallL : Small ((matmulLoops I J K pos small).packed [m, n, k]) := by
    rw [loopsPacked]
    simp [Small,blockedX,blockedY]
  refine {
    small := by simp [Small,smallM,smallN,smallK']
    small' := smallL
    extents := fun g vs types => flatExtents types tiledX.flatDims tiledY.flatDims tiledZ.flatDims
      (by simp [Small,smallM,smallN,smallK'])
    extents' := fun g vs types => ?_
    writes := fun i inside => ?_
    writes' := fun i inside => ?_
    left := fun i inside => ?_
    right := fun i inside => ?_
    onto := fun i inside => ?_
    keys := fun i inside => ?_ }
  · rw [loopsPacked]
    exact blockedExtents types dimsX dimsY dimsZ (loopsPacked pos small m n k ▸ smallL)
  · obtain ⟨a,b,c,rfl,ha,hb,hc⟩ := insideThree inside
    exact ⟨rfl,rfl,by simp [Small,pick,ha.trans smallM,hb.trans smallN]⟩
  · rw [loopsPacked] at inside
    have smallI := NdArray.insideSmall inside (loopsPacked pos small m n k ▸ smallL)
    rcases inside with _ | ⟨-,_ | ⟨-,_ | ⟨-,_ | ⟨-,_ | ⟨-,_ | ⟨-,⟨⟩⟩⟩⟩⟩⟩⟩
    rw [packedZ]
    refine ⟨rfl,rfl,?_⟩
    simp [Small,pick] at smallI ⊢
    simp [smallI]
  · obtain ⟨a,b,c,rfl,ha,hb,hc⟩ := insideThree inside
    intro x within same
    obtain rfl : [a, c] = x := wordsInj (by simp [Small,ha.trans smallM,hc.trans smallK'])
      (NdArray.insideSmall within tiledX.small) (Except.ok.inj same)
    rw [loopsBlocked,(planeInOrder innerX tilesX orderX a c 0 0).1]
    rfl
  · obtain ⟨a,b,c,rfl,ha,hb,hc⟩ := insideThree inside
    intro x within same
    obtain rfl : [c, b] = x := wordsInj (by simp [Small,hb.trans smallN,hc.trans smallK'])
      (NdArray.insideSmall within tiledY.small) (Except.ok.inj same)
    rw [loopsBlocked,(planeSwapped innerY tilesY orderY c b 0 0).1]
    rfl
  · exact ⟨_,(matmulLoops I J K pos small).flatInside rfl divides inside,
      (matmulLoops I J K pos small).blockedFlat ((matmulLoops I J K pos small).insideTiles inside)⟩
  · obtain ⟨a,b,c,rfl,ha,hb,hc⟩ := insideThree inside
    rw [loopsBlocked]
    exact (planeInOrder innerZ tilesZ orderZ a b 0 0).1.symm

variable (α : Type) [Scalar α] in
theorem matmulContracts (fits : ∀ ns ∈ [[m, k], [k', n], [m', n']], ns.prod < wordBound) :
    Contracts α g id x y z (.ncnc (Int64.ofNat I) (Int64.ofNat K)) (.kcck (Int64.ofNat K) (Int64.ofNat J))
      (.ncnc (Int64.ofNat I) (Int64.ofNat J)) tx ty tz ⟨3,[.dim 0, .dim 2]⟩
      ⟨3,[.dim 2, .dim 1]⟩ ⟨3,[.dim 0, .dim 1]⟩ ⟨6,[.dim 0, .dim 2, .dim 3, .dim 5]⟩
      ⟨6,[.dim 1, .dim 2, .dim 5, .dim 4]⟩ ⟨6,[.dim 0, .dim 1, .dim 3, .dim 4]⟩ X Y Z [m, n, k]
      ((matmulLoops I J K pos small).packed [m, n, k]) (pick [0, 1]) (pick [0, 1, 3, 4])
      (matmulLoops I J K pos small).blocked where
  left := tiledX
  right := tiledY
  out := tiledZ
  fits := fits
  loops := matmulLoopsOf pos small tiledX tiledY tiledZ
  folds _ _ e inside _ _ v w ok := by
    refine ⟨_,?_,fun i mem => Box.memGrid.mp (List.mem_filter.mp mem).1,ok⟩
    obtain ⟨smallI,smallJ,-⟩ : I < wordBound ∧ J < wordBound ∧ K < wordBound := by simpa [Small] using small
    obtain ⟨innerZ,tilesZ,orderZ⟩ := ncncParts (by simp [Small,smallI,smallJ]) tiledZ.describes
    have divides := matmulDivides pos small tiledX tiledY
    have rows : (m + I - 1) / I * I = m := Tiling.wholeTiles (pos I (by simp)) (divides 0)
    have columns : (n + J - 1) / J * J = n := Tiling.wholeTiles (pos J (by simp)) (divides 1)
    have depth : (k + K - 1) / K * K = k := Tiling.wholeTiles (pos K (by simp)) (divides 2)
    rcases inside with _ | ⟨-,_ | ⟨-,⟨⟩⟩⟩
    rename_i i j
    have order := matmulOrder (a := (m + I - 1) / I) (b := (n + J - 1) / J) (c := (k + K - 1) / K) pos small i j
    rw [rows,columns,depth] at order
    rw [loopsPacked,(planeInOrder innerZ tilesZ orderZ i j 0 0).1,order]

end Operands

section Rewrite

variable {α : Type} [Scalar α] {g : Graph} {id : OpId} {ti tj tk : Int64} {d : Draft} {memory : Array (NdArray α)}
  {args : List Ref}

theorem matmulBlocked (formed : g.WellFormed) (mem : id ∈ g.walkAll) (kind : (g.op id).kind = Structured.matmulKind)
    (eligible : Eligible g id [.ncnc ti tk, .kcck tk tj, .ncnc ti tj])
    (drafted : (matmul [ti, tj, tk]).draft ⟨(matmul [ti, tj, tk]).name,id⟩ (.ofGraph g) = .ok () d)
    (valid : ∀ r ∈ args, r < memory.size) (made : MadeArguments memory args) : RefinesBy g d id memory args := by
  obtain ⟨b,scope,place⟩ := Graph.atOfWalk .body mem
  have ready := matmulReady (formed.sightOf mem) drafted
  obtain ⟨_,⟨-,positive⟩,drafted⟩ := Step.read checkTilesOk drafted
  obtain ⟨_,⟨-,tensors⟩,drafted⟩ := Step.read checkOperandsOk drafted
  obtain ⟨x,y,z,tx,ty,tz,blocks⟩ := blockWithOk eligible.two eligible.shapes.length_eq
    (fun v used => (place.uses formed used).below) tensors drafted
  simp only [List.forall_mem_cons] at positive
  obtain ⟨I,smallI,posI,rfl⟩ := Word.existsOfPos positive.1
  obtain ⟨J,smallJ,posJ,rfl⟩ := Word.existsOfPos positive.2.1
  obtain ⟨K,smallK,posK,rfl⟩ := Word.existsOfPos positive.2.2.1
  have pos : ∀ t ∈ [I, J, K], 0 < t := by simp [posI,posJ,posK]
  have small : Small [I, J, K] := by simp [Small,smallI,smallJ,smallK]
  have isMatmul : evalOp g id = (structured g id : Exec α Unit) := by
    simp only [evalOp,Structured.isStructured,kind]
    rfl
  have indexing (maps : List AffineMap) (found : indexingMaps (g.op id) = .ok maps) :
      maps = [⟨3,[.dim 0, .dim 2]⟩, ⟨3,[.dim 2, .dim 1]⟩, ⟨3,[.dim 0, .dim 1]⟩] := by
    rw [indexingMaps,kind] at found
    exact (Except.ok.inj found).symm
  refine contractionRefines blocks formed mem ready (by rw [Structured.isStructured,kind]; rfl) isMatmul indexing eligible
    (by decide) ?_ valid made
  intro nx ny nz X Y Z tiledX tiledY tiledZ rankX rankY rankZ fits
  obtain ⟨m,k,rfl⟩ := List.length_eq_two.mp rankX
  obtain ⟨k',n,rfl⟩ := List.length_eq_two.mp rankY
  obtain ⟨m',n',rfl⟩ := List.length_eq_two.mp rankZ
  exact ⟨_,_,_,_,_,matmulContracts pos small tiledX tiledY tiledZ α fits⟩

/-- A multiplication that is blocked does what it did: for each element of the output the body runs on the same pairs of
elements in the same order. -/
theorem matmulRefines (ok : g.verify = .ok ()) (once : g.walkAll.Nodup) (mem : id ∈ g.walkAll)
    (kind : (g.op id).kind = Structured.matmulKind) (two : Structured.numInputs (g.op id) = 2)
    (region : (g.op id).region.isSome)
    (shapes : List.Forall₂ (fun v l => ∀ a, v = some a → Blockable l (g.typeOf a)) (g.op id).operands
      [.ncnc ti tk, .kcck tk tj, .ncnc ti tj])
    (declared : ∀ j ∈ (g.block Graph.body).ops, g.Declared j)
    (drafted : (matmul [ti, tj, tk]).draft ⟨(matmul [ti, tj, tk]).name, id⟩ (.ofGraph g) = .ok () d)
    (valid : ∀ r ∈ args, r < memory.size) (made : MadeArguments memory args) :
    (d.commit id).fault = none ∧ Refines g (d.commit id).graph memory args :=
  matmulBlocked (Graph.wellFormedOfVerify ok once) mem kind ⟨two,region,shapes,declared⟩ drafted valid made

end Rewrite

def multiplying := computing Structured.matmulKind OrderedMap.empty

def uneven : Graph :=
  multiplying [.tensor .f32 [2, 4], .tensor .f32 [4, 2], .tensor .f32 [2, 2]] [] (.argument 0 0) [0, 1]

theorem matmulRefinesUneven : uneven.verify = .ok () ∧ uneven.walkAll.Nodup ∧
    ∃ d, (matmul [1, 2, 2]).draft ⟨(matmul [1, 2, 2]).name, 0⟩ (.ofGraph uneven) = .ok () d ∧
      (d.commit 0).fault = none ∧ Refines uneven (d.commit 0).graph
        #[(⟨.tensor .f32 [2, 4], #[1, 2, 3, 4, 5, 6, 7, 8]⟩ : NdArray Int),
          ⟨.tensor .f32 [4, 2], #[1, 2, 3, 4, 5, 6, 7, 8]⟩, ⟨.tensor .f32 [2, 2], #[1, 1, 1, 1]⟩] [0, 1, 2] := by
  have ok : uneven.verify = .ok () := by decide +kernel
  have once : uneven.walkAll.Nodup := by decide +kernel
  obtain ⟨d,drafted⟩ := draftedOf (matmul [1, 2, 2]) 0 uneven (by decide +kernel)
  refine ⟨ok,once,d,drafted,matmulRefines ok once (by decide +kernel) rfl rfl rfl ?_ (by decide +kernel) drafted
    (by decide) (by decide +kernel)⟩
  refine .cons ?_ (.cons ?_ (.cons ?_ .nil)) <;> rintro _ ⟨⟩ <;> decide +kernel

theorem matmulsChange :
    beforeThen returned ((matmul [2, 2, 2]).committed 0)
      (multiplying (List.replicate 3 (.tensor .f32 [2, 2])) [] (.argument 0 0) [0, 0, 1])
      [#[1, 2, 3, 4], #[1, 2, 3, 4], #[1, 2, 3, 4]] = some ([#[8, 12, 18, 26]], none) ∧
    beforeThen returned ((matmul [7, 1, 1]).committed 0)
      (multiplying [.tensor .f32 [Int64.maxValue, 0], .tensor .f32 [0, 0],
      .tensor .f32 [Int64.maxValue, 0]] [] (.argument 0 0) [0, 1]) [#[], #[], #[]] = some ([#[]], none) ∧
    beforeThen returned ((matmul [2, 2, 2]).committed 0)
      (multiplying [.tensor .f32 [4294967296, 4294967296], .tensor .f32 [4294967296, 0],
      .tensor .f32 [4294967296, 0]] [] (.argument 0 0) [0, 1]) [#[], #[], #[]] = some ([#[]], none) ∧
    beforeThen returned ((matmul [2, 2, 2]).committed 1)
      (multiplying [.tensor .f32 [1], .tensor .f32 [2, 0], .tensor .f32 [2, 0]]
      [Propagation.plain Memory.castKind [.argument 0 0] [.tensor .f32 [2, 2]]] (.result 0 0) [0, 1, 2])
      [#[1], #[], #[]] = some ([#[]], none) ∧
    beforeThen returned ((matmul [2, 2, 2]).committed 1)
      (multiplying [.tensor .f32 [1], .tensor .f32 [2, 0], .tensor .f32 [2, 0]]
      [Propagation.plain Structured.copyKind [.argument 0 0, .argument 0 0] [.tensor .f32 [2, 2]]] (.result 0 0)
      [0, 1, 2]) [#[1], #[], #[]] = some ([#[]], none) := by
  refine ⟨?_,?_,?_,?_,?_⟩ <;> decide +kernel

end TileLower.Blocking

import TileLower.Proofs.Accumulations
import TileLower.Proofs.BlockAttempts
import TileLower.Proofs.Bodies
import TileLower.Proofs.Matmuls

/-!
Multiplications whose right operand is packed in groups of rows become primitives that add the same products in the
same order. Main statement: `Blocking.vnniRefines`.
-/
namespace TileLower.Blocking

open Draft

open Box (Inside grid sections)
open Relayout Structured Eval

section Draft

variable {g : Graph} {s : Site} {d e : Draft} {x y z : Value} {v : Int64}

theorem replaceWithNewOk (ops : List Operation) {o id}
    (ok : replaceWithNew id (g.ops.size + ops.length) { staged g ops with graph := (g.pushAll ops).push o } = .ok () e) :
    e = { staged g (ops ++ [o]) with
        replacements := [(id, ((g.pushAll (ops ++ [o])).resultsOf (g.ops.size + ops.length)).map some)] } := by
  rw [replaceWithNew,Step.bindOfOk (stagedList g ops o)] at ok
  obtain ⟨_,rfl,ok⟩ := Step.read Drafting.graphOk ok
  obtain ⟨_,-,-,rfl⟩ := replaceOk ok
  rfl

structure Groups (g : Graph) (id : OpId) (x y z : Value) (v : Int64) (t : ValueType) (d : Draft) : Prop where
  positive : 0 < v
  packed : PackedAs (.vnni v) (g.typeOf y) t
  draft : d = { staged g (groupedOps g.ops.size y (.vnni v) t ++ [groupedMatmul g.ops.size x z (g.typeOf z)]) with
    replacements := [(id, ((g.pushAll (groupedOps g.ops.size y (.vnni v) t ++
      [groupedMatmul g.ops.size x z (g.typeOf z)])).resultsOf (g.ops.size + 2)).map some)] }

theorem vnniMatmulOk (two : numInputs (g.op s.op) = 2) (operands : (g.op s.op).operands = [some x, some y, some z])
    (below : ∀ a ∈ [x, y, z], a.Below g.ops.size) (tensor : (g.typeOf y).isTensor = true)
    (ok : (vnniMatmul [v]).draft s (.ofGraph g) = .ok () e) : ∃ t, Groups g s.op x y z v t e := by
  obtain ⟨_,⟨-,positive⟩,ok⟩ := Step.read checkTilesOk ok
  obtain ⟨_,-,ok⟩ := Step.read checkOperandsOk ok
  obtain ⟨⟨ins,outs⟩,⟨inputs,outputs⟩,ok⟩ := Step.read operandsAtOk ok
  obtain ⟨rfl,rfl⟩ := twoInputs two operands inputs outputs
  obtain ⟨_,rfl,ok⟩ := Step.read Drafting.graphOk ok
  obtain ⟨_,ok⟩ := Step.skip checkHalfReads ok
  obtain ⟨_,at_,ok⟩ := Step.read nthOk ok
  cases at_
  obtain ⟨_,-,ok⟩ := Step.read checkDividesOk ok
  obtain ⟨_,_,ran,ok⟩ := Step.bindOk.mp ok
  rw [← stagedNil] at ran
  obtain ⟨_,_,first,ran⟩ := Step.bindOk.mp ran
  have flat : (g.typeOf y).isBuffer = false := by
    rw [ValueType.isBuffer,of_decide_eq_true tensor]
    rfl
  obtain ⟨_,t,same,packed,rfl,rfl⟩ := packOk
    (fun a same => by cases same; exact ⟨below y (by simp),flat⟩) (Site.expectOk.mp first)
  cases same
  obtain ⟨_,_,rest,ran⟩ := Step.bindOk.mp ran
  cases ran
  cases rest
  refine ⟨t,positive v (by simp),packed,?_⟩
  obtain ⟨_,at_,ok⟩ := Step.read nthOk ok
  cases at_
  obtain ⟨_,at_,ok⟩ := Step.read nthOk ok
  cases at_
  change (Primitive.make Primitive.vnniMatmulKind [some x, some (.result (g.ops.size + 1) 0)] (some z) >>=
    replaceWithNew s.op) (.staged g (groupedOps g.ops.size y (.vnni v) t)) = .ok () e at ok
  have size : (staged g (groupedOps g.ops.size y (.vnni v) t)).graph.ops.size = g.ops.size + 2 := g.pushAllSize _
  have typeZ : (staged g (groupedOps g.ops.size y (.vnni v) t)).graph.typeOf z = g.typeOf z :=
    g.pushAllType _ (below z (by simp))
  rw [Step.bindOfOk groupedMatmulRun,size,typeZ] at ok
  exact replaceWithNewOk _ ok

theorem Groups.swap (α : Type) [Scalar α] {id t} (groups : Groups g id x y z v t d) (formed : g.WellFormed)
    (mem : id ∈ g.walkAll) (ready : Prepared g id (g.Seen id) d)
    (kind : (g.op id).kind = matmulKind) (tensor : (g.typeOf z).isTensor = true) : (d.commit id).fault = none ∧
      (∃ b, Swap α g (d.commit id).graph id b (List.range' g.ops.size 3) [.result (g.ops.size + 2) 0] ∧
        ∀ m o, (groupedOps g.ops.size y (.vnni v) t ++ [groupedMatmul g.ops.size x z (g.typeOf z)])[m]? = some o →
          (d.commit id).graph.IsAt (g.ops.size + m) o) ∧
      (g.op id).results.length = 1 ∧ g.typeOf (.result id 0) = g.typeOf z := by
  obtain ⟨target,vals,ready⟩ := ready
  have draft := groups.draft
  have last := g.pushAllNew (groupedOps g.ops.size y (.vnni v) t ++ [groupedMatmul g.ops.size x z (g.typeOf z)]) (m := 2) rfl
  obtain rfl := ready.unmoved (by rw [draft]; rfl)
  obtain rfl : vals = [.result (g.ops.size + 2) 0] := by
    refine ready.values ?_
    rw [draft,Graph.resultsOf,last,groupedMatmul,if_pos tensor]
    rfl
  have type := ready.types 0 _ rfl
  rw [draft] at type
  obtain ⟨fault,b,swap,stands⟩ := Swap.ofPushed (α := α) ready formed mem (.inl rfl) (by rw [kind]; decide)
    (show d.graph = g.pushAll (groupedOps g.ops.size y (.vnni v) t ++ [groupedMatmul g.ops.size x z (g.typeOf z)]) by
      rw [draft]; rfl) (by rw [draft]; rfl) (by
      simp only [groupedOps,groupedMatmul,List.cons_append,List.nil_append,List.forall_mem_cons,convertOp,Memory.emptyOp]
      decide)
  refine ⟨fault,⟨b,swap,fun m o at_ => ⟨_,_,stands m o at_⟩⟩,ready.length.symm,type.symm.trans ?_⟩
  refine (g.pushAllResultType _ (m := 2) rfl 0).trans ?_
  rw [groupedMatmul,if_pos tensor]
  rfl

end Draft

theorem vnniParts {T : Tiling 2} {v} (small : v < wordBound) (describes : (Layout.vnni (Int64.ofNat v)).Describes T) :
    T.inner = [0] ∧ T.tiles = [v] ∧ T.order = [0, 1] :=
  describes.parts (by decide) [0] [v] [] (by decide) (by simpa [Small] using small) (by decide) rfl

theorem rowsGrouped {T : Tiling 2} {v} (small : v < wordBound) (describes : (Layout.vnni (Int64.ofNat v)).Describes T)
    (i j k n : Nat) :
    T.blocked [i, j] = [i / v, j, i % v] ∧ T.packed [k, n] = [(k + v - 1) / v, n, v] := by
  obtain ⟨inner,tiles,order⟩ := vnniParts small describes
  simp [Tiling.blocked,Tiling.packed,Tiling.tile,inner,tiles,order,List.idxOf_cons]

theorem planePoints {m n i j} (hi : i < m) (hj : j < n) (k : Nat) :
    (grid [m, n, k]).filter (pick [0, 1] · = [i, j]) = (List.range 1).flatMap fun _ => (List.range k).map fun l =>
      [i, j, l] := by
  have flat : (grid [m, n, k]).filter (pick [0, 1] · = [i, j]) = sections [some i, some j, none] [m, n, k] := by
    refine Box.filterGrid rfl fun x inside => ?_
    rcases inside with _ | ⟨-,_ | ⟨-,_ | ⟨-,⟨⟩⟩⟩⟩
    simp [pick,Box.Meets]
  rw [flat]
  have single : ((List.range k).flatMap fun l => [[l]]) = (List.range k).map fun l => [l] := List.map_eq_flatMap.symm
  simp [sections,hi,hj,single]

theorem planeNest {g : Graph} {id b x y z m n k} (small : Small [m, n, k])
    (maps : Eval.indexingMaps (g.op id) = .ok Structured.matmulMaps) (region : (g.op id).region = some b)
    (operands : (g.op id).operands = [some x, some y, some z]) (two : numInputs (g.op id) = 2)
    (extents : loopExtents g Structured.matmulMaps [some x, some y, some z] = .ok (words [m, n, k]))
    (tensor : (g.typeOf z).isTensor = true) (other : ∀ i, z ≠ .result id i) (one : (g.op id).results.length = 1) :
    TensorNest g id b [⟨3,[.dim 0, .dim 2]⟩, ⟨3,[.dim 2, .dim 1]⟩] [⟨3,[.dim 0, .dim 1]⟩] [x, y] [z] [m, n, k] [m, n]
      (pick [0, 1]) where
  maps := maps
  region := region
  operands := operands
  count := two
  inMaps := rfl
  outMaps := rfl
  extents := operands ▸ extents
  small := small
  tensors := by simpa using tensor
  other := by simpa using other
  results := one
  few := show 3 < wordBound by decide
  writes i inside := by
    obtain ⟨p,q,r,rfl,-⟩ := insideThree inside
    exact List.forall_mem_singleton.mpr rfl
  keys i inside := by
    obtain ⟨p,q,r,rfl,hp,hq,-⟩ := insideThree inside
    obtain ⟨smallM,smallN,-⟩ : m < wordBound ∧ n < wordBound ∧ k < wordBound := by simpa [Small] using small
    exact ⟨rfl,by simp [Small,pick,hp.trans smallM,hq.trans smallN]⟩

theorem PackedAs.typed {l} {flat blocked : ValueType} (packed : PackedAs l flat blocked) :
    blocked = ⟨flat.kind,flat.element,blocked.dims⟩ := by
  obtain ⟨dims,-,made⟩ := Outcome.bindOk.mp packed.shape
  cases made
  rfl

section Evaluation

variable {α : Type} [Scalar α] {g g' : Graph} {id : OpId} {b : BlockId} {x y z : Value} {t : ValueType} {m n k v : Nat}
  {T : Tiling [k, n].length}

def groupedContraction (k v : Nat) : Contraction :=
  ⟨1,Int64.ofNat k,fun _ i l => [i, l],
    fun _ l j => if Int64.ofNat v = 0 then Outcome.abort else .ok [l / Int64.ofNat v, j, l % Int64.ofNat v]⟩

theorem groupedCounts (small : k < wordBound) : (groupedContraction k v).Counts 1 k :=
  ⟨rfl,rfl,by decide,small⟩

theorem groupedReads (tiled : TiledAs (.vnni (Int64.ofNat v)) (g.typeOf y) t [k, n] T) (pos : 0 < v)
    (small : v < wordBound) {a : NdArray α} (full : a.Full [k, n]) {i j l} (hl : l < k) (hj : j < n) (c : α)
    (ok : (do a.get (← AffineMap.eval ⟨3,[.dim 2, .dim 1]⟩ (words [i, j, l]))) = .ok c) :
    (do (a.packed T [k, n] t).get (← (groupedContraction k v).right 0 (Int64.ofNat l) (Int64.ofNat j))) = .ok c := by
  obtain ⟨smallK,smallN⟩ : k < wordBound ∧ n < wordBound := by simpa [Small] using tiled.small
  have smallL := hl.trans smallK
  have nonzero : Int64.ofNat v ≠ 0 := fun same =>
    Nat.ne_of_gt pos (Word.ofNatInj small (by decide : 0 < wordBound) same)
  have inside : Inside [l, j] [k, n] := .cons hl (.cons hj .nil)
  have read : a.get (words [l, j]) = .ok c := by
    obtain ⟨_,at_,got⟩ := Outcome.bindOk.mp ok
    cases at_
    exact got
  rw [full.get inside] at read
  have found := NdArray.Full.packedGet rfl (tiled.packedFull full) inside
  rw [(rowsGrouped small tiled.describes l j 0 0).1] at found
  simp only [groupedContraction,if_neg nonzero,Outcome.bindOfOk,Word.divWords smallL small,Word.modWords smallL small]
  exact found.trans read

theorem verifyRanksRun {vs : List Value} {ranks}
    (fits : List.Forall₂ (fun a r => (g.typeOf a).isShaped = true ∧ (g.typeOf a).rank = r) vs ranks) (i : Nat) :
    Primitive.verifyRanks g i (vs.map some) ranks = .ok () := by
  induction fits generalizing i with
  | nil => rfl
  | cons fits _ ih =>
    rw [List.map_cons,Primitive.verifyRanks,Graph.operandType,Outcome.bindOfOk,fits.1,fits.2,beq_self_eq_true,
      Bool.and_self,if_pos rfl]
    exact ih _

theorem groupedVerified {p first} (here : g.IsAt p (groupedMatmul first x z (g.typeOf z)))
    (typeX : g.typeOf x = .tensor .bf16 (words [m, k])) (typeZ : g.typeOf z = .tensor .bf16 (words [m, n]))
    (packed : g.typeOf (.result (first + 1) 0) = .tensor .bf16 (words [(k + v - 1) / v, n, v]))
    (whole : (k + v - 1) / v * v = k) : Primitive.verify g (g.op p) = .ok () := by
  obtain ⟨_,_,op⟩ := here
  have kind : (g.op p).kind = Primitive.vnniMatmulKind := by rw [op]; rfl
  have operands : (g.op p).operands = [x, .result (first + 1) 0, z].map some := by rw [op]; rfl
  have ranks : Primitive.checkRanks g ([x, .result (first + 1) 0, z].map some) [2, 3, 2] = .ok () := by
    have fits := verifyRanksRun (g := g) (.cons (a := x) (b := 2) ⟨by rw [typeX]; rfl,by rw [typeX]; rfl⟩
      (.cons (a := .result (first + 1) 0) (b := 3) ⟨by rw [packed]; rfl,by rw [packed]; rfl⟩
        (.cons (a := z) (b := 2) ⟨by rw [typeZ]; rfl,by rw [typeZ]; rfl⟩ .nil))) 0
    rw [Primitive.checkRanks,fits]
    rfl
  have types : g.operandTypes ([x, .result (first + 1) 0, z].map some) = .ok [.tensor .bf16 (words [m, k]),
      .tensor .bf16 (words [(k + v - 1) / v, n, v]), .tensor .bf16 (words [m, n])] := by
    rw [← typeX,← packed,← typeZ]
    rfl
  have shapes : Primitive.verifyVnni (words [m, k]) (words [(k + v - 1) / v, n, v]) (words [m, n]) = .ok () := by
    refine if_pos ⟨?_,rfl,rfl⟩
    rw [Word.mulWords,whole]
  rw [Primitive.verify,kind,show Primitive.inputCount? Primitive.vnniMatmulKind = some 2 from rfl]
  dsimp only
  rw [if_neg (by rw [operands]; exact not_not_intro rfl),Primitive.verifyKnown,if_neg (by rw [kind]; decide),
    if_neg (by rw [kind]; decide),if_pos kind,operands,ranks,Outcome.bindOfOk,types,Outcome.bindOfOk]
  exact shapes

variable (stages : ∀ p o, (groupedOps g.ops.size y (.vnni (Int64.ofNat v)) t ++
    [groupedMatmul g.ops.size x z (g.typeOf z)])[p]? = some o → g'.IsAt (g.ops.size + p) o)
  (nest : TensorNest g id b [⟨3,[.dim 0, .dim 2]⟩, ⟨3,[.dim 2, .dim 1]⟩] [⟨3,[.dim 0, .dim 1]⟩] [x, y] [z] [m, n, k] [m, n]
    (pick [0, 1]))

include stages nest in
theorem groupedRun (accumulates : Accumulates α g b) (pos : 0 < v) (small : v < wordBound)
    (tiled : TiledAs (.vnni (Int64.ofNat v)) (g.typeOf y) t [k, n] T) (half : (g.typeOf y).element = .bf16)
    (typeX : g.typeOf x = .tensor .bf16 (words [m, k])) (typeZ : g.typeOf z = .tensor .bf16 (words [m, n]))
    (typeX' : g'.typeOf x = g.typeOf x) (typeZ' : g'.typeOf z = g.typeOf z) (belowX : x.Below g.ops.size)
    (belowY : y.Below g.ops.size) (belowZ : z.Below g.ops.size) {s s' u : Machine α} {rx rx'}
    (boundX : s.env x = some rx) (boundX' : s'.env x = some rx') (validX : rx < s.memory.size)
    (validX' : rx' < s'.memory.size) (sameX : s'.arrayAt rx' = s.arrayAt rx)
    (shapeX : (s.arrayAt rx).type = g.typeOf x) {ay az} (carryY : Carries s y (g.typeOf y) [k, n] ay)
    (carryY' : Carries s' y (g.typeOf y) [k, n] ay) (carryZ : Carries s z (g.typeOf z) [m, n] az)
    (carryZ' : Carries s' z (g.typeOf z) [m, n] az) (ok : structured g id s = .ok () u) :
    ∃ a, Leads g' (List.range' g.ops.size 3) g.ops.size s' (.result (g.ops.size + 2) 0) a ∧
      u = s.bindFresh (.result id 0) a ∧ a.type = g.typeOf z ∧ a.data.size = [m, n].prod := by
  have fitsY := carryY.full
  obtain ⟨smallK,-⟩ : k < wordBound ∧ n < wordBound := by simpa [Small] using tiled.small
  have groupedDims := (rowsGrouped small tiled.describes 0 0 k n).2
  have whole : (k + v - 1) / v * v = k := by
    obtain ⟨inner,tiles,-⟩ := vnniParts small tiled.describes
    have divides := tiled.whole 0
    rw [show T.tile 0 = v by simp [Tiling.tile,inner,tiles]] at divides
    exact Tiling.wholeTiles pos divides
  obtain ⟨w,packs,ext,packed⟩ := packStage (m := g.ops.size) (stages 0 _ rfl) (stages 1 _ rfl) tiled belowY carryY'
  have carryZ' := carryZ'.later ext belowZ
  obtain ⟨⟨ry,boundY,rfl⟩,-,fullY,-⟩ := carryY
  obtain ⟨⟨rz,boundZ,rfl⟩,arrayTypeZ,fullZ,-⟩ := carryZ
  obtain ⟨⟨qy,boundY',arrayY⟩,arrayTypeY,fullY',-⟩ := packed
  obtain ⟨⟨qz,boundZ',arrayZ⟩,-,-,-⟩ := carryZ'
  rw [← arrayY] at fullY'
  obtain ⟨e,folds,rfl⟩ := (structuredOk nest (show [x, y].map s.env = [rx, ry].map some by simp [boundX,boundY])
    (show [z].map s.env = [rz].map some by simp [boundZ]) (by simp [validX,fullValid fullY]) (by simpa using fullZ)).mp ok
  have here := stages 2 _ rfl
  have type : t = .tensor .bf16 (words [(k + v - 1) / v, n, v]) := by
    have same := PackedAs.typed tiled.toPackedAs
    rw [same,half,of_decide_eq_true tiled.tensor,tiled.blockedDims,groupedDims]
    rfl
  have typeY' : g'.typeOf (.result (g.ops.size + 1) 0) = t := convertType (stages 1 _ rfl) tiled.blockedTensor.1
  have verified := groupedVerified (v := v) (typeZ'.symm ▸ here) (typeX'.trans typeX) (typeZ'.trans typeZ)
    (typeY'.trans type) whole
  have oldX : w.arrayAt rx' = s.arrayAt rx := (ext.old rx' validX').trans sameX
  have kind : (g'.op (g.ops.size + 2)).kind = Primitive.vnniMatmulKind := by
    obtain ⟨_,_,op⟩ := here
    rw [op]
    rfl
  have isTensor : (g.typeOf z).isTensor = true := by rw [typeZ]; rfl
  have found : contractionOf (g'.op (g.ops.size + 2)).kind (w.arrayAt rx').type (w.arrayAt qy).type =
      .ok (groupedContraction k v) := by
    rw [kind,oldX,shapeX,typeX,arrayY,arrayTypeY,type]
    rfl
  have run := primitiveTensor (z := z) (m := m) (n := n) (e := e) verified (by rw [kind]; decide)
    (by obtain ⟨_,_,op⟩ := here; rw [op]; rfl) ((ext.env x belowX).trans boundX') boundY' (groupedCounts smallK) boundZ'
    (by rw [typeZ']; exact isTensor)
    (by obtain ⟨_,_,op⟩ := here; rw [op,groupedMatmul,if_pos isTensor]; rfl)
    (validX'.trans_le ext.size) (fullValid fullY') found (arrayZ ▸ fullZ) (fun i j hi hj => by
      rw [oldX,arrayY,arrayZ]
      exact accumulated (c := groupedContraction k v) ⟨3,[.dim 0, .dim 2]⟩ ⟨3,[.dim 2, .dim 1]⟩
        (a := s.arrayAt rx) (b := s.arrayAt ry) accumulates (planePoints hi hj k) (fun _ _ l _ c ok => ok)
        (fun _ _ l hl c ok => groupedReads tiled pos small fullY hl hj c ok) (folds [i, j]))
  let a := NdArray.tabulate (g.typeOf z) [m, n] fun i => (e i).getD 0 Scalar.zero
  have table (q : NdArray α) (typed : q.type = g.typeOf z) : tabulateAll [q] [m, n] e = [a] := by
    rw [tabulateAll,List.mapIdx_cons,typed]
    rfl
  rw [arrayZ,table _ arrayTypeZ] at run
  refine ⟨a,?_,?_,rfl,?_⟩
  · rw [show List.range' g.ops.size 3 = [g.ops.size, g.ops.size + 1] ++ [g.ops.size + 2] from rfl]
    have isPrimitive : (evalOp g' (g.ops.size + 2) : Exec α Unit) = primitive g' (g.ops.size + 2) := by
      simp only [evalOp,isStructured,Primitive.isPrimitive,Operation.dialect,kind]
      rfl
    rw [← isPrimitive] at run
    exact .after packs ext (Nat.le_add_right ..) (.one run (le_rfl))
  · rw [List.map_singleton,table _ arrayTypeZ]
    rfl
  · simp [a,NdArray.tabulate,Box.gridLength]

end Evaluation

section Rewrite

variable {α : Type} [Scalar α] {g : Graph} {id mul add yield : OpId} {b : BlockId} {x y z : Value} {m n k v : Int64} {d : Draft}
  {memory : Array (NdArray α)} {args : List Ref}

theorem vnniRoundsUp (rounds : k.toInt + v.toInt ≤ 2 ^ 63) : (Layout.vnni v).RoundsUp [k, n] := by
  intro axis ext tile at_ tiled
  match axis, at_, tiled with
  | 0, at_, tiled =>
    cases at_
    cases tiled
    exact rounds
  | 1, _, tiled => cases tiled

theorem planeExtents {ws} (typeX : (g.typeOf x).dims = [m, k]) (typeY : (g.typeOf y).dims = [k, n])
    (typeZ : (g.typeOf z).dims = [m, n]) (ok : loopExtents g Structured.matmulMaps [some x, some y, some z] = .ok ws) :
    ws = [m, n, k] ∧ 0 ≤ m ∧ 0 ≤ n ∧ 0 ≤ k := by
  have along {p q r s : Int64} (first : entryAt [m, n, k] p = .ok r) (second : entryAt [m, n, k] q = .ok s) :
      Along [m, n, k] [.dim p, .dim q] [r, s] :=
    .cons (fun _ same => by cases same; exact first) (.cons (fun _ same => by cases same; exact second) .nil)
  have agree : List.Forall₂ (fun e v => Along [m, n, k] e.results (g.typeOf v).dims) Structured.matmulMaps [x, y, z] :=
    .cons (typeX ▸ along rfl rfl) (.cons (typeY ▸ along rfl rfl) (.cons (typeZ ▸ along rfl rfl) .nil))
  obtain ⟨same,nonneg⟩ := loopExtentsAlong agree rfl (show 3 < wordBound by decide) ok
  exact ⟨same,by simpa using nonneg⟩

/-- A multiplication does what it did when its right operand is packed in groups of rows, with the same products in the same
order for each element: nothing is assumed of the scalars. -/
theorem vnniRefines (ok : g.verify = .ok ()) (once : g.walkAll.Nodup) (mem : id ∈ g.walkAll)
    (kind : (g.op id).kind = matmulKind) (two : numInputs (g.op id) = 2)
    (operands : (g.op id).operands = [some x, some y, some z]) (region : (g.op id).region = some b)
    (adds : g.MulAdds b mul add yield)
    (shapes : [x, y, z].map g.typeOf = [.tensor .bf16 [m, k], .tensor .bf16 [k, n], .tensor .bf16 [m, n]])
    (rounds : k.toInt + v.toInt ≤ 2 ^ 63) (right : k.toInt * n.toInt < 2 ^ 63) (out : m.toInt * n.toInt < 2 ^ 63)
    (declared : ∀ j ∈ (g.block Graph.body).ops, g.Declared j)
    (drafted : (vnniMatmul [v]).draft ⟨(vnniMatmul [v]).name, id⟩ (.ofGraph g) = .ok () d)
    (valid : ∀ r ∈ args, r < memory.size) (made : MadeArguments memory args) :
    (d.commit id).fault = none ∧ Refines g (d.commit id).graph memory args := by
  have formed := Graph.wellFormedOfVerify ok once
  obtain ⟨b',scope,place⟩ := Graph.atOfWalk .body mem
  have ready := vnniMatmulReady (formed.sightOf mem) drafted
  obtain ⟨typeX,typeY,typeZ⟩ : g.typeOf x = .tensor .bf16 [m, k] ∧ g.typeOf y = .tensor .bf16 [k, n] ∧
    g.typeOf z = .tensor .bf16 [m, n] := by simpa using shapes
  have seen (a : Value) (used : a ∈ [x, y, z]) : a.Below g.ops.size :=
    (place.uses formed (by rw [operands]; simpa using used)).below
  obtain ⟨t,groups⟩ := vnniMatmulOk two operands seen (by rw [typeY]; rfl) drafted
  obtain ⟨fault,⟨c,swap,stages⟩,one,resultType⟩ := groups.swap α formed mem ready kind (by rw [typeZ]; rfl)
  have suits (j : OpId) (mem : j ∈ (g.block Graph.body).ops) (_ : j ≠ id) : Suits α (fun _ => True) (Makes g) g j :=
    (declared j mem).suits fun v used => Propagation.operandsHas formed mem used
  refine ⟨fault,swap.refinesOne suits (fun _ away => absurd trivial away) (fun s started => started.makes made) rfl valid ?_⟩
  intro pre post split q s s' u agree ok
  have isMatmul : evalOp g id = (structured g id : Exec α Unit) := by
    simp only [evalOp,isStructured,kind]
    rfl
  rw [isMatmul] at ok
  have here : id ∈ (g.block Graph.body).ops := split ▸ List.mem_append_right _ (.head _)
  have known (a : Value) (used : some a ∈ (g.op id).operands) := swap.operandKnown split used
  obtain ⟨maps,c',ws,found,body,extents,bound⟩ := structuredOpens (fun a used => (known a used).2.1) ok
  obtain rfl : b = c' := Option.some.inj (region.symm.trans body)
  obtain rfl : maps = Structured.matmulMaps := by
    rw [Eval.indexingMaps,kind] at found
    exact (Except.ok.inj found).symm
  rw [operands] at bound known
  rw [operands] at extents
  obtain ⟨rfl,nonnegM,nonnegN,nonnegK⟩ := planeExtents (by rw [typeX]; rfl) (by rw [typeY]; rfl) (by rw [typeZ]; rfl) extents
  obtain ⟨m,smallM,rfl⟩ := Word.existsOfNonneg nonnegM
  obtain ⟨n,smallN,rfl⟩ := Word.existsOfNonneg nonnegN
  obtain ⟨k,smallK,rfl⟩ := Word.existsOfNonneg nonnegK
  obtain ⟨v,smallV,posV,rfl⟩ := Word.existsOfPos groups.positive
  rw [Word.toIntOfNat smallK,Word.toIntOfNat smallN] at right
  rw [Word.toIntOfNat smallM,Word.toIntOfNat smallN] at out
  have fitsY : [k, n].prod < wordBound := by simpa [wordBound] using (by exact_mod_cast right : k * n < 2 ^ 63)
  have fitsZ : [m, n].prod < wordBound := by simpa [wordBound] using (by exact_mod_cast out : m * n < 2 ^ 63)
  have smallY : Small [k, n] := by simp [Small,smallK,smallN]
  have smallZ : Small [m, n] := by simp [Small,smallM,smallN]
  obtain ⟨ns,T,tiled⟩ := TiledAs.exist groups.packed (by rw [typeY]; exact (by decide : 2 ≤ lengthLimit.toNatClampNeg))
    (by rw [typeY]; simp [ValueType.tensor,nonnegK,nonnegN]) (by rw [typeY]; exact vnniRoundsUp rounds)
  obtain rfl : ns = [k, n] := wordsInj tiled.small smallY (by rw [← tiled.flatDims,typeY]; rfl)
  have held (a : Value) (used : some a ∈ [some x, some y, some z]) : ∃ r, s.env a = some r := by
    obtain ⟨_,r,same,at_⟩ := bound _ used
    cases same
    exact ⟨r,at_⟩
  have has (a : Value) (used : some a ∈ [some x, some y, some z]) : g.Has a :=
    Propagation.operandsHas formed here (operands ▸ used)
  obtain ⟨rx,boundX⟩ := held x (by simp)
  obtain ⟨ry,boundY⟩ := held y (by simp)
  obtain ⟨rz,boundZ⟩ := held z (by simp)
  obtain ⟨belowX,otherX,sameTypeX⟩ := known x (by simp)
  obtain ⟨belowY,otherY,-⟩ := known y (by simp)
  obtain ⟨belowZ,otherZ,sameTypeZ⟩ := known z (by simp)
  obtain ⟨ay,carryY,carryY'⟩ := agree.carried belowY otherY (has y (by simp)) tiled.flatDims tiled.small fitsY boundY
  obtain ⟨az,carryZ,carryZ'⟩ := agree.carried belowZ otherZ (has z (by simp)) (by rw [typeZ]; rfl) smallZ fitsZ boundZ
  obtain ⟨⟨_,_,shape,made,-⟩,-⟩ := agree.env x rx ⟨belowX,otherX⟩ boundX
  obtain ⟨-,rfl,rfl⟩ := agree.shaped _ _ _ shape
  obtain ⟨rx',boundX',validX,validX',sameX⟩ := agree.kept belowX otherX boundX
  have nest := planeNest (m := m) (n := n) (k := k) (by simp [Small,smallM,smallN,smallK]) found body operands two extents
    (by rw [typeZ]; rfl) otherZ one
  have accumulates : Accumulates α g b := fun p q r ys ran => by
    rw [mulAddsBody adds] at ran
    exact (Except.ok.inj ran).symm
  obtain ⟨a,leads,rfl,typeA,size⟩ := groupedRun stages nest accumulates posV smallV tiled
    (by rw [typeY]; rfl) typeX typeZ sameTypeX sameTypeZ belowX belowY belowZ boundX boundX' validX validX' sameX
    (made (has x (by simp))).1 carryY carryY' carryZ carryZ' ok
  refine ⟨a,leads,rfl,fun _ => ⟨typeA.trans resultType.symm,size ▸ fitsZ,?_⟩,size ▸ carryZ.short⟩
  rw [typeA,size,ValueType.numElements,typeZ]
  exact (countWords [m, n]).symm

end Rewrite

def halves (args : List ValueType) (ops : List Operation) (x y z : Value) (t : ValueType) (listed : List OpId) : Graph :=
  withBody args (ops ++
    [⟨matmulKind,[some x, some y, some z],[.ofType t],Attributes.ofList [(numInputsAttr, .int 2)],none,none⟩,
      ⟨Memory.returnKind,[some (.result ops.length 0)],[],OrderedMap.empty,none,none⟩])
    listed ops.length (List.replicate 3 (.scalar .bf16))
    ((contracting (ops.length + 2)).map fun o => { o with results := o.results.map fun _ => .ofType (.scalar .bf16) })

def wide : Graph :=
  halves [.tensor .bf16 [2, 4], .tensor .bf16 [4, 3], .tensor .bf16 [2, 3]] [] (.argument 0 0) (.argument 0 1) (.argument 0 2)
    (.tensor .bf16 [2, 3]) [0, 1]

theorem vnniRefinesWide : wide.verify = .ok () ∧ wide.walkAll.Nodup ∧
    ∃ d, (vnniMatmul [2]).draft ⟨(vnniMatmul [2]).name, 0⟩ (.ofGraph wide) = .ok () d ∧
      (d.commit 0).fault = none ∧ Refines wide (d.commit 0).graph
        #[(⟨.tensor .bf16 [2, 4], #[1, 2, 3, 4, 5, 6, 7, 8]⟩ : NdArray Int),
          ⟨.tensor .bf16 [4, 3], #[1, 2, 3, 4, 5, 6, 7, 8, 9, 10, 11, 12]⟩, ⟨.tensor .bf16 [2, 3], #[1, 1, 1, 1, 1, 1]⟩]
        [0, 1, 2] := by
  have ok : wide.verify = .ok () := by decide +kernel
  have once : wide.walkAll.Nodup := by decide +kernel
  have adds : wide.MulAdds 1 2 3 4 := ⟨rfl,rfl,rfl,rfl,rfl,rfl,rfl,rfl,rfl,rfl⟩
  obtain ⟨d,drafted⟩ := draftedOf (vnniMatmul [2]) 0 wide (by decide +kernel)
  exact ⟨ok,once,d,drafted,vnniRefines ok once (by decide +kernel) rfl rfl rfl rfl adds rfl (by decide) (by decide)
    (by decide) (by decide +kernel) drafted (by decide) (by decide +kernel)⟩

/-- Groups that change what is returned: of a product that is computed again, of rows that cannot be rounded up, of matrices
with more elements than can be counted, and of values that are not what they are declared to be. -/
theorem vnniChanges :
    beforeThen returned ((vnniMatmul [2]).committed 1)
      (halves (List.replicate 3 (.tensor .bf16 [2, 2]) ++ [.buffer .bf16 [2, 2]])
      [Propagation.plain Memory.copyKind [.argument 0 3, .argument 0 2] []] (.argument 0 0) (.argument 0 1) (.argument 0 2)
      (.tensor .bf16 [2, 2]) [1, 0, 1, 2]) [#[1, 2, 3, 4], #[1, 2, 3, 4], #[1, 2, 3, 4], #[10, 20, 30, 40]] =
        some ([#[17, 30, 45, 62]], some [#[8, 12, 18, 26]]) ∧
    beforeThen returned ((vnniMatmul [7]).committed 0)
      (halves [.tensor .bf16 [0, Int64.maxValue], .tensor .bf16 [Int64.maxValue, 0],
      .tensor .bf16 [0, 0]] [] (.argument 0 0) (.argument 0 1) (.argument 0 2) (.tensor .bf16 [0, 0]) [0, 1])
      [#[], #[], #[]] = some ([#[]], none) ∧
    beforeThen returned ((vnniMatmul [2]).committed 0)
      (halves [.tensor .bf16 [0, 4294967296], .tensor .bf16 [4294967296, 4294967296],
      .tensor .bf16 [0, 4294967296]] [] (.argument 0 0) (.argument 0 1) (.argument 0 2) (.tensor .bf16 [0, 4294967296]) [0, 1])
      [#[], #[], #[]] = some ([#[]], none) ∧
    beforeThen returned ((vnniMatmul [2]).committed 0)
      (halves [.tensor .bf16 [4294967296, 0], .tensor .bf16 [0, 4294967296],
      .tensor .bf16 [4294967296, 4294967296]] [] (.argument 0 0) (.argument 0 1) (.argument 0 2)
      (.tensor .bf16 [4294967296, 4294967296]) [0, 1]) [#[], #[], #[]] = some ([#[]], none) ∧
    beforeThen returned ((vnniMatmul [2]).committed 1)
      (halves [.tensor .bf16 [0, 2], .tensor .bf16 [1], .tensor .bf16 [0, 2]]
      [Propagation.plain Memory.castKind [.argument 0 1] [.tensor .bf16 [2, 2]]] (.argument 0 0) (.result 0 0) (.argument 0 2)
      (.tensor .bf16 [0, 2]) [0, 1, 2]) [#[], #[1], #[]] = some ([#[]], none) ∧
    beforeThen returned ((vnniMatmul [2]).committed 1)
      (halves [.tensor .bf16 [1, 4], .tensor .bf16 [2, 2], .tensor .bf16 [1, 2]]
      [Propagation.plain copyKind [.argument 0 0, .argument 0 0] [.tensor .bf16 [1, 2]]] (.result 0 0) (.argument 0 1)
      (.argument 0 2) (.tensor .bf16 [1, 2]) [0, 1, 2]) [#[1, 2, 3, 4], #[1, 2, 3, 4], #[1, 2]] = some ([#[8, 12]], none) := by
  refine ⟨?_,?_,?_,?_,?_,?_⟩ <;> decide +kernel

end TileLower.Blocking

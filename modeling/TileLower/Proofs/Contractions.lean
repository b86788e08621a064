import TileLower.Proofs.MapTexts
import TileLower.Proofs.Recognitions
import TileLower.Proofs.Substitutions

/-!
Contractions of buffers that are mapped to primitives. The nest and the primitive add the same products to an element, in
the same order. Main statement: `ToPrimitive.placedRefines`.
-/
namespace TileLower

open Primitive List

namespace Eval

open Box (Inside grid)
open Blocking (pick insideThree)

variable {α : Type} [Scalar α] {g g' : Graph} {id : OpId} {b : BlockId} {s t : Machine α} {x y z : Value} {rx ry rz : Ref}

section Shows

variable {ks : List Nat} {c : List Nat → List α} {u : Machine α}

theorem Shows.remapped {m r} (shows_ : Shows s [(m, r)] ks c t) (m' : AffineMap) : Shows s [(m', r)] ks c t := by
  obtain ⟨env,size,other,full,cells⟩ := shows_
  simp only [forall_mem_singleton] at other full
  exact ⟨env,size,by simpa only [forall_mem_singleton] using other,
    by simpa only [forall_mem_singleton] using full,fun k at_ => cells k (at_.imp_left nofun)⟩

theorem Shows.unique {outs} (left : Shows s outs ks c t) (right : Shows s outs ks c u) : t = u := by
  refine Machine.extArrays (left.env.trans right.env.symm) (left.size.trans right.size.symm) fun r => ?_
  by_cases here : ∃ p ∈ outs, p.2 = r
  · obtain ⟨p,mem,rfl⟩ := here
    obtain ⟨full,type⟩ := left.full p mem
    obtain ⟨full',type'⟩ := right.full p mem
    refine full.ext full' (type.trans type'.symm) fun k inside => ?_
    have cells := (left.cells k (.inr inside)).trans (right.cells k (.inr inside)).symm
    exact map_inj_left.mp cells p mem
  · have away : ∀ p ∈ outs, p.2 ≠ r := fun p mem same => here ⟨p,mem,same⟩
    rw [left.other r away,right.other r away]

end Shows

structure Folded (c : Contraction) (mx my mz : AffineMap) (es : List Nat) (m n batch depth : Nat)
    (key : List Nat → List Nat) (place : Nat → Nat → Nat → Nat → List Nat) : Prop where
  counts : c.Counts batch depth
  small : Small es
  writes : ∀ idx, Inside idx es → mz.eval (words idx) = .ok (words (key idx)) ∧ (key idx).length = 2 ∧ Small (key idx)
  points : ∀ i j, i < m → j < n →
    (grid es).filter (key · = [i, j]) = (range batch).flatMap fun t => (range depth).map (place i j t)
  left : ∀ i j t k, mx.eval (words (place i j t k)) = .ok (c.left (Int64.ofNat t) (Int64.ofNat i) (Int64.ofNat k))
  right : ∀ i j t k, my.eval (words (place i j t k)) = c.right (Int64.ofNat t) (Int64.ofNat k) (Int64.ofNat j)

theorem Folded.contracts {c mx my mz es m n batch depth key place}
    (folded : Folded c mx my mz es m n batch depth key place) (accumulates : Accumulates α g b)
    (full : (s.arrayAt rz).Full [m, n]) (left : rz ≠ rx) (right : rz ≠ ry)
    (ok : Box.each (words es) (point g b 2 [(mx, rx), (my, ry), (mz, rz)]) s = .ok () t) :
    contract c rx ry rz s = .ok () t := by
  have ok : Box.each (words es) (point g b (Int64.ofNat [(mx, rx), (my, ry)].length) ([(mx, rx), (my, ry)] ++ [(mz, rz)])) s =
    .ok () t := ok
  have maps : ∀ idx, Inside idx es → ∀ p ∈ [(mz, rz)], p.1.eval (words idx) = .ok (words (key idx)) := fun idx inside => by
    simpa using (folded.writes idx inside).1
  have keys : ∀ idx, Inside idx es → (key idx).length = [m, n].length ∧ Small (key idx) := fun idx inside =>
    (folded.writes idx inside).2
  obtain ⟨e,shows_,folds⟩ := nestFollowed folded.small (by simp [wordBound]) (by simp) (by simp [left,right])
    (by simpa using full) maps keys ok
  obtain ⟨u,ran,shows'⟩ := contractRun folded.counts left right full (e := e) fun i j hi hj =>
    accumulated mx my accumulates (folded.points i j hi hj)
      (fun t _ k _ v read => by rwa [folded.left,Outcome.bindOfOk] at read)
      (fun t _ k _ v read => by rwa [folded.right] at read) (folds [i, j])
  rw [ran,(shows_.remapped _).unique shows']

def planeContraction (k : Nat) : Contraction := ⟨1,Int64.ofNat k,fun _ i l => [i, l],fun _ l j => .ok [l, j]⟩

def batchContraction (p k : Nat) : Contraction :=
  ⟨Int64.ofNat p,Int64.ofNat k,fun t i l => [t, i, l],fun t l j => .ok [t, l, j]⟩

theorem planeFolded {m n k} (small : Small [m, n, k]) : Folded (planeContraction k) ⟨3,[.dim 0, .dim 2]⟩
    ⟨3,[.dim 2, .dim 1]⟩ ⟨3,[.dim 0, .dim 1]⟩ [m, n, k] m n 1 k (pick [0, 1]) fun i j _ l => [i, j, l] where
  counts := ⟨rfl,rfl,by decide,small k (by simp)⟩
  small := small
  writes idx inside := by
    obtain ⟨p,q,r,rfl,hp,hq,-⟩ := insideThree inside
    exact ⟨rfl,rfl,by simp [Small,pick,hp.trans (small m (by simp)),hq.trans (small n (by simp))]⟩
  points i j hi hj := Blocking.planePoints hi hj k
  left _ _ _ _ := rfl
  right _ _ _ _ := rfl

theorem insideFour {i a b c d} (inside : Inside i [a, b, c, d]) :
    ∃ x y z w, i = [x, y, z, w] ∧ x < a ∧ y < b ∧ z < c ∧ w < d := by
  rcases inside with _ | ⟨ha,_ | ⟨hb,_ | ⟨hc,_ | ⟨hd,⟨⟩⟩⟩⟩⟩
  exact ⟨_,_,_,_,rfl,ha,hb,hc,hd⟩

theorem batchPoints {m n i j} (hi : i < m) (hj : j < n) (p k : Nat) :
    (grid [p, m, n, k]).filter (pick [1, 2] · = [i, j]) =
      (range p).flatMap fun t => (range k).map fun l => [t, i, j, l] := by
  have flat : (grid [p, m, n, k]).filter (pick [1, 2] · = [i, j]) = Box.sections [none, some i, some j, none] [p, m, n, k] := by
    refine Box.filterGrid rfl fun x inside => ?_
    obtain ⟨_,_,_,_,rfl,-⟩ := insideFour inside
    simp [pick,Box.Meets]
  have single : ((range k).flatMap fun l => [[l]]) = (range k).map fun l => [l] := map_eq_flatMap.symm
  rw [flat]
  simp [Box.sections,hi,hj,single,Function.comp_def]

theorem batchFolded {p m n k} (small : Small [p, m, n, k]) : Folded (batchContraction p k)
    ⟨4,[.dim 0, .dim 1, .dim 3]⟩ ⟨4,[.dim 0, .dim 3, .dim 2]⟩ ⟨4,[.dim 1, .dim 2]⟩ [p, m, n, k] m n p k (pick [1, 2])
    fun i j t l => [t, i, j, l] where
  counts := ⟨rfl,rfl,small p (by simp),small k (by simp)⟩
  small := small
  writes idx inside := by
    obtain ⟨t,p,q,r,rfl,-,hp,hq,-⟩ := insideFour inside
    exact ⟨rfl,rfl,by simp [Small,pick,hp.trans (small m (by simp)),hq.trans (small n (by simp))]⟩
  points i j hi hj := batchPoints hi hj p k
  left _ _ _ _ := rfl
  right _ _ _ _ := rfl

def ContractsAs (g : Graph) (kind : String) (mx my mz : AffineMap) (x y z : Value) (ws : List Int64) : Prop :=
  ∃ c es m n batch depth key place, ws = words es ∧ (g.typeOf z).dims = words [m, n] ∧ Small [m, n] ∧
    contractionOf kind (g.typeOf x) (g.typeOf y) = .ok c ∧ Folded c mx my mz es m n batch depth key place

theorem ContractsAs.run {p mx my mz ws x y z rx ry rz} (contracts : ContractsAs g (g'.op p).kind mx my mz x y z ws)
    (accumulates : Accumulates α g b) (verified : verify g' (g'.op p) = .ok ())
    (product : (g'.op p).kind ∉ [identityKind, reluKind, addKind])
    (operands : (g'.op p).operands = [some x, some y, some z]) (place : (g'.typeOf z).isTensor = false)
    (apart : z ≠ x ∧ z ≠ y) (distinct : Distinct s) (boundX : s.env x = some rx) (boundY : s.env y = some ry)
    (boundZ : s.env z = some rz) (typeX : (s.arrayAt rx).type = g.typeOf x) (typeY : (s.arrayAt ry).type = g.typeOf y)
    (typeZ : (s.arrayAt rz).type = g.typeOf z) (counted : (s.arrayAt rz).Counted)
    (fits : (g.typeOf z).exactCount < 2 ^ 63)
    (ok : Box.each ws (point g b 2 [(mx, rx), (my, ry), (mz, rz)]) s = .ok () t) : primitive g' p s = .ok () t := by
  obtain ⟨c,es,m,n,batch,depth,key,place_,rfl,dims,small,found,folded⟩ := contracts
  have full : (s.arrayAt rz).Full [m, n] := by
    refine counted.full (by rw [typeZ,dims]) small ?_
    rw [ValueType.exactCount,dims,exactProductWords small] at fits
    rw [wordBound]
    exact_mod_cast fits
  have other {v : Value} {r : Ref} (bound : s.env v = some r) (ne : z ≠ v) : rz ≠ r := fun same =>
    ne (distinct.apart z v rz boundZ (same ▸ bound))
  rw [primitiveRun verified product operands boundX boundY (outputPlace place boundZ) (by rw [typeX,typeY]; exact found)]
  exact folded.contracts accumulates full (other boundX apart.1) (other boundY apart.2) ok

section Shapes

variable {op : Operation} {x y z : Value} {ws : List Int64}

theorem batchExtents {p m n k} (typeX : (g.typeOf x).dims = [p, m, k]) (typeY : (g.typeOf y).dims = [p, k, n])
    (typeZ : (g.typeOf z).dims = [m, n]) (ok : loopExtents g batchReduceMaps [some x, some y, some z] = .ok ws) :
    ws = [p, m, n, k] ∧ 0 ≤ p ∧ 0 ≤ m ∧ 0 ≤ n ∧ 0 ≤ k := by
  have at_ {q e : Int64} (found : entryAt [p, m, n, k] q = .ok e) (pos : Int64) (same : Affine.Expr.dim q = .dim pos) :
      entryAt [p, m, n, k] pos = .ok e := by
    cases same
    exact found
  have agree : Forall₂ (fun e v => Along [p, m, n, k] e.results (g.typeOf v).dims) batchReduceMaps [x, y, z] := by
    refine .cons ?_ (.cons ?_ (.cons ?_ .nil))
    · exact typeX ▸ .cons (at_ rfl) (.cons (at_ rfl) (.cons (at_ rfl) .nil))
    · exact typeY ▸ .cons (at_ rfl) (.cons (at_ rfl) (.cons (at_ rfl) .nil))
    · exact typeZ ▸ .cons (at_ rfl) (.cons (at_ rfl) .nil)
  obtain ⟨same,nonneg⟩ := loopExtentsAlong agree rfl (show 4 < wordBound by decide) ok
  exact ⟨same,by simpa using nonneg⟩

variable (verified : verify g op = .ok ()) (operands : op.operands = [some x, some y, some z])

include verified operands

theorem planeContracts (kind : op.kind = Primitive.matmulKind)
    (ok : loopExtents g Structured.matmulMaps [some x, some y, some z] = .ok ws) :
    ContractsAs g op.kind ⟨3,[.dim 0, .dim 2]⟩ ⟨3,[.dim 2, .dim 1]⟩ ⟨3,[.dim 0, .dim 1]⟩ x y z ws := by
  obtain ⟨-,m,n,k,dimsX,dimsY,dimsZ⟩ := (multiplies verified (.inl kind) operands).resolve_right fun other =>
    absurd (other.imp And.left And.left) (by rw [kind]; decide)
  obtain ⟨rfl,nonnegM,nonnegN,nonnegK⟩ := Blocking.planeExtents dimsX dimsY dimsZ ok
  obtain ⟨m,smallM,rfl⟩ := Word.existsOfNonneg nonnegM
  obtain ⟨n,smallN,rfl⟩ := Word.existsOfNonneg nonnegN
  obtain ⟨k,smallK,rfl⟩ := Word.existsOfNonneg nonnegK
  refine ⟨planeContraction k,[m, n, k],m,n,_,_,_,_,rfl,dimsZ,by simp [Small,smallM,smallN],?_,
    planeFolded (by simp [Small,smallM,smallN,smallK])⟩
  simp only [kind,contractionOf,dimsX]
  rfl

theorem batchContracts (kind : op.kind = brgemmKind)
    (ok : loopExtents g batchReduceMaps [some x, some y, some z] = .ok ws) :
    ContractsAs g op.kind ⟨4,[.dim 0, .dim 1, .dim 3]⟩ ⟨4,[.dim 0, .dim 3, .dim 2]⟩ ⟨4,[.dim 1, .dim 2]⟩ x y z ws := by
  obtain ⟨-,p,m,n,k,dimsX,dimsY,dimsZ⟩ :=
    ((multiplies verified (.inr (.inl kind)) operands).resolve_left fun other =>
      absurd other.1 (by rw [kind]; decide)).resolve_right fun other => absurd other.1 (by rw [kind]; decide)
  obtain ⟨rfl,nonnegP,nonnegM,nonnegN,nonnegK⟩ := batchExtents dimsX dimsY dimsZ ok
  obtain ⟨p,smallP,rfl⟩ := Word.existsOfNonneg nonnegP
  obtain ⟨m,smallM,rfl⟩ := Word.existsOfNonneg nonnegM
  obtain ⟨n,smallN,rfl⟩ := Word.existsOfNonneg nonnegN
  obtain ⟨k,smallK,rfl⟩ := Word.existsOfNonneg nonnegK
  refine ⟨batchContraction p k,[p, m, n, k],m,n,_,_,_,_,rfl,dimsZ,by simp [Small,smallM,smallN],?_,
    batchFolded (by simp [Small,smallP,smallM,smallN,smallK])⟩
  simp only [kind,contractionOf,dimsX]
  rfl

end Shapes

theorem evalOpContraction
    (kind : (g.op id).kind ∈ [Structured.matmulKind, Structured.genericKind, Structured.batchReduceMatmulKind]) :
    Structured.isStructured (g.op id) = true ∧ (evalOp g id : Exec α Unit) = structured g id := by
  simp only [mem_cons,not_mem_nil,or_false] at kind
  rcases kind with kind | kind | kind <;>
  · simp only [evalOp,Structured.isStructured,kind]
    exact ⟨rfl,rfl⟩

end Eval

namespace Structured

variable {op : Operation} {u v w : Operand}

theorem splitOperands (inputs : inputs op = .ok [u, v]) (outputs : outputs op = .ok [w]) :
    op.operands = [u, v, w] ∧ numInputs op = 2 := by
  obtain ⟨n,number,within,left,right⟩ := operandsSplit inputs outputs
  obtain rfl : n = 2 := by simpa [Nat.min_eq_left within] using (congrArg length left).symm
  obtain ⟨nonneg,-,count⟩ := countWithinOk number
  obtain ⟨k,small,same⟩ := Word.existsOfNonneg nonneg
  rw [same,Word.toNatOfNat small] at count
  refine ⟨?_,by rw [same,← count]; rfl⟩
  rw [← take_append_drop 2 op.operands,← left,← right]
  rfl

end Structured

namespace ToPrimitive

open Eval

variable {α : Type} [Scalar α] {g : Graph} {id : OpId} {b : BlockId} {x y z : Value} {name kind : String} {d : Draft}
  {mx my mz : AffineMap} {memory : Array (NdArray α)} {args : List Ref}

/-- What is asked where a contraction writes a buffer: it is not read as well, its elements can be counted, and arrays are
what they are declared to be. -/
structure Placed (g : Graph) (id : OpId) (memory : Array (NdArray α)) (args : List Ref) : Prop where
  apart : ∀ u v w, (g.op id).operands = [u, v, w] → w ≠ u ∧ w ≠ v
  count : ∀ u v w, (g.op id).operands = [u, v, some w] → (g.typeOf w).exactCount < 2 ^ 63
  declared : ∀ j ∈ (g.block Graph.body).ops, g.Declared j
  counted : CountedArguments memory args
  distinct : args.Nodup

theorem replaceContracts (formed : g.WellFormed) (mem : id ∈ g.walkAll) (ready : Prepared g id (g.Seen id) d)
    (old : (g.op id).kind ∈ [Structured.matmulKind, Structured.genericKind, Structured.batchReduceMatmulKind])
    (new : kind ∉ [identityKind, reluKind, addKind])
    (operands : (g.op id).operands = [some x, some y, some z]) (two : Structured.numInputs (g.op id) = 2)
    (places : ∀ v ∈ [x, y, z], (g.typeOf v).isTensor = false) (maps : Eval.indexingMaps (g.op id) = .ok [mx, my, mz])
    (accumulates : ∀ b, (g.op id).region = some b → Accumulates α g b)
    (contracts : ∀ op : Operation, verify g op = .ok () → op.kind = kind → op.operands =
      [some x, some y, some z] → ∀ ws, loopExtents g [mx, my, mz] [some x, some y, some z] = .ok ws →
      ContractsAs g kind mx my mz x y z ws) (placed : Placed g id memory args) (valid : ∀ r ∈ args, r < memory.size)
    (drafted : replace ⟨name,id⟩ kind [some x, some y] (some z) (.ofGraph g) = .ok () d) :
    RefinesBy g d id memory args := by
  obtain ⟨isStructured,evaluated⟩ := evalOpContraction (α := α) old
  obtain ⟨verified,draft⟩ := replaceOk (places z (by simp)) drafted
  refine replaceRefines formed mem ready verified draft isStructured (by rw [operands]; exact fun _ used => used)
    placed.declared valid placed.counted placed.distinct fun pre post split g' here types checked s t _ distinct sane ok => ?_
  obtain ⟨_,_,op⟩ := here
  have kind' : (g'.op g.ops.size).kind = kind := by rw [op]; rfl
  have operands' : (g'.op g.ops.size).operands = [some x, some y, some z] := by rw [op]; rfl
  have types (v : Value) (used : v ∈ [x, y, z]) : g'.typeOf v = g.typeOf v :=
    types v (by rw [operands]; simpa using used)
  have known : verify g (g'.op g.ops.size) = .ok () :=
    (verifyCongr rfl rfl fun v used => (types v (by simpa [operands'] using used)).symm).trans checked
  rw [evaluated] at ok
  obtain ⟨ms,c,ws,rs,indexing,inner,extents,bound,points⟩ := structuredPlace places operands ok
  cases indexing.symm.trans maps
  have apart : z ≠ x ∧ z ≠ y := by simpa using placed.apart _ _ _ operands
  obtain ⟨rx,ry,rz,rfl⟩ := length_eq_three.mp (by simpa using congrArg length bound.symm)
  obtain ⟨boundX,boundY,boundZ⟩ : s.env x = some rx ∧ s.env y = some ry ∧ s.env z = some rz := by simpa using bound
  have fit {v : Value} {r : Ref} (bound : s.env v = some r) (used : v ∈ [x, y, z]) :
      (s.arrayAt r).type = g.typeOf v ∧ (s.arrayAt r).Counted :=
    (sane.fits bound).1 (Propagation.operandsHas formed (split ▸ mem_append_right _ (.head _))
      (by rw [operands]; simpa using used))
  rw [two] at points
  obtain ⟨typeZ,countedZ⟩ := fit boundZ (by simp)
  exact (kind' ▸ contracts _ known kind' operands' ws extents : ContractsAs g (g'.op g.ops.size).kind mx my mz x y z ws).run
    (accumulates c inner) checked (kind' ▸ new) operands' ((types z (by simp)).symm ▸ places z (by simp)) apart distinct boundX
    boundY boundZ (fit boundX (by simp)).1 (fit boundY (by simp)).1 typeZ countedZ
    (placed.count _ _ _ operands) points

theorem bufferOperands {u v w} (operands : (g.op id).operands = [u, v, w])
    (buffers : Structured.hasBufferSemantics g (g.op id) = .ok true) :
    ∃ x y z, u = some x ∧ v = some y ∧ w = some z ∧ ∀ v ∈ [x, y, z], (g.typeOf v).isTensor = false := by
  have present := Structured.allTypesOk.mp buffers
  rw [operands] at present
  simp only [forall_mem_cons,not_mem_nil,false_imp_iff,implies_true,and_true,Bool.not_eq_true'] at present ⊢
  obtain ⟨⟨x,rfl,placeX⟩,⟨y,rfl,placeY⟩,⟨z,rfl,placeZ⟩⟩ := present
  exact ⟨x,y,z,rfl,rfl,rfl,placeX,placeY,placeZ⟩

theorem namedOk (built : g.Built id) (named : namedInputs? (g.op id).kind = some 2)
    (ok : (do checkBuffers ⟨name,id⟩; replaceAll ⟨name,id⟩ kind) (.ofGraph g) = .ok () d) :
    ∃ x y z, (g.op id).operands = [some x, some y, some z] ∧ Structured.numInputs (g.op id) = 2 ∧
      (∀ v ∈ [x, y, z], (g.typeOf v).isTensor = false) ∧
      replace ⟨name,id⟩ kind [some x, some y] (some z) (.ofGraph g) = .ok () d := by
  obtain ⟨count,two⟩ := built.named 2 named
  obtain ⟨u,v,w,operands⟩ := length_eq_three.mp count
  obtain ⟨_,⟨buffers,-⟩,ok⟩ := Step.pass checkBuffersOk ok
  obtain ⟨x,y,z,rfl,rfl,rfl,places⟩ := bufferOperands operands buffers
  obtain ⟨_,_,out,inputs,outputs,first,ok⟩ := replaceAllOk ok
  obtain ⟨rfl,rfl⟩ := Structured.twoInputs two operands inputs outputs
  cases first
  exact ⟨x,y,z,operands,two,places,ok⟩

theorem genericMatmulOk (ok : genericMatmul.draft ⟨name,id⟩ (.ofGraph g) = .ok () d) :
    ∃ x y z, (g.op id).operands = [some x, some y, some z] ∧ Structured.numInputs (g.op id) = 2 ∧
      (∀ v ∈ [x, y, z], (g.typeOf v).isTensor = false) ∧ Body.hasMatmulBody g (g.op id) = .ok true ∧
      Body.hasMatmulMaps (g.op id) = .ok true ∧
      replace ⟨name,id⟩ Primitive.matmulKind [some x, some y] (some z) (.ofGraph g) = .ok () d := by
  obtain ⟨_,ok⟩ := Step.skip Blocking.checkMarkReads ok
  obtain ⟨_,⟨buffers,-⟩,ok⟩ := Step.pass checkBuffersOk ok
  obtain ⟨_,⟨body,maps⟩,ok⟩ := Step.pass Blocking.checkMatmulBodyOk ok
  obtain ⟨⟨u,v,w⟩,⟨inputs,outputs⟩,ok⟩ := Step.pass Blocking.matmulOperandsOk ok
  obtain ⟨operands,two⟩ := Structured.splitOperands inputs outputs
  obtain ⟨x,y,z,rfl,rfl,rfl,places⟩ := bufferOperands operands buffers
  exact ⟨x,y,z,operands,two,places,body,maps,ok⟩

end ToPrimitive

def Graph.Bodied (g : Graph) (id : OpId) : Prop :=
  ∀ b ∈ (g.op id).region, if (g.op id).kind = Structured.genericKind then ∃ pre yield, g.Straight b pre yield
    else ∃ mul add yield, g.MulAdds b mul add yield

namespace Eval

variable {α : Type} [Scalar α] {g : Graph} {id : OpId} {b : BlockId} (bodied : g.Bodied id) (region : (g.op id).region = some b)

include bodied region

theorem namedAccumulates (named : (g.op id).kind ≠ Structured.genericKind) : Accumulates α g b := by
  have body := bodied b region
  rw [if_neg named] at body
  obtain ⟨mul,add,yield,adds⟩ := body
  intro x y z ys ran
  rw [mulAddsBody adds] at ran
  exact (Except.ok.inj ran).symm

theorem genericAccumulates [Scalar.Commutes α] (formed : g.WellFormed) (mem : id ∈ g.walkAll)
    (generic : (g.op id).kind = Structured.genericKind) (found : Body.hasMatmulBody g (g.op id) = .ok true) :
    Accumulates α g b := by
  have body := bodied b region
  rw [if_pos generic] at body
  obtain ⟨pre,yield,straight⟩ := body
  obtain ⟨_,_,_,_,_,outer,split,-⟩ := Graph.atOfWalk .body mem
  rw [Body.hasMatmulBody,region] at found
  have encloses : g.Encloses _ b := ⟨formed,outer.region split region⟩
  exact fun x y z ys ran => isAddMulAccumulates encloses.sees straight found ran

end Eval

namespace ToPrimitive

open Eval

variable {α : Type} [Scalar α] [Scalar.Commutes α] {g : Graph} {id : OpId} {d : Draft} {memory : Array (NdArray α)} {args : List Ref}

theorem placedRefines {r : Rule} (listed : r ∈ [matmul, genericMatmul, brgemm]) (formed : g.WellFormed)
    (mem : id ∈ g.walkAll) (root : (g.op id).kind = r.root) (built : g.Built id) (bodied : g.Bodied id)
    (placed : Placed g id memory args) (valid : ∀ r ∈ args, r < memory.size)
    (drafted : r.draft ⟨r.name,id⟩ (.ofGraph g) = .ok () d) : RefinesBy g d id memory args := by
  have sight := formed.sightOf mem
  simp only [mem_cons,not_mem_nil,or_false] at listed
  rcases listed with rfl | rfl | rfl
  · obtain ⟨x,y,z,operands,two,places,ok⟩ := namedOk built (by rw [root]; rfl) drafted
    refine replaceContracts formed mem (namedReady sight drafted) (by simp [root,matmul]) (by decide) operands two places
      (by rw [Eval.indexingMaps,root]; rfl) (fun b region => namedAccumulates bodied region (by rw [root]; decide)) ?_ placed
      valid ok
    exact fun op verified kind operands ws extents => kind ▸ planeContracts verified operands kind extents
  · obtain ⟨x,y,z,operands,two,places,found,maps,ok⟩ := genericMatmulOk drafted
    refine replaceContracts formed mem (genericMatmulReady sight drafted) (by simp [root,genericMatmul]) (by decide) operands
      two places (by rw [Eval.indexingMaps,root,(Body.ofHasMatmulMaps maps).1]; rfl)
      (fun b region => genericAccumulates bodied region formed mem root found) ?_ placed valid ok
    exact fun op verified kind operands ws extents => kind ▸ planeContracts verified operands kind extents
  · obtain ⟨x,y,z,operands,two,places,ok⟩ := namedOk built (by rw [root]; rfl) drafted
    refine replaceContracts formed mem (namedReady sight drafted) (by simp [root,brgemm]) (by decide) operands two places
      (by rw [Eval.indexingMaps,root]; rfl) (fun b region => namedAccumulates bodied region (by rw [root]; decide)) ?_ placed
      valid ok
    exact fun op verified kind operands ws extents => kind ▸ batchContracts verified operands kind extents

end ToPrimitive

end TileLower

import TileLower.Proofs.Extensions
import TileLower.Proofs.Folds
import TileLower.Proofs.Reorderings

/-!
Blocked operations. The operands of a structured operation are packed, its body runs over the blocked loops, and the
result is unpacked.
-/
namespace TileLower

open Draft Step NdArray Memory Box List

namespace Structured

theorem allTypesOk {g : Graph} {p vs} :
    allTypes g p vs = .ok true ↔ ∀ v ∈ vs, ∃ w, v = some w ∧ p (g.typeOf w) = true := by
  induction vs with
  | nil => simp [allTypes]
  | cons v vs ih =>
    rw [forall_mem_cons,allTypes,Outcome.bindOk]
    cases v with
    | none => simp [Graph.operandType]
    | some w =>
      by_cases here : p (g.typeOf w) = true
      · simp [Graph.operandType,here,ih]
      · simp [Graph.operandType,here]

end Structured

namespace Relayout

structure PackedAs (l : Layout) (flat blocked : ValueType) : Prop where
  tensor : flat.isTensor = true
  divides : l.divides flat.dims = .ok true
  shape : l.packedType flat = .ok blocked

theorem PackedAs.blockedTensor {l} {flat blocked : ValueType} (packed : PackedAs l flat blocked) :
    blocked.isTensor = true ∧ blocked.withKind .tensor = blocked := by
  obtain ⟨dims,-,made⟩ := Outcome.bindOk.mp packed.shape
  cases made
  have kind : flat.kind = .tensor := of_decide_eq_true packed.tensor
  refine ⟨packed.tensor,?_⟩
  cases flat
  cases kind
  rfl

theorem PackedAs.dims {l : Layout} {flat blocked : ValueType} (packed : PackedAs l flat blocked) :
    l.packedShape flat.dims = .ok blocked.dims := by
  obtain ⟨dims,shape,made⟩ := Outcome.bindOk.mp packed.shape
  cases made
  exact shape

variable {g : Graph} {ops : List Operation} {v w : Operand} {l : Layout} {b : Blanks} {e : Draft}

theorem packRun {a : Value} {t} (below : a.Below g.ops.size) (packed : PackedAs l (g.typeOf a) t) :
    pack (some a) l b (.staged g ops) = .ok (some (.result (g.ops.size + ops.length + 1) 0))
      (.staged g (ops ++ [emptyOp t,
        convertOp packKind (some a) (some (.result (g.ops.size + ops.length) 0)) t l b])) := by
  obtain ⟨isTensor,kind⟩ := packed.blockedTensor
  have typeA : (staged g ops).graph.typeOf a = g.typeOf a := g.pushAllType ops below
  have blocked : packedTypeOf l (g.typeOf a) = .ok t := by
    have shaped : (g.typeOf a).isShaped = true := by rw [ValueType.isShaped,packed.tensor,Bool.true_or]
    rw [packedTypeOf,if_neg (not_not.mpr shaped),packed.divides,Outcome.bindOfOk,if_pos rfl,packed.shape]
  have size : (staged g ops).graph.ops.size = g.ops.size + ops.length := g.pushAllSize ops
  have type : (staged g (ops ++ [emptyOp t])).graph.typeOf (.result (g.ops.size + ops.length) 0) = t :=
    (g.pushAllResultType _ getElem?_concat_length 0).trans kind
  rw [pack,bindOfOk (Drafting.typeOfRun a),typeA,bindOfOk (Drafting.liftOk.mpr ⟨blocked,rfl⟩),destination,
    if_pos isTensor,bindOfOk (emptyRun t),stagedPush,size,emitRun,type,if_pos isTensor,
    stagedPush,append_assoc,show (staged g _).graph.ops.size = _ from g.pushAllSize _,length_append]
  rfl

theorem packOk (seen : ∀ a, v = some a → a.Below g.ops.size ∧ (g.typeOf a).isBuffer = false)
    (ok : pack v l b (.staged g ops) = .ok w e) :
    ∃ a t, v = some a ∧ PackedAs l (g.typeOf a) t ∧ w = some (.result (g.ops.size + ops.length + 1) 0) ∧
      e = .staged g (ops ++ [emptyOp t,
        convertOp packKind v (some (.result (g.ops.size + ops.length) 0)) t l b]) := by
  obtain ⟨_,_,ran,rest⟩ := bindOk.mp ok
  obtain ⟨⟨a,rfl,rfl⟩,rfl⟩ := Drafting.typeOfOk.mp ran
  obtain ⟨below,tensor⟩ := seen a rfl
  obtain ⟨t,packed,-⟩ := Step.read Drafting.liftOk rest
  rw [show (staged g ops).graph.typeOf a = g.typeOf a from g.pushAllType ops below] at packed
  obtain ⟨shaped,packed⟩ := (Outcome.checkOk fun u => (nofun : ¬ Outcome.fail _ = .ok u)).mp packed
  obtain ⟨divides,divided,packed⟩ := Outcome.bindOk.mp packed
  cases divides with
  | false => cases packed
  | true =>
    have packed : PackedAs l (g.typeOf a) t := by
      refine ⟨?_,divided,packed⟩
      rw [not_not,ValueType.isShaped,tensor,Bool.or_false] at shaped
      exact shaped
    rw [packRun below packed] at ok
    cases ok
    exact ⟨a,t,rfl,packed,rfl,rfl⟩

theorem unpackRun {dr : Draft} {v w} {l : Layout} {b} (divides : l.divides (dr.graph.typeOf w).dims = .ok true)
    (shape : l.packedShape (dr.graph.typeOf w).dims = .ok (dr.graph.typeOf v).dims) :
    unpack (some v) (some w) l b dr =
      .ok (some (if (dr.graph.typeOf w).isTensor then .result dr.graph.ops.size 0 else w))
        (dr.push (convertOp unpackKind (some v) (some w) (dr.graph.typeOf w) l b)) := by
  rw [unpack,bindOfOk (Drafting.typeOfRun w),bindOfOk (Drafting.liftOk.mpr ⟨divides,rfl⟩)]
  simp only [if_true]
  rw [bindOfOk (Drafting.liftOk.mpr ⟨shape,rfl⟩),bindOfOk (Drafting.typeOfRun v),if_neg (by simp)]
  exact emitRun ..

end Relayout

namespace Blocking

open Relayout Structured

def packedOps (n : Nat) (a b c : Value) (la lb lc : Layout) (ta tb tc : ValueType) : List Operation :=
  [emptyOp ta, convertOp packKind (some a) (some (.result n 0)) ta la .kept,
    emptyOp tb, convertOp packKind (some b) (some (.result (n + 2) 0)) tb lb .kept,
    emptyOp tc, convertOp packKind (some c) (some (.result (n + 4) 0)) tc lc .kept]

def blockedOps (n : Nat) (c : Value) (lc : Layout) (tc t : ValueType) (maps : List AffineMap)
    (iterators : List Iterator) : List Operation :=
  [madeOp genericKind [some (.result (n + 1) 0), some (.result (n + 3) 0)] [some (.result (n + 5) 0)] [tc]
      (genericAttrs maps iterators ""),
    convertOp unpackKind (some (.result (n + 6) 0)) (some c) t lc .kept]

variable {g : Graph} {s : Site} {d e : Draft} {la lb lc : Layout} {maps : List AffineMap} {iterators : List Iterator}

theorem packAllOk {x y z vs}
    (known : ∀ v ∈ [x, y, z], ∀ a, v = some a → a.Below g.ops.size ∧ (g.typeOf a).isBuffer = false)
    (ok : packAll s [⟨x,la⟩, ⟨y,lb⟩, ⟨z,lc⟩] (ofGraph g) = .ok vs d) :
    ∃ a b c ta tb tc, [x, y, z] = [some a, some b, some c] ∧
      (PackedAs la (g.typeOf a) ta ∧ PackedAs lb (g.typeOf b) tb ∧ PackedAs lc (g.typeOf c) tc) ∧ vs =
      [some (.result (g.ops.size + 1) 0), some (.result (g.ops.size + 3) 0), some (.result (g.ops.size + 5) 0)] ∧ d =
      .staged g (packedOps g.ops.size a b c la lb lc ta tb tc) := by
  rw [← stagedNil] at ok
  obtain ⟨_,_,ran,ok⟩ := bindOk.mp ok
  obtain ⟨a,ta,rfl,left,rfl,rfl⟩ := packOk (known x (by simp)) (Site.expectOk.mp ran)
  obtain ⟨_,_,rest,ok⟩ := bindOk.mp ok
  cases ok
  obtain ⟨_,_,ran,ok⟩ := bindOk.mp rest
  obtain ⟨b,tb,rfl,right,rfl,rfl⟩ := packOk (known y (by simp)) (Site.expectOk.mp ran)
  obtain ⟨_,_,rest,ok⟩ := bindOk.mp ok
  cases ok
  obtain ⟨_,_,ran,ok⟩ := bindOk.mp rest
  obtain ⟨c,tc,rfl,out,rfl,rfl⟩ := packOk (known z (by simp)) (Site.expectOk.mp ran)
  obtain ⟨_,_,rest,ok⟩ := bindOk.mp ok
  cases ok
  cases rest
  exact ⟨a,b,c,ta,tb,tc,rfl,⟨left,right,out⟩,rfl,rfl⟩

theorem replaceWithBlockedRun {c : Value} {ops : List Operation} {tc} (six : ops.length = 6)
    (type : (g.pushAll ops).typeOf (.result (g.ops.size + 5) 0) = tc) (below : c.Below g.ops.size)
    (packed : PackedAs lc (g.typeOf c) tc) :
    replaceWithBlocked s [some (.result (g.ops.size + 1) 0), some (.result (g.ops.size + 3) 0)]
      (some (.result (g.ops.size + 5) 0)) maps iterators ⟨some c,lc⟩ (.staged g ops) =
    replace s.op [some (.result (g.ops.size + 7) 0)]
      { staged g (ops ++ blockedOps g.ops.size c lc tc (g.typeOf c) maps iterators) with
        moves := [(some s.op, some (g.ops.size + 6))] } := by
  have isTensor := packed.blockedTensor.1
  have size : (staged g ops).graph.ops.size = g.ops.size + 6 := six ▸ g.pushAllSize ops
  have types : (staged g ops).graph.operandTypes [some (.result (g.ops.size + 5) 0)] = .ok [tc] := by
    rw [← type]
    rfl
  generalize built : madeOp genericKind [some (.result (g.ops.size + 1) 0), some (.result (g.ops.size + 3) 0)]
    [some (.result (g.ops.size + 5) 0)] [tc] (genericAttrs maps iterators "") = o
  have slots : o.results = [.ofType tc] := by
    rw [← built,madeOp,filter_cons_of_pos isTensor]
    rfl
  have pushed := stagedPush g ops o
  rw [push,size] at pushed
  have made : Structured.makeGeneric [some (.result (g.ops.size + 1) 0), some (.result (g.ops.size + 3) 0)]
      [some (.result (g.ops.size + 5) 0)] maps iterators "" none (.staged g ops) = .ok (g.ops.size + 6)
        { staged g ops with graph := (g.pushAll ops).push o } := by
    rw [← size,← built]
    exact bindOfOk (Drafting.typesOfOk.mpr ⟨types,rfl⟩) _
  let d : Draft := { staged g (ops ++ [o]) with moves := [(some s.op, some (g.ops.size + 6))] }
  let u := convertOp unpackKind (some (.result (g.ops.size + 6) 0)) (some c) (g.typeOf c) lc .kept
  have listed : Drafting.list (g.ops.size + 6) { staged g ops with graph := (g.pushAll ops).push o } =
      .ok () (.staged g (ops ++ [o])) := by
    rw [← pushed]
    rfl
  have moved : moveRegion (some s.op) (some (g.ops.size + 6)) (.staged g (ops ++ [o])) = .ok () d := rfl
  have sizeD : d.graph.ops.size = g.ops.size + 7 := (g.pushAllSize _).trans (by rw [length_append,six]; rfl)
  have opD : d.graph.op (g.ops.size + 6) = o := six ▸ g.pushAllNew _ getElem?_concat_length
  have typeC : d.graph.typeOf c = g.typeOf c := g.pushAllType _ below
  have typeR : d.graph.typeOf (.result (g.ops.size + 6) 0) = tc := by
    simp only [Graph.typeOf,Graph.slot,opD,slots]
    rfl
  have result : d.graph.resultAt (g.ops.size + 6) 0 = .ok (.result (g.ops.size + 6) 0) := by
    refine Graph.resultAtOk.mpr ⟨?_,rfl⟩
    rw [opD,slots]
    exact Nat.zero_lt_one
  have unpacked : unpack (some (.result (g.ops.size + 6) 0)) (some c) lc .kept d =
      .ok (some (.result (g.ops.size + 7) 0)) (d.push u) := by
    rw [unpackRun (by rw [typeC]; exact packed.divides) (by rw [typeC,typeR]; exact packed.dims),typeC,
      if_pos packed.tensor,sizeD]
  rw [replaceWithBlocked,bindOfOk made,bindOfOk listed,bindOfOk moved,
    bindOfOk (askOk.mpr ⟨result,rfl⟩),bindOfOk (Site.expectOk.mpr unpacked)]
  have all := stagedPush g (ops ++ [o]) u
  rw [append_assoc] at all
  rw [blockedOps,built,show [o, _] = [o] ++ [u] from rfl,← all]
  rfl

structure Blocks (g : Graph) (id : OpId) (a b c : Value) (la lb lc : Layout) (ta tb tc : ValueType)
    (maps : List AffineMap) (iterators : List Iterator) (d : Draft) : Prop where
  operands : (g.op id).operands = [some a, some b, some c]
  left : PackedAs la (g.typeOf a) ta
  right : PackedAs lb (g.typeOf b) tb
  out : PackedAs lc (g.typeOf c) tc
  draft : d = { staged g (packedOps g.ops.size a b c la lb lc ta tb tc ++
      blockedOps g.ops.size c lc tc (g.typeOf c) maps iterators) with
    moves := [(some id, some (g.ops.size + 6))]
    replacements := [(id, [some (.result (g.ops.size + 7) 0)])] }

theorem blockWithOk (two : numInputs (g.op s.op) = 2) (three : (g.op s.op).operands.length = 3)
    (seen : ∀ v, some v ∈ (g.op s.op).operands → v.Below g.ops.size)
    (tensors : hasTensorSemantics g (g.op s.op) = .ok true)
    (ok : blockWith s la lb lc maps iterators (ofGraph g) = .ok () e) :
    ∃ a b c ta tb tc, Blocks g s.op a b c la lb lc ta tb tc maps iterators e := by
  have known (v : Operand) (mem : v ∈ (g.op s.op).operands) (w : Value) (same : v = some w) :
      w.Below g.ops.size ∧ (g.typeOf w).isBuffer = false := by
    subst same
    obtain ⟨_,same,tensor⟩ := allTypesOk.mp tensors _ mem
    cases same
    exact ⟨seen w mem,by simpa using tensor⟩
  obtain ⟨x,y,z,operands⟩ := length_eq_three.mp three
  obtain ⟨⟨ins,outs⟩,⟨inputs,outputs⟩,ok⟩ := Step.read operandsAtOk ok
  obtain ⟨rfl,rfl⟩ := twoInputs two operands inputs outputs
  obtain ⟨_,at_,ok⟩ := Step.read nthOk ok
  cases at_
  obtain ⟨_,at_,ok⟩ := Step.read nthOk ok
  cases at_
  obtain ⟨_,at_,ok⟩ := Step.read nthOk ok
  cases at_
  obtain ⟨_,-,ok⟩ := Step.read checkDividesOk ok
  obtain ⟨vs,d,packed,blocked⟩ := bindOk.mp ok
  rw [operands] at known
  obtain ⟨a,b,c,ta,tb,tc,same,⟨left,right,out⟩,rfl,rfl⟩ := packAllOk known packed
  cases same
  refine ⟨a,b,c,ta,tb,tc,operands,left,right,out,?_⟩
  have type : (g.pushAll (packedOps g.ops.size a b c la lb lc ta tb tc)).typeOf (.result (g.ops.size + 5) 0) = tc := by
    refine (g.pushAllResultType _ (m := 5) rfl 0).trans ?_
    rw [convertOp,if_pos out.blockedTensor.1]
    rfl
  obtain ⟨_,-,-,rfl⟩ := replaceOk ((replaceWithBlockedRun rfl type (known _ (by simp) c rfl).1 out).symm.trans blocked)
  rfl

end Blocking

namespace Blocking

open Relayout Structured Eval

theorem Blocks.swap (α : Type) [Scalar α] {g : Graph} {id x y z lx ly lz tx ty tz maps iterators} {d : Draft}
    (blocks : Blocks g id x y z lx ly lz tx ty tz maps iterators d) (formed : g.WellFormed) (mem : id ∈ g.walkAll)
    (ready : Prepared g id (g.Seen id) d) (region : (g.op id).region.isSome)
    (isStructured : isStructured (g.op id) = true) : (d.commit id).fault = none ∧
      (∃ b, Swap α g (d.commit id).graph id b (range' g.ops.size 8) [.result (g.ops.size + 7) 0] ∧
        ∀ m o, (packedOps g.ops.size x y z lx ly lz tx ty tz ++
            blockedOps g.ops.size z lz tz (g.typeOf z) maps iterators)[m]? = some o →
          (d.commit id).graph.op (g.ops.size + m) = { o with
            block := some b
            region := if some (g.ops.size + 6) = some (g.ops.size + m) then (g.op id).region else o.region }) ∧
      (g.op id).results.length = 1 ∧ g.typeOf (.result id 0) = g.typeOf z := by
  obtain ⟨target,vals,ready⟩ := ready
  have draft := blocks.draft
  obtain rfl : target = some (g.ops.size + 6) := by
    have moves := ready.moves
    rw [draft] at moves
    cases target with
    | none => cases moves
    | some t =>
      have same := congrArg Prod.snd (head_eq_of_cons_eq moves)
      exact same.symm
  obtain rfl : vals = [.result (g.ops.size + 7) 0] := ready.values (by rw [draft]; rfl)
  obtain ⟨fault,swap⟩ := Swap.ofPushed (α := α) ready formed mem (.inr region) (.ofStructured isStructured)
    (by rw [draft]; rfl) (by rw [draft]; rfl) (by
      simp only [packedOps,blockedOps,cons_append,nil_append,forall_mem_cons,convertOp,madeOp,
        emptyOp]
      decide)
  have type := ready.types 0 _ rfl
  rw [draft] at type
  refine ⟨fault,swap,ready.length.symm,type.symm.trans ((g.pushAllResultType _ (m := 7) rfl 0).trans ?_)⟩
  rw [convertOp,if_pos blocks.out.tensor]
  rfl

end Blocking

def Graph.IsAt (g : Graph) (id : OpId) (o : Operation) : Prop := ∃ block region, g.op id = { o with block, region }

namespace Eval

open Box (Inside)
open Relayout Structured

variable {α : Type} [Scalar α] {g : Graph} {m : OpId} {v w : Value} {l : Layout} {b : Blanks} {t flat : ValueType}
  {ns : List Nat} {T : Tiling ns.length} {s : Machine α} {r : Ref}

omit [Scalar α] in
theorem filledFull (x : α) {ms : List Nat} (dims : t.dims = words ms) (small : Small ms)
    (short : ms.prod ≤ lengthLimit.toNatClampNeg) : ∃ z, NdArray.filled t x = .ok z ∧ z.Full ms ∧ z.type = t := by
  have fits : ms.prod < wordBound := short.trans_lt (by decide)
  have count : t.numElements = Int64.ofNat ms.prod := by rw [ValueType.numElements,dims,countWords]
  refine ⟨_,filledOk.mpr ⟨?_,rfl⟩,⟨dims,small,?_,fits⟩,rfl⟩
  · rw [count,Word.leLimit fits]
    exact ⟨Word.ofNatNonneg fits,short⟩
  · rw [Array.size_replicate,count,Word.toNatOfNat fits]

theorem emptyStage (here : g.IsAt m (emptyOp t)) (kind : t.withKind .tensor = t) {ms : List Nat}
    (dims : t.dims = words ms) (small : Small ms) (short : ms.prod ≤ lengthLimit.toNatClampNeg) (s : Machine α) :
    ∃ z : NdArray α, evalOp g m s = .ok () (s.bindFresh (.result m 0) z) ∧ z.Full ms ∧ z.type = t := by
  obtain ⟨_,_,op⟩ := here
  obtain ⟨z,filled,full,type⟩ := filledFull (Scalar.zero : α) dims small short
  refine ⟨z,?_,full,type⟩
  have isNew : (evalOp g m : Exec α Unit) = evalNew g m := by
    simp only [evalOp,op]
    rfl
  have found : g.resultAt m 0 = .ok (.result m 0) := Graph.resultAtOk.mpr ⟨by rw [op]; exact Nat.zero_lt_one,rfl⟩
  have typeOf : g.typeOf (.result m 0) = t := by
    simp only [Graph.typeOf,Graph.slot,op]
    exact kind
  have named : result g m 0 s = .ok (.result m 0) s := by
    rw [result,found]
    rfl
  have made : newResult g m s = .ok z s := by
    rw [newResult,bindOfOk named,typeOf,filled]
    rfl
  rw [isNew,evalNew,bindOfOk named,bindOfOk made]
  rfl

theorem convertsAt {kind} (here : g.IsAt m (convertOp kind (some v) (some w) t l b)) (tensor : t.isTensor = true)
    (describes : l.Describes T) : Converts g m v w T := by
  obtain ⟨_,_,op⟩ := here
  refine ⟨by rw [op]; rfl,by rw [op]; rfl,?_,fun _ => ?_⟩
  · rw [layoutOfAttrs (l := l) (b := b) (by rw [op]; rfl)]
    exact describes
  · have one : (g.op m).results = [.ofType t] := by rw [op,convertOp,if_pos tensor]
    rw [one,length_singleton]
    decide

theorem convertType {kind} (here : g.IsAt m (convertOp kind (some v) (some w) t l b)) (tensor : t.isTensor = true) :
    g.typeOf (.result m 0) = t := by
  obtain ⟨_,_,op⟩ := here
  rw [Graph.typeOf,Graph.slot,op,convertOp,if_pos tensor]
  rfl

structure Carries (s : Machine α) (v : Value) (t : ValueType) (ns : List Nat) (a : NdArray α) : Prop where
  bound : ∃ r, s.env v = some r ∧ s.arrayAt r = a
  type : a.type = t
  full : a.Full ns
  short : ns.prod ≤ lengthLimit.toNatClampNeg

omit [Scalar α] in
theorem Carries.later {n a u} (carries : Carries s v t ns a) (extends_ : Extends n s u) (below : v.Below n) :
    Carries u v t ns a := by
  obtain ⟨⟨r,bound,rfl⟩,type,full,short⟩ := carries
  exact ⟨⟨r,(extends_.env v below).trans bound,extends_.old r (fullValid full)⟩,type,full,short⟩

structure TiledAs (l : Layout) (flat blocked : ValueType) (ns : List Nat) (T : Tiling ns.length) : Prop
    extends PackedAs l flat blocked, l.Tiles flat blocked ns T where
  whole : T.Divides ns

theorem TiledAs.exist (packed : PackedAs l flat t) (rank : flat.rank ≤ lengthLimit.toNatClampNeg)
    (nonneg : ∀ n ∈ flat.dims, 0 ≤ n) (rounds : l.RoundsUp flat.dims) : ∃ ns T, TiledAs l flat t ns T := by
  obtain ⟨ns,T,tiles⟩ := Layout.Packs.tiles ⟨rank,nonneg,rounds,packed.dims⟩
  have divides := packed.divides
  rw [tiles.flatDims] at divides
  exact ⟨ns,T,⟨packed,tiles,(tiles.describes.dividesIff (tiles.rank.trans_lt (by decide)) rfl
    tiles.small).mp divides⟩⟩

theorem TiledAs.packedFull (tiled : TiledAs l flat t ns T) {a : NdArray α} (full : a.Full ns) :
    (a.packed T ns t).Full (T.packed ns) :=
  tabulateFull _ tiled.blockedDims (T.packedSmall tiled.rounds) (T.packedProduct rfl tiled.whole ▸ full.fits)

theorem TiledAs.reads (tiled : TiledAs l flat t ns T) {a : NdArray α} (full : a.Full ns) {f f' : AffineMap} {i i'}
    (moved : ∀ x, Inside x ns → f.eval i = .ok (words x) → f'.eval i' = .ok (words (T.blocked x))) (x : α)
    (ok : (do a.get (← f.eval i)) = .ok x) : (do (a.packed T ns t).get (← f'.eval i')) = .ok x := by
  obtain ⟨xs,at_,got⟩ := Outcome.bindOk.mp ok
  obtain ⟨js,rfl,inside,rfl⟩ := full.gotten got
  exact Outcome.bindOk.mpr ⟨_,moved js inside at_,Full.packedGet rfl (tiled.packedFull full) inside⟩

structure Blockable (l : Layout) (t : ValueType) : Prop where
  nonneg : ∀ n ∈ t.dims, 0 ≤ n
  rounds : l.RoundsUp t.dims
  count : t.exactCount < 2 ^ 63

instance (l : Layout) (t : ValueType) : Decidable (Blockable l t) :=
  decidable_of_iff (t.dims.all (0 ≤ ·) = true ∧ l.RoundsUp t.dims ∧ t.exactCount < 2 ^ 63)
    ⟨fun ⟨nonneg,rounds,count⟩ => ⟨by simpa using nonneg,rounds,count⟩,
      fun ⟨nonneg,rounds,count⟩ => ⟨by simpa using nonneg,rounds,count⟩⟩

theorem Blockable.tiled (blockable : Blockable l flat) (packed : PackedAs l flat t)
    (rank : flat.rank ≤ lengthLimit.toNatClampNeg) : ∃ ns T, TiledAs l flat t ns T ∧ ns.prod < wordBound := by
  obtain ⟨ns,T,tiled⟩ := TiledAs.exist packed rank blockable.nonneg blockable.rounds
  have fits := blockable.count
  rw [ValueType.exactCount,tiled.flatDims,exactProductWords tiled.small] at fits
  rw [wordBound]
  exact ⟨ns,T,tiled,by exact_mod_cast fits⟩

omit [Scalar α] in
theorem Agree.carried {id vals n W p s'} (agree : Agree (View.before id vals n W (Makes g)) p s s') (below : v.Below n)
    (other : ∀ i, v ≠ .result id i) (has : g.Has v) (dims : (g.typeOf v).dims = words ns) (small : Small ns)
    (fits : ns.prod < wordBound) (bound : s.env v = some r) :
    ∃ a, Carries s v (g.typeOf v) ns a ∧ Carries s' v (g.typeOf v) ns a := by
  obtain ⟨⟨_,_,shape,made,short⟩,-⟩ := agree.env v r ⟨below,other⟩ bound
  obtain ⟨-,rfl,rfl⟩ := agree.shaped _ _ _ shape
  obtain ⟨r',bound',-,-,same⟩ := agree.kept below other bound
  obtain ⟨type,counted⟩ := made has
  have full : (s.arrayAt r).Full ns := Counted.full counted (by rw [type,dims]) small fits
  have short : ns.prod ≤ lengthLimit.toNatClampNeg := full.size ▸ short
  exact ⟨_,⟨⟨r,bound,rfl⟩,type,full,short⟩,⟨⟨r',bound',same⟩,type,full,short⟩⟩

section Generic

variable {ins outs : List Operand} {types : List ValueType} {maps : List AffineMap} {iterators : List Iterator}
  {call : String} (here : g.IsAt m (madeOp genericKind ins outs types (genericAttrs maps iterators call)))

include here

variable (α) in
theorem genericRun : (evalOp g m : Exec α Unit) = structured g m := by
  obtain ⟨_,_,op⟩ := here
  have isGeneric : (g.op m).kind = genericKind := by rw [op]; rfl
  simp only [evalOp,isStructured,isGeneric]
  rfl

theorem genericAt : indexingMaps (g.op m) = .ok maps ∧ (g.op m).operands = ins ++ outs ∧
    Structured.numInputs (g.op m) = Int64.ofNat ins.length ∧
    (g.op m).results = (types.filter ValueType.isTensor).map Slot.ofType := by
  obtain ⟨_,_,op⟩ := here
  have maps' : Structured.indexingMaps (g.op m) = maps := by
    have found : (genericAttrs maps iterators call).load? indexingMapsAttr = some (.maps maps) := by
      rw [genericAttrs]
      split <;> simp [Attributes.ofList,OrderedMap.loadStore,indexingMapsAttr,iteratorTypesAttr,libraryCallAttr]
    rw [Structured.indexingMaps,op,Attributes.maps?,madeOp,OrderedMap.loadStore,if_neg (by decide),found]
    rfl
  have count : Structured.numInputs (g.op m) = Int64.ofNat ins.length := by
    rw [Structured.numInputs,op,Attributes.int?,madeOp,OrderedMap.loadStore,if_pos rfl]
    rfl
  have isGeneric : (g.op m).kind = genericKind := by rw [op]; rfl
  refine ⟨?_,by rw [op]; rfl,count,by rw [op]; rfl⟩
  rw [indexingMaps,if_pos isGeneric,maps']

end Generic

theorem packStage (empty : g.IsAt m (emptyOp t))
    (pack : g.IsAt (m + 1) (convertOp packKind (some v) (some (.result m 0)) t l b)) (tiled : TiledAs l flat t ns T)
    (below : v.Below m) {a : NdArray α} (carries : Carries s v flat ns a) : ∃ u, evalEach g [m, m + 1] s = .ok () u ∧
      Extends m s u ∧ Carries u (.result (m + 1) 0) t (T.packed ns) (a.packed T ns t) := by
  obtain ⟨tensor,kind⟩ := tiled.blockedTensor
  obtain ⟨⟨r,bound,rfl⟩,type,full,short⟩ := carries
  have product := T.packedProduct rfl tiled.whole
  have small := T.packedSmall tiled.rounds
  obtain ⟨z,first,fullZ,typeZ⟩ := emptyStage empty kind tiled.blockedDims small (product ▸ short) s
  have typeOf : g.typeOf (.result m 0) = t := by
    obtain ⟨_,_,op⟩ := empty
    simp only [Graph.typeOf,Graph.slot,op]
    exact kind
  have isPack : (g.op (m + 1)).kind = packKind := by
    obtain ⟨_,_,op⟩ := pack
    rw [op]
    rfl
  have gives := givesFresh s (.result m 0) z
  have extends_ := Extends.bindFresh (Nat.le_refl m) s 0 z
  have valid := fullValid full
  have run := evalPackRun (s := s.bindFresh (.result m 0) z) (convertsAt pack tensor tiled.describes) tiled.rank rfl
    tiled.rounds ((extends_.env v below).trans bound) gives.bound
    (fun buffer => by rw [typeOf,tensor] at buffer; cases buffer) (by rw [extends_.old r valid]; exact full)
    (by rw [gives.array]; exact fullZ)
  rw [extends_.old r valid,gives.array,typeZ,Machine.delivered,typeOf,if_pos tensor,← evalOpPack isPack] at run
  have made := givesFresh (s.bindFresh (.result m 0) z) (.result (m + 1) 0) ((s.arrayAt r).packed T ns t)
  refine ⟨_,?_,extends_.trans (Extends.bindFresh (Nat.le_succ m) _ 0 _) (Nat.le_refl m),
    ⟨_,made.bound,made.array⟩,rfl,?_,product ▸ short⟩
  · exact evalEachAppend.mpr ⟨_,evalEachOne first,evalEachOne run⟩
  · exact tiled.packedFull full

theorem unpackStage (unpack : g.IsAt m (convertOp unpackKind (some v) (some w) flat l b)) (tensor : flat.isTensor = true)
    (describes : l.Describes T) (rank : ns.length ≤ lengthLimit.toNatClampNeg) (rounds : T.Rounds ns)
    (type : g.typeOf w = flat) {a c : NdArray α} (carries : Carries s v t (T.packed ns) a)
    (carries' : Carries s w flat ns c) :
    evalOp g m s = .ok () (s.bindFresh (.result m 0) (a.unpacked T ns flat)) := by
  obtain ⟨⟨r,bound,rfl⟩,-,full,-⟩ := carries
  obtain ⟨⟨q,bound',rfl⟩,type',full',-⟩ := carries'
  have isUnpack : (g.op m).kind = unpackKind := by
    obtain ⟨_,_,op⟩ := unpack
    rw [op]
    rfl
  have run := evalUnpackRun (convertsAt unpack tensor describes) rank rfl rounds bound bound'
    (fun buffer => by rw [type,tensor] at buffer; cases buffer) full full'
  rwa [type',Machine.delivered,type,if_pos tensor,← evalOpUnpack isUnpack] at run

open Blocking

section Contraction

variable {g' : Graph} {id : OpId} {region : BlockId} {x y z : Value} {lx ly lz : Layout} {tx ty tz : ValueType}
  {maps : List AffineMap} {iterators : List Iterator} {nx ny nz es es' : List Nat} {X : Tiling nx.length}
  {Y : Tiling ny.length} {Z : Tiling nz.length} {mx my mz mx' my' mz' : AffineMap} {key key' p : List Nat → List Nat}
  (stages : ∀ m o, (packedOps g.ops.size x y z lx ly lz tx ty tz ++
    blockedOps g.ops.size z lz tz (g.typeOf z) maps iterators)[m]? = some o → g'.IsAt (g.ops.size + m) o)

include stages

theorem contractionRun (tiledX : TiledAs lx (g.typeOf x) tx nx X) (tiledY : TiledAs ly (g.typeOf y) ty ny Y)
    (tiledZ : TiledAs lz (g.typeOf z) tz nz Z) (belowX : x.Below g.ops.size) (belowY : y.Below g.ops.size)
    (belowZ : z.Below g.ops.size) (type : g'.typeOf z = g.typeOf z)
    (nest : TensorNest g id region [mx, my] [mz] [x, y] [z] es nz key)
    (nest' : TensorNest g' (g.ops.size + 6) region [mx', my'] [mz']
      [.result (g.ops.size + 1) 0, .result (g.ops.size + 3) 0] [.result (g.ops.size + 5) 0] es' (Z.packed nz) key')
    (reorders : Reorders es es' nz (Z.packed nz) key key' p Z.blocked)
    (isStructured : (evalOp g' (g.ops.size + 6) : Exec α Unit) = structured g' (g.ops.size + 6))
    {ax ay az : NdArray α}
    (folds : ∀ k, Inside k nz → ∀ v w, ((grid es).filter (key · = k)).foldlM
      (fun v idx => nestStep g region 1 nz (readAll (words idx) [(mx, ax), (my, ay)]) (key idx) v) v = .ok w →
      ((grid es').filter (key' · = Z.blocked k)).foldlM (fun v idx =>
      nestStep g' region 1 (Z.packed nz) (readAll (words idx) [(mx', ax.packed X nx tx), (my', ay.packed Y ny ty)])
      (key' idx) v) v = .ok w) {s s' u : Machine α} (carryX : Carries s x (g.typeOf x) nx ax)
    (carryX' : Carries s' x (g.typeOf x) nx ax) (carryY : Carries s y (g.typeOf y) ny ay)
    (carryY' : Carries s' y (g.typeOf y) ny ay) (carryZ : Carries s z (g.typeOf z) nz az)
    (carryZ' : Carries s' z (g.typeOf z) nz az) (ok : structured g id s = .ok () u) :
    ∃ a, Leads g' (range' g.ops.size 8) g.ops.size s' (.result (g.ops.size + 7) 0) a ∧
      u = s.bindFresh (.result id 0) a ∧ a.type = g.typeOf z ∧ a.data.size = nz.prod := by
  obtain ⟨u1,run1,ext1,packedX⟩ := packStage (m := g.ops.size) (stages 0 _ rfl) (stages 1 _ rfl) tiledX belowX carryX'
  obtain ⟨u2,run2,ext2,packedY⟩ := packStage (m := g.ops.size + 2) (stages 2 _ rfl) (stages 3 _ rfl) tiledY
    (belowY.mono (Nat.le_add_right ..)) (carryY'.later ext1 belowY)
  have extY := ext1.trans ext2 (Nat.le_add_right ..)
  obtain ⟨u3,run3,ext3,packedZ⟩ := packStage (m := g.ops.size + 4) (stages 4 _ rfl) (stages 5 _ rfl) tiledZ
    (belowZ.mono (Nat.le_add_right ..)) (carryZ'.later extY belowZ)
  have extZ := extY.trans ext3 (Nat.le_add_right ..)
  have packedX := (packedX.later ext2 (Nat.lt_succ_self _)).later ext3 (Nat.add_lt_add_left (by decide) _)
  have packedY := packedY.later ext3 (Nat.lt_succ_self _)
  have fitsZ := packedZ.full
  have shortZ := packedZ.short
  obtain ⟨⟨rx,boundX,rfl⟩,-,fullX,-⟩ := carryX
  obtain ⟨⟨ry,boundY,rfl⟩,-,fullY,-⟩ := carryY
  obtain ⟨⟨rz,boundZ,rfl⟩,typeZ,fullZ,-⟩ := carryZ
  obtain ⟨⟨qx,boundX',arrayX⟩,-,fullX',-⟩ := packedX
  obtain ⟨⟨qy,boundY',arrayY⟩,-,fullY',-⟩ := packedY
  obtain ⟨⟨qz,boundZ',arrayZ⟩,-,-,-⟩ := packedZ
  rw [← arrayX] at fullX'
  rw [← arrayY] at fullY'
  have holds : Holds s [x, y] [z] [rx, ry] [rz] nz :=
    ⟨by simp [boundX,boundY],by simp [boundZ],by simp [fullValid fullX,fullValid fullY],by simpa using fullZ⟩
  have holds' : Holds u3 [.result (g.ops.size + 1) 0, .result (g.ops.size + 3) 0] [.result (g.ops.size + 5) 0] [qx, qy]
      [qz] (Z.packed nz) :=
    ⟨by simp [boundX',boundY'],by simp [boundZ'],by simp [fullValid fullX',fullValid fullY'],by simpa [arrayZ] using fitsZ⟩
  obtain ⟨c,c',rfl,run4,same⟩ := structuredReordered nest nest' reorders holds holds' (by simp)
    (fun k inside => by
      simp only [map_cons,map_nil,arrayZ]
      rw [packedCell rfl inside])
    (by simpa only [map_cons,map_nil,zip_cons_cons,zip_nil_right,length_singleton,arrayX,
      arrayY] using folds) ok
  let out := tabulate tz (Z.packed nz) fun k => (c' k).getD 0 Scalar.zero
  have table : tabulateAll [u3.arrayAt qz] (Z.packed nz) c' = [out] := by
    rw [arrayZ]
    rfl
  have run4 : evalOp g' (g.ops.size + 6) u3 = .ok () (u3.bindFresh (.result (g.ops.size + 6) 0) out) := by
    rw [isStructured,run4,map_singleton,table]
    rfl
  have made := givesFresh u3 (.result (g.ops.size + 6) 0) out
  have extZ' : Extends g.ops.size s' (u3.bindFresh (.result (g.ops.size + 6) 0) out) :=
    extZ.trans (.bindFresh (Nat.le_add_right ..) u3 0 out) (le_rfl)
  have full : out.Full (Z.packed nz) := tabulateFull _ tiledZ.blockedDims fitsZ.small fitsZ.fits
  have run5 := unpackStage (m := g.ops.size + 7) (stages 7 _ rfl) tiledZ.tensor tiledZ.describes tiledZ.rank tiledZ.rounds
    type ⟨⟨_,made.bound,made.array⟩,rfl,full,shortZ⟩ (carryZ'.later extZ' belowZ)
  have unpacked : out.unpacked Z nz (g.typeOf z) = tabulate (g.typeOf z) nz fun k => (c k).getD 0 Scalar.zero := by
    refine tabulateCongr fun k inside => ?_
    rw [tabulateCell _ (Z.blockedInside rfl inside),same k inside]
  rw [unpacked] at run5
  refine ⟨tabulate (g.typeOf z) nz fun k => (c k).getD 0 Scalar.zero,?_,?_,rfl,?_⟩
  · rw [show range' g.ops.size 8 = [g.ops.size, g.ops.size + 1] ++ ([g.ops.size + 2, g.ops.size + 3] ++
      ([g.ops.size + 4, g.ops.size + 5] ++ ([g.ops.size + 6] ++ [g.ops.size + 7]))) from rfl]
    refine .after run1 ext1 ?_ (.after run2 ext2 ?_ (.after run3 ext3 ?_ (.after (evalEachOne run4)
      (.bindFresh (le_rfl) u3 0 out) (le_rfl) (.one run5 (Nat.le_succ _))))) <;> omega
  · rw [← typeZ]
    rfl
  · simp [tabulate,gridLength]

end Contraction

section Loops

variable {nx ny nz : List Nat}

structure Loops (X : Tiling nx.length) (Y : Tiling ny.length) (Z : Tiling nz.length) (flat blocked : List ValueType)
    (mx my mz mx' my' mz' : AffineMap) (es es' : List Nat) (key key' p : List Nat → List Nat) : Prop where
  small : Small es
  small' : Small es'
  extents : ∀ (g : Graph) (vs : List Value), vs.map g.typeOf = flat → loopExtents g [mx, my, mz] (vs.map some) = .ok (words es)
  extents' : ∀ (g : Graph) (vs : List Value), vs.map g.typeOf = blocked →
    loopExtents g [mx', my', mz'] (vs.map some) = .ok (words es')
  writes : ∀ i, Inside i es → mz.eval (words i) = .ok (words (key i)) ∧ (key i).length = nz.length ∧ Small (key i)
  writes' : ∀ i, Inside i es' → mz'.eval (words i) = .ok (words (key' i)) ∧ (key' i).length = (Z.packed nz).length ∧
    Small (key' i)
  left : ∀ i, Inside i es → ∀ x, Inside x nx → mx.eval (words i) = .ok (words x) →
    mx'.eval (words (p i)) = .ok (words (X.blocked x))
  right : ∀ i, Inside i es → ∀ x, Inside x ny → my.eval (words i) = .ok (words x) →
    my'.eval (words (p i)) = .ok (words (Y.blocked x))
  onto : ∀ i, Inside i es' → ∃ j, Inside j es ∧ p j = i
  keys : ∀ i, Inside i es → key' (p i) = Z.blocked (key i)

variable {X : Tiling nx.length} {Y : Tiling ny.length} {Z : Tiling nz.length} {flat blocked : List ValueType}
  {mx my mz mx' my' mz' : AffineMap} {es es' : List Nat} {key key' p : List Nat → List Nat}

theorem Loops.reorders (loops : Loops X Y Z flat blocked mx my mz mx' my' mz' es es' key key' p) :
    Reorders es es' nz (Z.packed nz) key key' p Z.blocked where
  onto := loops.onto
  keys := loops.keys
  places _ inside := Z.blockedInside rfl inside
  apart k k' inside inside' same := by
    rw [← Z.flatBlocked inside.length_eq,same,Z.flatBlocked inside'.length_eq]

theorem Loops.permuted (loops : Loops X Y Z flat blocked mx my mz mx' my' mz' es es' key key' p)
    {q : List Nat → List Nat} (back : ∀ i, Inside i es → Inside (p i) es' ∧ q (p i) = i)
    (on : ∀ i, Inside i es' → Inside (q i) es ∧ p (q i) = i) {k : List Nat} (inside : Inside k nz) :
    ∃ is : List (List Nat), is.map p = (grid es').filter (key' · = Z.blocked k) ∧
      (∀ i ∈ is, Inside i es) ∧ ((grid es).filter (key · = k)).Perm is := by
  have within (i : List Nat) (mem : i ∈ (grid es').filter (key' · = Z.blocked k)) : Inside i es' :=
    memGrid.mp (mem_filter.mp mem).1
  have same (i : List Nat) (here : Inside i es) : key i = k ↔ key' (p i) = Z.blocked k := by
    rw [loops.keys i here]
    refine ⟨fun same => by rw [same],fun same => ?_⟩
    rw [← Z.flatBlocked (loops.writes i here).2.1,same,Z.flatBlocked inside.length_eq]
  refine ⟨((grid es').filter (key' · = Z.blocked k)).map q,?_,fun i mem => ?_,?_⟩
  · rw [map_map]
    exact (map_congr_left fun i mem => (on i (within i mem)).2).trans (map_id _)
  · obtain ⟨j,found,rfl⟩ := mem_map.mp mem
    exact (on j (within j found)).1
  · refine (perm_ext_iff_of_nodup ((gridNodup es).filter _) (Nodup.map_on ?_ ((gridNodup es').filter _))).mpr
      fun i => ?_
    · intro i hi j hj equal
      rw [← (on i (within i hi)).2,equal,(on j (within j hj)).2]
    · rw [mem_map,mem_filter,memGrid,decide_eq_true_eq]
      constructor
      · rintro ⟨here,at_⟩
        refine ⟨p i,mem_filter.mpr ⟨memGrid.mpr (back i here).1,decide_eq_true ((same i here).mp at_)⟩,(back i here).2⟩
      · rintro ⟨j,mem,rfl⟩
        obtain ⟨here,at_⟩ := on j (within j mem)
        refine ⟨here,(same _ here).mpr ?_⟩
        rw [at_]
        exact of_decide_eq_true (mem_filter.mp mem).2

variable {id : OpId} {x y z : Value} {lx ly lz : Layout} {tx ty tz : ValueType} {iterators : List Iterator} {d : Draft}
  {memory : Array (NdArray α)} {args : List Ref}

theorem Loops.flatNest (loops : Loops X Y Z flat blocked mx my mz mx' my' mz' es es' key key' p) {c}
    (maps : indexingMaps (g.op id) = .ok [mx, my, mz]) (region : (g.op id).region = some c)
    (operands : (g.op id).operands = [some x, some y, some z]) (two : Structured.numInputs (g.op id) = 2)
    (extents : loopExtents g [mx, my, mz] [some x, some y, some z] = .ok (words es)) (tensor : (g.typeOf z).isTensor = true)
    (other : ∀ i, z ≠ .result id i) (one : (g.op id).results.length = 1) :
    TensorNest g id c [mx, my] [mz] [x, y] [z] es nz key where
  maps := maps
  region := region
  operands := operands
  count := two
  inMaps := rfl
  outMaps := rfl
  extents := operands ▸ extents
  small := loops.small
  tensors := by simpa using tensor
  other := by simpa using other
  results := one
  few := show 3 < wordBound by decide
  writes i inside := by simpa using (loops.writes i inside).1
  keys i inside := (loops.writes i inside).2

theorem Loops.blockedNest (loops : Loops X Y Z flat [tx, ty, tz] mx my mz mx' my' mz' es es' key key' p) {g' : Graph} {c n}
    (here : g'.IsAt (n + 6) (madeOp genericKind [some (.result (n + 1) 0), some (.result (n + 3) 0)]
      [some (.result (n + 5) 0)] [tz] (genericAttrs [mx', my', mz'] iterators "")))
    (region : (g'.op (n + 6)).region = some c) (typeX : g'.typeOf (.result (n + 1) 0) = tx)
    (typeY : g'.typeOf (.result (n + 3) 0) = ty) (typeZ : g'.typeOf (.result (n + 5) 0) = tz) (tensor : tz.isTensor = true) :
    TensorNest g' (n + 6) c [mx', my'] [mz']
      [.result (n + 1) 0, .result (n + 3) 0] [.result (n + 5) 0] es' (Z.packed nz) key' := by
  obtain ⟨maps,operands,count,results⟩ := genericAt here
  exact {
    maps := maps
    region := region
    operands := operands
    count := count
    inMaps := rfl
    outMaps := rfl
    extents := operands ▸ loops.extents' g' [_, _, _] (by simp [typeX,typeY,typeZ])
    small := loops.small'
    tensors := by simpa [typeZ] using tensor
    other := by simp
    results := by rw [results,filter_singleton,tensor]; rfl
    few := show 3 < wordBound by decide
    writes := fun i inside => by simpa using (loops.writes' i inside).1
    keys := fun i inside => (loops.writes' i inside).2 }

theorem Loops.folds (loops : Loops X Y Z flat blocked mx my mz mx' my' mz' es es' key key' p) {g' c}
    (body : ∀ xs ys : List α, evalBody g c xs = .ok ys → evalBody g' c xs = .ok ys) {fx fy}
    (tiledX : TiledAs lx fx tx nx X) (tiledY : TiledAs ly fy ty ny Y) {ax ay : NdArray α} (fullX : ax.Full nx)
    (fullY : ay.Full ny) {k} {is : List (List Nat)} (order : is.map p = (grid es').filter (key' · = Z.blocked k))
    (within : ∀ i ∈ is, Inside i es) {v w}
    (ok : is.foldlM (fun v i => nestStep g c 1 nz (readAll (words i) [(mx, ax), (my, ay)]) (key i) v) v = .ok w) :
    ((grid es').filter (key' · = Z.blocked k)).foldlM (fun v i =>
      nestStep g' c 1 (Z.packed nz) (readAll (words i) [(mx', ax.packed X nx tx), (my', ay.packed Y ny ty)]) (key' i)
      v) v = .ok w := by
  rw [← order]
  refine foldlMImp (fun i mem v w step => ?_) ok
  have inside := within i mem
  refine nestStepFollows body (fun xs read => readAllFollows ?_ read) (fun at_ => ?_) step
  · exact .cons (tiledX.reads fullX (loops.left i inside)) (.cons (tiledY.reads fullY (loops.right i inside)) .nil)
  · rw [loops.keys i inside]
    exact Z.blockedInside rfl at_

/-- The arguments are arrays that can be made, with as many elements as their types say. -/
def MadeArguments (memory : Array (NdArray α)) (args : List Ref) : Prop :=
  ∀ r ∈ args, (memory.getD r default).Counted ∧ (memory.getD r default).data.size ≤ lengthLimit.toNatClampNeg

instance (memory : Array (NdArray α)) (args : List Ref) : Decidable (MadeArguments memory args) :=
  inferInstanceAs (Decidable (∀ r ∈ args, _ ∧ _))

omit [Scalar α] in
theorem Started.makes {s : Machine α} (started : Started g memory args s) (made : MadeArguments memory args) (v : Value)
    (r : Ref) (found : s.env v = some r) : Makes g v (s.arrayAt r).type (s.arrayAt r).data.size := by
  refine ⟨started.fits (fun r mem => (made r mem).1) v r found,?_⟩
  obtain ⟨k,q,-,at_,same,-⟩ := started.argument found
  have short := (made q (mem_of_getElem? at_)).2
  rwa [← same] at short

variable (α) in
structure Contracts (g : Graph) (id : OpId) (x y z : Value) (lx ly lz : Layout) (tx ty tz : ValueType)
    (mx my mz mx' my' mz' : AffineMap) (X : Tiling nx.length) (Y : Tiling ny.length) (Z : Tiling nz.length)
    (es es' : List Nat) (key key' p : List Nat → List Nat) : Prop where
  left : TiledAs lx (g.typeOf x) tx nx X
  right : TiledAs ly (g.typeOf y) ty ny Y
  out : TiledAs lz (g.typeOf z) tz nz Z
  fits : ∀ ns ∈ [nx, ny, nz], ns.prod < wordBound
  loops : Loops X Y Z [g.typeOf x, g.typeOf y, g.typeOf z] [tx, ty, tz] mx my mz mx' my' mz' es es' key key' p
  folds : ∀ b, (g.op id).region = some b → ∀ k, Inside k nz → ∀ reads : List Nat → Outcome (List α),
    (∀ i xs, reads i = .ok xs → xs.length = 2) → ∀ v w,
    ((grid es).filter (key · = k)).foldlM (fun v i => nestStep g b 1 nz (reads i) (key i) v) v = .ok w →
    ∃ is : List (List Nat), is.map p = (grid es').filter (key' · = Z.blocked k) ∧ (∀ i ∈ is, Inside i es) ∧
      is.foldlM (fun v i => nestStep g b 1 nz (reads i) (key i) v) v = .ok w

/-- A function with a contraction of operands that can be blocked by these layouts, and results as they are declared. -/
structure Eligible (g : Graph) (id : OpId) (layouts : List Layout) : Prop where
  two : Structured.numInputs (g.op id) = 2
  region : (g.op id).region.isSome
  shapes : Forall₂ (fun v l => ∀ a, v = some a → Blockable l (g.typeOf a)) (g.op id).operands layouts
  declared : ∀ j ∈ (g.block Graph.body).ops, g.Declared j

theorem contractionRefines (blocks : Blocks g id x y z lx ly lz tx ty tz [mx', my', mz'] iterators d)
    (formed : g.WellFormed) (mem : id ∈ g.walkAll) (ready : Prepared g id (g.Seen id) d)
    (isStructured : isStructured (g.op id) = true) (evaluated : (evalOp g id : Exec α Unit) = structured g id)
    (indexing : ∀ maps, indexingMaps (g.op id) = .ok maps → maps = [mx, my, mz]) (eligible : Eligible g id [lx, ly, lz])
    (few : ∀ m ∈ [mx, my, mz], m.numResults ≤ lengthLimit.toNatClampNeg)
    (contracts : ∀ nx ny nz X Y Z, TiledAs lx (g.typeOf x) tx nx X → TiledAs ly (g.typeOf y) ty ny Y →
      TiledAs lz (g.typeOf z) tz nz Z → nx.length = mx.numResults → ny.length = my.numResults →
      nz.length = mz.numResults → (∀ ns ∈ [nx, ny, nz], ns.prod < wordBound) →
      ∃ es es' key key' p, Contracts α g id x y z lx ly lz tx ty tz mx my mz mx' my' mz' X Y Z es es' key key' p)
    (valid : ∀ r ∈ args, r < memory.size) (made : MadeArguments memory args) : RefinesBy g d id memory args := by
  obtain ⟨two,region,shapes,declared⟩ := eligible
  obtain ⟨fault,⟨b,swap,stands⟩,one,resultType⟩ := blocks.swap α formed mem ready region isStructured
  have suits (j : OpId) (mem : j ∈ (g.block Graph.body).ops) (_ : j ≠ id) : Suits α (fun _ => True) (Makes g) g j :=
    (declared j mem).suits fun v used => Propagation.operandsHas formed mem used
  refine ⟨fault,swap.refinesOne suits (fun _ away => absurd trivial away) (fun s started => started.makes made) rfl valid ?_⟩
  intro pre post split q s s' t agree ok
  rw [evaluated] at ok
  have here : id ∈ (g.block Graph.body).ops := split ▸ mem_append_right _ (.head _)
  have known (v : Value) (used : some v ∈ (g.op id).operands) := swap.operandKnown split used
  have operands := blocks.operands
  obtain ⟨maps,c,ws,found,body,extents,bound⟩ := structuredOpens (fun v used => (known v used).2.1) ok
  obtain rfl := indexing maps found
  rw [operands] at bound known
  rw [operands] at extents shapes
  rcases shapes with _ | ⟨shapeX,_ | ⟨shapeY,_ | ⟨shapeZ,⟨⟩⟩⟩⟩
  rcases loopExtentsRanks [x, y, z] extents with _ | ⟨rankX,_ | ⟨rankY,_ | ⟨rankZ,⟨⟩⟩⟩⟩
  obtain ⟨nx,X,tiledX,fitsX⟩ := (shapeX x rfl).tiled blocks.left (rankX ▸ few _ (by simp))
  obtain ⟨ny,Y,tiledY,fitsY⟩ := (shapeY y rfl).tiled blocks.right (rankY ▸ few _ (by simp))
  obtain ⟨nz,Z,tiledZ,fitsZ⟩ := (shapeZ z rfl).tiled blocks.out (rankZ ▸ few _ (by simp))
  rw [ValueType.rank,tiledX.flatDims,wordsLength] at rankX
  rw [ValueType.rank,tiledY.flatDims,wordsLength] at rankY
  rw [ValueType.rank,tiledZ.flatDims,wordsLength] at rankZ
  obtain ⟨es,es',key,key',p,-,-,-,-,loops,folds⟩ := contracts nx ny nz X Y Z tiledX tiledY tiledZ rankX.symm rankY.symm
    rankZ.symm (by simp [fitsX,fitsY,fitsZ])
  obtain rfl := Except.ok.inj (extents.symm.trans (loops.extents g [x, y, z] rfl))
  have carried {v : Value} {l : Layout} {t : ValueType} {ns : List Nat} {T : Tiling ns.length}
      (tiled : TiledAs l (g.typeOf v) t ns T) (fits : ns.prod < wordBound) (used : some v ∈ [some x, some y, some z]) :
      ∃ a, Carries s v (g.typeOf v) ns a ∧ Carries s' v (g.typeOf v) ns a := by
    obtain ⟨_,r,same,at_⟩ := bound _ used
    cases same
    exact agree.carried (known v used).1 (known v used).2.1 (Propagation.operandsHas formed here (operands ▸ used))
      tiled.flatDims tiled.small fits at_
  obtain ⟨ax,carryX,carryX'⟩ := carried tiledX fitsX (by simp)
  obtain ⟨ay,carryY,carryY'⟩ := carried tiledY fitsY (by simp)
  obtain ⟨az,carryZ,carryZ'⟩ := carried tiledZ fitsZ (by simp)
  have nest := loops.flatNest found body operands two extents tiledZ.tensor (known z (by simp)).2.1 one
  have stages (m : Nat) (o : Operation) (at_ : (packedOps g.ops.size x y z lx ly lz tx ty tz ++
      blockedOps g.ops.size z lz tz (g.typeOf z) [mx', my', mz'] iterators)[m]? = some o) :
      (d.commit id).graph.IsAt (g.ops.size + m) o := ⟨_,_,stands m o at_⟩
  have body' : ((d.commit id).graph.op (g.ops.size + 6)).region = some c := by
    rw [stands 6 _ rfl,if_pos rfl,body]
  have nest' := loops.blockedNest (stages 6 _ rfl) body' (convertType (stages 1 _ rfl) tiledX.blockedTensor.1)
    (convertType (stages 3 _ rfl) tiledY.blockedTensor.1) (convertType (stages 5 _ rfl) tiledZ.blockedTensor.1)
    tiledZ.blockedTensor.1
  obtain ⟨a,leads,rfl,typeA,size⟩ := contractionRun stages tiledX tiledY tiledZ
    (known x (by simp)).1 (known y (by simp)).1 (known z (by simp)).1 (known z (by simp)).2.2 nest nest' loops.reorders
    (genericRun α (stages 6 _ rfl)) (fun k inside v w ok => by
      obtain ⟨is,order,within,ok⟩ := folds c body k inside (fun i => readAll (words i) [(mx, ax), (my, ay)])
        (fun _ _ read => readAllLength read) v w ok
      exact loops.folds (fun _ _ => swap.evalBody here body) tiledX tiledY carryX.full carryY.full order within ok)
    carryX carryX' carryY carryY' carryZ carryZ' ok
  refine ⟨a,leads,rfl,fun _ => ⟨typeA.trans resultType.symm,size ▸ fitsZ,?_⟩,size ▸ carryZ.short⟩
  rw [typeA,size,ValueType.numElements,tiledZ.flatDims,countWords]

end Loops

end Eval

namespace Blocking

open Eval

def pick (ps idx : List Nat) : List Nat := ps.map (idx.getD · 0)

def withBody (args : List ValueType) (ops : List Operation) (listed : List OpId) (owner : OpId)
    (params : List ValueType) (body : List Operation) : Graph :=
  let outer := ops.mapIdx fun i (o : Operation) =>
    { o with block := some Graph.body, region := if i = owner then some 1 else none }
  let inner := body.map fun o => { o with block := some 1 }
  ⟨"f",(outer ++ inner).toArray,#[⟨args.map .ofType,listed,none⟩,
    ⟨params.map .ofType,range' ops.length body.length,some owner⟩]⟩

def contracting (n : Nat) : List Operation :=
  [⟨Arith.mulFloatKind,[some (.argument 1 0), some (.argument 1 1)],[.ofType (.scalar .f32)],OrderedMap.empty,none,none⟩,
    ⟨Arith.addFloatKind,[some (.argument 1 2), some (.result n 0)],[.ofType (.scalar .f32)],OrderedMap.empty,none,none⟩,
    ⟨Structured.yieldKind,[some (.result (n + 1) 0)],[],OrderedMap.empty,none,none⟩]

def computing (kind : String) (attrs : Attributes) (args : List ValueType) (ops : List Operation) (left : Value)
    (listed : List OpId) : Graph :=
  withBody args (ops ++ [⟨kind,[some left, some (.argument 0 1), some (.argument 0 2)],[.ofType (args.getD 2 default)],
        attrs.store Structured.numInputsAttr (.int 2),none,none⟩,
      ⟨Memory.returnKind,[some (.result ops.length 0)],[],OrderedMap.empty,none,none⟩])
    listed ops.length (List.replicate 3 (.scalar .f32)) (contracting (ops.length + 2))

end Blocking

end TileLower

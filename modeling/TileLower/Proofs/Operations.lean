import TileLower.Proofs.Simulation

/-!
Each operation of a function is tracked by the same operation of another function in which its operands are
renamed, if types and bodies stay what they are.
-/
namespace TileLower

open Primitive Structured Outcome Relayout List Memory

/- Checks of operand types do not tell an operand from a renamed one of the same type. -/
section Types

variable {g g' : Graph} {f : Value → Value}

theorem memOfAt {vs : List Operand} {v : Operand} {j : Nat} (at_ : vs[j]? = some v) (w : Value) (same : v = some w) :
    some w ∈ vs := same ▸ mem_of_getElem? at_

theorem operandTypeRenamed {v : Operand} (types : ∀ w, v = some w → g'.typeOf (f w) = g.typeOf w) :
    g'.operandType (v.map f) = g.operandType v := by
  cases v with
  | none => rfl
  | some w => exact congrArg Except.ok (types w rfl)

theorem operandTypesRenamed {vs : List Operand} (types : ∀ w, some w ∈ vs → g'.typeOf (f w) = g.typeOf w) :
    g'.operandTypes (vs.map (Option.map f)) = g.operandTypes vs := by
  induction vs with
  | nil => rfl
  | cons v vs ih =>
    have here := operandTypeRenamed fun w same => types w (same ▸ .head _)
    rw [map_cons,Graph.operandTypes,here,ih fun w mem => types w (.tail _ mem)]
    rfl

theorem verifyRanksRenamed {vs : List Operand} (types : ∀ w, some w ∈ vs → g'.typeOf (f w) = g.typeOf w) (i : Nat)
    (ranks : List Nat) :
    verifyRanks g' i (vs.map (Option.map f)) ranks = verifyRanks g i vs ranks := by
  induction vs generalizing i ranks with
  | nil => rfl
  | cons v vs ih =>
    cases ranks with
    | nil => rfl
    | cons rank ranks =>
      have here := operandTypeRenamed fun w same => types w (same ▸ .head _)
      rw [map_cons,verifyRanks,here,ih fun w mem => types w (.tail _ mem)]
      rfl

theorem verifyBroadcastsRenamed (vs : List Operand) (out : Operand)
    (types : ∀ w, some w ∈ vs → g'.typeOf (f w) = g.typeOf w)
    (outType : ∀ w, out = some w → g'.typeOf (f w) = g.typeOf w) :
    verifyBroadcasts g' (out.map f) (vs.map (Option.map f)) = verifyBroadcasts g out vs := by
  induction vs with
  | nil => rfl
  | cons v vs ih =>
    have here := operandTypeRenamed fun w same => types w (same ▸ .head _)
    rw [map_cons,verifyBroadcasts,here,operandTypeRenamed outType,
      ih fun w mem => types w (.tail _ mem)]
    rfl

section Renamed

variable {o o' : Operation} (operands : o'.operands = o.operands.map (Option.map f))
  (types : ∀ w, some w ∈ o.operands → g'.typeOf (f w) = g.typeOf w)

include operands types

theorem verifyReluRenamed : verifyRelu g' o' = verifyRelu g o := by
  unfold verifyRelu
  rw [operands]
  match vs : o.operands with
  | [x, out] =>
    have hx : g'.operandType (x.map f) = g.operandType x :=
      operandTypeRenamed fun w same => types w (by simp [vs,same])
    have hout : g'.operandType (out.map f) = g.operandType out :=
      operandTypeRenamed fun w same => types w (by simp [vs,same])
    simp only [map_cons,map_nil,hx,hout]
  | [] => rfl
  | [_] => rfl
  | _ :: _ :: _ :: _ => rfl

theorem verifyElementwiseRenamed : verifyElementwise g' o' = verifyElementwise g o := by
  unfold verifyElementwise Primitive.output Primitive.inputs
  rw [operands,getLast?_map,← map_dropLast,isEmpty_map]
  cases last : o.operands.getLast? with
  | none => rfl
  | some out =>
    have mem : out ∈ o.operands := mem_of_getLast? last
    have outType : ∀ w, out = some w → g'.typeOf (f w) = g.typeOf w := fun w same => types w (same ▸ mem)
    have broadcasts := verifyBroadcastsRenamed o.operands.dropLast out
      (fun w mem => types w (mem_of_mem_dropLast mem)) outType
    simp only [Option.map_some,ofOption,bindOfOk,operandTypeRenamed outType]
    cases o.operands.isEmpty with
    | true => rfl
    | false => simp only [Bool.false_eq_true,if_false,bindOfOk,broadcasts]

theorem verifyPrimitiveRenamed (kind : o'.kind = o.kind) : verify g' o' = verify g o := by
  unfold verify verifyKnown checkRanks
  simp only [verifyReluRenamed operands types,verifyElementwiseRenamed operands types]
  simp only [kind,operands,length_map,verifyRanksRenamed types,operandTypesRenamed types]

end Renamed

theorem Primitive.verifyCongr {o o' : Operation} (kind : o'.kind = o.kind) (operands : o'.operands = o.operands)
    (types : ∀ w, some w ∈ o.operands → g'.typeOf w = g.typeOf w) : verify g' o' = verify g o :=
  verifyPrimitiveRenamed (f := id) (by simp [operands]) types kind

theorem loopExtentsRenamed {maps} {vs : List Operand} (types : ∀ w, some w ∈ vs → g'.typeOf (f w) = g.typeOf w) :
    Eval.loopExtents g' maps (vs.map (Option.map f)) = Eval.loopExtents g maps vs := by
  have infer (es : List Int64) (i : Nat) (ms : List AffineMap) :
      Eval.inferAll g' es i ms (vs.map (Option.map f)) = Eval.inferAll g es i ms vs := by
    induction vs generalizing es i ms with
    | nil => cases ms <;> rfl
    | cons v vs ih =>
      cases ms with
      | nil => rfl
      | cons m ms =>
        have here := operandTypeRenamed fun w same => types w (same ▸ .head _)
        simp only [map_cons,Eval.inferAll,here,ih fun w mem => types w (.tail _ mem)]
  unfold Eval.loopExtents
  simp only [length_map,infer]

end Types

namespace Eval

variable {α : Type} [Scalar α]

namespace Tracks

variable {V : View} {p : Pairing} {g g' : Graph}

omit [Scalar α] in
theorem loadAll (maps : List AffineMap) {rs rs'} (all : Forall₂ p.same rs rs') (idx : List Int64) :
    Tracks V p (fun _ xs xs' => xs = xs') (loadAll idx (maps.zip rs) : Exec α (List α))
      (loadAll idx (maps.zip rs')) := by
  induction all generalizing maps with
  | nil =>
    rw [zip_nil_right]
    exact Tracks.pure fun _ _ => rfl
  | cons same all ih =>
    cases maps with
    | nil => exact Tracks.pure fun _ _ => rfl
    | cons m maps =>
      refine (Tracks.liftSame _).bind fun q le i i' eq => ?_
      subst eq
      refine (Tracks.load (le.same _ _ same) i).bind fun q le1 x x' eq => ?_
      subst eq
      refine ((ih maps).mono (le.trans le1)).bind fun q le2 xs xs' eq => ?_
      exact Tracks.pure fun _ _ => eq ▸ rfl

omit [Scalar α] in
theorem storeAll (maps : List AffineMap) {rs rs'} (all : Forall₂ p.own rs rs') (idx : List Int64) (ys : List α) :
    Tracks V p Done (storeAll idx ((maps.zip rs).zip ys)) (storeAll idx ((maps.zip rs').zip ys)) := by
  induction all generalizing maps ys with
  | nil =>
    rw [zip_nil_right]
    exact Tracks.pure fun _ _ => trivial
  | cons own all ih =>
    cases maps with
    | nil => exact Tracks.pure fun _ _ => trivial
    | cons m maps =>
      cases ys with
      | nil => exact Tracks.pure fun _ _ => trivial
      | cons y ys =>
        refine (Tracks.liftSame _).bind fun q le i i' eq => ?_
        subst eq
        exact (Tracks.store (le.own _ _ own) i y).bind fun q le1 _ _ _ => (ih maps ys).mono (le.trans le1)

theorem point {b} (body : ∀ args ys : List α, evalBody g b args = .ok ys → evalBody g' b args = .ok ys) {n : Int64}
    (maps : List AffineMap) {rs rs' : List Ref} (all : Forall₂ p.same rs rs')
    (written : Forall₂ p.own (rs.drop n.toNatClampNeg) (rs'.drop n.toNatClampNeg)) (idx : List Int64) :
    Tracks V p Done (point g b n (maps.zip rs) idx : Exec α Unit) (point g' b n (maps.zip rs') idx) := by
  unfold Eval.point
  refine (Tracks.loadAll maps all idx).bind fun q le xs xs' eq => ?_
  subst eq
  refine (Tracks.lift (R := fun _ ys ys' => ys = ys') fun ys ok => ⟨ys,body xs ys ok,fun _ _ => rfl⟩).bind
    fun q le1 ys ys' eq => ?_
  subst eq
  have lengths : (maps.zip rs').length = (maps.zip rs).length := by simp [all.length_eq]
  have outs : (maps.zip rs').drop n.toNatClampNeg = (maps.drop n.toNatClampNeg).zip (rs'.drop n.toNatClampNeg) :=
    drop_zipWith
  have outs' : (maps.zip rs).drop n.toNatClampNeg = (maps.drop n.toNatClampNeg).zip (rs.drop n.toNatClampNeg) :=
    drop_zipWith
  simp only [length_drop,lengths]
  split
  · exact Tracks.fails fun s b t ok => by
      obtain ⟨_,_,failed,_⟩ := Step.bindOk.mp ok
      exact abortOk failed
  split
  · exact Tracks.fails fun s b t ok => by
      obtain ⟨_,_,failed,_⟩ := Step.bindOk.mp ok
      exact failOk failed
  rw [outs,outs']
  exact Tracks.storeAll _ (written.imp fun _ _ => (le.trans le1).own _ _) idx ys

omit [Scalar α] in
theorem broadcastAll (idx : List Int64) {rs rs'} (all : Forall₂ p.same rs rs') :
    Tracks V p (fun _ xs xs' => xs = xs') (broadcastAll idx rs : Exec α (List α))
      (broadcastAll idx rs') := by
  induction all with
  | nil => exact Tracks.pure fun _ _ => rfl
  | cons same all ih =>
    have one : Tracks V p (fun _ (x x' : α) => x = x') (broadcastAt _ idx) (broadcastAt _ idx) :=
      (Tracks.array same).bind fun q le a a' ⟨eq,_⟩ => by
        subst eq
        refine (Tracks.liftSame _).bind fun q le1 i i' eq => ?_
        subst eq
        exact Tracks.load ((le.trans le1).same _ _ same) i
    refine one.bind fun q le x x' eq => ?_
    subst eq
    refine (ih.mono le).bind fun q le2 xs xs' eq => ?_
    exact Tracks.pure fun _ _ => eq ▸ rfl

theorem accumulate (c : Contraction) {a a' b b'} (left : p.same a a') (right : p.same b b') (i j : Int64) (acc : α) :
    Tracks V p (fun _ x y => x = y) (accumulate c a b i j acc) (accumulate c a' b' i j acc) := by
  refine foldFrom (fun acc t => foldFrom (fun acc k => ?_) _ _ _) _ _ _
  refine (Tracks.load left _).bind fun q le x x' eq => ?_
  subst eq
  refine (Tracks.liftSame _).bind fun q le1 idx idx' eq => ?_
  subst eq
  refine (Tracks.load ((le.trans le1).same _ _ right) idx).bind fun q le2 y y' eq => ?_
  subst eq
  exact Tracks.pure fun _ _ => rfl

theorem contract (c : Contraction) {a a' b b' out out'} (left : p.same a a') (right : p.same b b')
    (paired : p.same out out') (own : p.own out out') :
    Tracks V p Done (contract c a b out : Exec α Unit) (contract c a' b' out') := by
  refine (Tracks.array paired).bind fun q le x x' ⟨eq,_⟩ => ?_
  subst eq
  refine Tracks.each fun idx => ?_
  refine (Tracks.load (le.same _ _ paired) idx).bind fun q le1 acc acc' eq => ?_
  subst eq
  have le2 := le.trans le1
  split
  · rename_i i j rest
    refine (Tracks.accumulate c (le2.same _ _ left) (le2.same _ _ right) i j acc).bind fun q le3 x x' eq => ?_
    subst eq
    exact Tracks.store ((le2.trans le3).own _ _ own) _ x
  · split
    · exact Tracks.store (le2.own _ _ own) idx acc
    · refine Tracks.fails fun s b t ok => ?_
      split at ok
      · obtain ⟨_,_,_,failed⟩ := Step.bindOk.mp ok
        exact abortOk failed
      · exact abortOk ok

end Tracks

def Copied (op : Operation) (j i : Nat) : Prop :=
  isStructured op = true ∧ ¬ Int64.ofNat j < numInputs op ∧
      i = (Int64.ofNat j - numInputs op).toNatClampNeg ∨
    (op.kind = packKind ∨ op.kind = unpackKind) ∧ j = 1 ∧ i = 0 ∨
    isPrimitive op = true ∧ j + 1 = op.operands.length ∧ i = 0

structure Kept (α : Type) [Scalar α] (V : View) (g g' : Graph) (id : OpId) : Prop where
  kind : (g'.op id).kind = (g.op id).kind
  attrs : (g'.op id).attrs = (g.op id).attrs
  results : (g'.op id).results = (g.op id).results
  operands : (g'.op id).operands = (g.op id).operands.map (Option.map V.rename)
  live : ∀ v, some v ∈ (g.op id).operands → V.live v
  types : ∀ v, some v ∈ (g.op id).operands → g'.typeOf (V.rename v) = g.typeOf v
  writable : ∀ j v, (g.op id).operands[j]? = some (some v) →
    (∃ i, Copied (g.op id) j i) ∧ (g.typeOf v).isTensor = false ∨ (g.op id).kind = Memory.copyKind ∧ j = 1 → V.writable v
  few : (g.op id).operands.length < wordBound ∨ ∀ v, some v ∈ (g.op id).operands → V.writable v
  region : (g'.op id).region = (g.op id).region
  bodies : ∀ b, (g.op id).region = some b → ∀ args ys : List α, evalBody g b args = .ok ys → evalBody g' b args = .ok ys
  bindable : ∀ i, V.bindable (.result id i)
  filled : ∀ i (x : α) a, NdArray.filled (g.typeOf (.result id i)) x = .ok a → V.fits (.result id i) a.type a.data.size
  copied : ∀ j i v t n, (g.op id).operands[j]? = some (some v) → (g.typeOf v).isTensor = true →
    Copied (g.op id) j i → V.fits v t n → V.fits (.result id i) t n
  cast : (g.op id).kind = castKind → ∀ v t n, (g.op id).operands[0]? = some (some v) → V.fits v t n →
    V.fits (.result id 0) (g.typeOf (.result id 0)) n

namespace Kept

variable {V : View} {p : Pairing} {g g' : Graph} {id : OpId} (kept : Kept α V g g' id)

include kept

theorem operand (i : Nat) : Tracks V p (fun _ v v' => v' = v.map V.rename ∧ (g.op id).operands[i]? = some v)
      (operand g id i : Exec α Operand) (operand g' id i) := by
  refine Tracks.lift fun v found => ?_
  have at_ : (g.op id).operands[i]? = some v := ofOptionOk.mp found
  refine ⟨v.map V.rename,ofOptionOk.mpr ?_,fun _ _ => ⟨rfl,at_⟩⟩
  rw [kept.operands,getElem?_map,at_]
  rfl

theorem result (i : Nat) :
    Tracks V p (fun _ v v' => v' = v ∧ v = .result id i) (result g id i : Exec α Value) (result g' id i) := by
  refine Tracks.lift fun v found => ⟨v,?_,fun _ _ => ⟨rfl,?_⟩⟩
  · rw [Graph.resultAt,kept.results]
    exact found
  · unfold Graph.resultAt at found
    split at found
    · cases found
      rfl
    · exact absurd found Outcome.abortOk

theorem value {v : Operand} (mem : ∀ w, v = some w → some w ∈ (g.op id).operands) :
    Tracks V p (fun q r r' => q.same r r' ∧
        ∃ w, v = some w ∧ (V.writable w → q.own r r') ∧ ∃ t n, q.shape r t n ∧ V.fits w t n)
      (value g v : Exec α Ref) (value g' (v.map V.rename)) := by
  cases v with
  | none => exact Tracks.fails fun s b t ok => by simp [valueOk] at ok
  | some w =>
    intro q le s s' agree r t ok
    obtain ⟨u,r',t',ran,agree',passes,same,own⟩ := Tracks.value (kept.live w (mem w rfl)) q le s s' agree r t ok
    exact ⟨u,r',t',ran,agree',passes,same,w,rfl,own⟩

theorem ask (i : Nat) {f f' : Ref → Exec α Unit}
    (rest : ∀ q, p.Le q → ∀ r r', q.same r r' → (∃ w, (g.op id).operands[i]? = some (some w) ∧
      (V.writable w → q.own r r') ∧ ∃ t n, q.shape r t n ∧ V.fits w t n) → Tracks V q Tracks.Done (f r) (f' r')) :
    Tracks V p Tracks.Done (do f (← Eval.value g (← Eval.operand g id i)))
      (do f' (← Eval.value g' (← Eval.operand g' id i))) := by
  refine (kept.operand i).bind fun q le v v' ⟨same,at_⟩ => ?_
  subst same
  refine (kept.value (memOfAt at_)).bind fun q' le' r r' ⟨same,w,name,held⟩ => ?_
  exact rest q' (le.trans le') r r' same ⟨w,name ▸ at_,held⟩

theorem resultType (i : Nat) : g'.typeOf (.result id i) = g.typeOf (.result id i) := by
  simp only [Graph.typeOf,Graph.slot,kept.results]

theorem bindResult {j r r'} (same : p.same r r') (own : p.own r r') (holds : p.holds r (.result id j)) :
    Tracks V p Tracks.Done (bind (.result id j) r : Exec α Unit) (bind (.result id j) r') :=
  Tracks.bindValue same (fun _ => own) holds (kept.bindable j)

theorem bindNew {j} {a : NdArray α} (fits : V.fits (.result id j) a.type a.data.size) :
    Tracks V p Tracks.Done (bindNew (.result id j) a) (bindNew (.result id j) a) :=
  (Tracks.allocate a fits).bind fun _ _ _ _ ⟨own,same,holds⟩ => kept.bindResult same own holds

theorem output {v : Operand} {j : Nat} {i : Int64} (at_ : (g.op id).operands[j]? = some v)
    (copied : Copied (g.op id) j i.toNatClampNeg) :
    Tracks V p (fun q r r' => q.same r r' ∧ q.own r r') (output g id v i : Exec α Ref)
      (output g' id (v.map V.rename) i) := by
  unfold Eval.output
  refine (kept.value (memOfAt at_)).bind fun q le r r' ⟨same,w,name,own,t,n,shape,fits⟩ => ?_
  subst name
  have mem := mem_of_getElem? at_
  simp only [Option.map_some,kept.types w mem]
  by_cases tensor : (g.typeOf w).isTensor = true
  · simp only [tensor,if_true]
    refine (Tracks.array same).bind fun q le a a' ⟨eq,shapes⟩ => ?_
    subst eq
    obtain ⟨ht,hn⟩ := shapes t n (le.shape r t n shape)
    have fits : V.fits (.result id i.toNatClampNeg) a.type a.data.size :=
      kept.copied j _ w _ _ at_ tensor copied (ht ▸ hn ▸ fits)
    refine (Tracks.allocate a fits).bind fun q le c c' ⟨own,same,holds⟩ => ?_
    simp only [kept.results]
    by_cases within : i < Int64.ofNat (g.op id).results.length
    · simp only [within,if_true]
      by_cases negative : i < 0
      · simp only [negative,if_true]
        exact Tracks.fails fun s b t ok => by
          obtain ⟨_,_,failed,_⟩ := Step.bindOk.mp ok
          exact abortOk failed
      · simp only [negative,if_false]
        exact (kept.bindResult same own holds).bind fun q le _ _ _ =>
          Tracks.pure fun q' le' => ⟨(le.trans le').same _ _ same,(le.trans le').own _ _ own⟩
    · simp only [within,if_false]
      exact Tracks.pure fun q' le' => ⟨le'.same _ _ same,le'.own _ _ own⟩
  · simp only [tensor]
    exact Tracks.pure fun q' le' => ⟨le'.same _ _ same,
      le'.own _ _ (own (kept.writable j w at_ (.inl ⟨⟨_,copied⟩,by simpa using tensor⟩)))⟩

theorem newResult : Tracks V p (fun _ a a' => a = a' ∧ V.fits (.result id 0) a.type a.data.size)
      (newResult g id : Exec α (NdArray α)) (newResult g' id) := by
  refine (kept.result 0).bind fun q le v v' ⟨same,name⟩ => Tracks.lift fun a ok => ?_
  subst same name
  exact ⟨a,by rw [kept.resultType 0]; exact ok,fun _ _ => ⟨rfl,kept.filled 0 _ a ok⟩⟩

theorem constant : Tracks V p Tracks.Done (evalConstant g id : Exec α Unit) (evalConstant g' id) := by
  unfold evalConstant
  have value : Arith.constantValue? (g'.op id) = Arith.constantValue? (g.op id) := by
    simp only [Arith.constantValue?,kept.kind,kept.attrs]
  rw [value]
  cases Arith.constantValue? (g.op id) with
  | none => exact Tracks.fails fun s b t => failOk
  | some x =>
    refine (kept.result 0).bind fun q le v v' ⟨same,name⟩ => ?_
    subst same name
    simp only [kept.resultType 0]
    refine (Tracks.lifted _).bind fun q le a a' ⟨eq,made⟩ => ?_
    subst eq
    exact kept.bindNew (kept.filled 0 _ a made)

theorem new : Tracks V p Tracks.Done (evalNew g id : Exec α Unit) (evalNew g' id) := by
  refine (kept.result 0).bind fun q le v v' ⟨same,name⟩ => kept.newResult.bind fun q le a a' ⟨eq,fits⟩ => ?_
  subst same name eq
  exact kept.bindNew fits

theorem retype (isCast : (g.op id).kind = castKind) :
    Tracks V p Tracks.Done (evalCast g id : Exec α Unit) (evalCast g' id) := by
  refine kept.ask 0 fun q _ r r' same ⟨x,at_,_,t,n,shape,fits⟩ => ?_
  refine (kept.result 0).bind fun q le' w w' ⟨eq,name⟩ => ?_
  subst eq name
  refine (Tracks.array (le'.same _ _ same)).bind fun q le a a' ⟨eq,shapes⟩ => ?_
  subst eq
  rw [kept.resultType 0]
  have size := (shapes t n ((le'.trans le).shape r t n shape)).2
  exact kept.bindNew (kept.cast isCast x t _ at_ (size.symm ▸ fits))

theorem slice : Tracks V p Tracks.Done (evalSlice g id : Exec α Unit) (evalSlice g' id) := by
  refine kept.ask 0 fun q _ r r' same _ => ?_
  simp only [kept.attrs]
  refine kept.newResult.bind fun q le1 a a' ⟨eq,fits⟩ => ?_
  subst eq
  refine (Tracks.allocate a fits).bind fun q le2 c c' ⟨own,paired,holds⟩ => ?_
  refine (Tracks.each fun idx => ?_).bind fun q le3 _ _ _ => (kept.result 0).bind fun q le4 w w' ⟨eq,name⟩ => ?_
  · refine (Tracks.liftSame _).bind fun q le5 i i' eq => ?_
    subst eq
    refine (Tracks.load (((le1.trans le2).trans le5).same _ _ same) i).bind fun q le6 x x' eq => ?_
    subst eq
    exact Tracks.store ((le5.trans le6).own _ _ own) idx x
  · subst eq name
    have le := le3.trans le4
    exact kept.bindResult (le.same _ _ paired) (le.own _ _ own) (le.holds _ _ holds)

theorem pad : Tracks V p Tracks.Done (evalPad g id : Exec α Unit) (evalPad g' id) := by
  refine kept.ask 0 fun q _ r r' same _ => ?_
  refine kept.ask 1 fun q le2 c c' samePadding _ => ?_
  simp only [padLow,kept.attrs]
  refine (kept.result 0).bind fun q le3 z z' ⟨eq,name⟩ => ?_
  subst eq name
  simp only [kept.resultType 0]
  refine (Tracks.firstOf (le3.same _ _ samePadding)).bind fun q le4 x x' eq => ?_
  subst eq
  refine (Tracks.lifted _).bind fun q le5 a a' ⟨eq,made⟩ => ?_
  subst eq
  refine (Tracks.allocate a (kept.filled 0 x a made)).bind fun q le6 n n' ⟨own,paired,holds⟩ => ?_
  have before := ((((le2.trans le3).trans le4).trans le5).trans le6).same _ _ same
  refine (Tracks.array before).bind fun q le7 b b' ⟨eq,_⟩ => ?_
  subst eq
  refine (Tracks.each fun idx => ?_).bind fun q le8 _ _ _ => (kept.result 0).bind fun q le9 w w' ⟨eq,name⟩ => ?_
  · refine (Tracks.liftSame _).bind fun q le9 i i' eq => ?_
    subst eq
    refine (Tracks.load ((le7.trans le9).same _ _ before) idx).bind fun q le10 y y' eq => ?_
    subst eq
    exact Tracks.store (((le7.trans le9).trans le10).own _ _ own) i y
  · subst eq name
    have le := (le7.trans le8).trans le9
    exact kept.bindResult (le.same _ _ paired) (le.own _ _ own) (le.holds _ _ holds)

theorem bufferCopy (isCopy : (g.op id).kind = Memory.copyKind) :
    Tracks V p Tracks.Done (evalBufferCopy g id : Exec α Unit) (evalBufferCopy g' id) := by
  refine kept.ask 0 fun q _ r r' same _ => ?_
  refine kept.ask 1 fun q le c c' samePlace ⟨w,at_,own,_⟩ => ?_
  exact Tracks.copyData (le.same _ _ same) (own (kept.writable 1 w at_ (.inr ⟨isCopy,rfl⟩)))

theorem conversion (isConversion : (g.op id).kind = packKind ∨ (g.op id).kind = unpackKind)
    {m m' : Ref → Ref → Exec α Unit}
    (rest : ∀ q r r' c c', q.same r r' → q.same c c' → q.own c c' → Tracks V q Tracks.Done (m r c) (m' r' c')) :
    Tracks V p Tracks.Done
      (do let source ← Eval.value g (← Eval.operand g id 0)
          let dest ← Eval.output g id (← Eval.operand g id 1) 0
          m source dest)
      (do let source ← Eval.value g' (← Eval.operand g' id 0)
          let dest ← Eval.output g' id (← Eval.operand g' id 1) 0
          m' source dest) := by
  refine kept.ask 0 fun q _ r r' same _ => ?_
  refine (kept.operand 1).bind fun q le1 w w' ⟨eq,at'⟩ => ?_
  subst eq
  refine (kept.output at' (.inr (.inl ⟨isConversion,rfl,rfl⟩))).bind fun q le2 c c' ⟨paired,own⟩ => ?_
  exact rest q r r' c c' ((le1.trans le2).same _ _ same) paired own

theorem pack (isPack : (g.op id).kind = packKind) :
    Tracks V p Tracks.Done (evalPack g id : Exec α Unit) (evalPack g' id) := by
  refine kept.conversion (.inl isPack) fun q r r' c c' before paired own => ?_
  refine (Tracks.array before).bind fun q le3 a a' ⟨eq,_⟩ => ?_
  subst eq
  simp only [layoutOf,kept.attrs]
  refine (Tracks.liftSame _).bind fun q le4 m m' eq => ?_
  subst eq
  refine (Tracks.array ((le3.trans le4).same _ _ paired)).bind fun q le5 b b' ⟨eq,_⟩ => ?_
  subst eq
  have le := (le3.trans le4).trans le5
  refine Tracks.each fun idx => (Tracks.liftSame _).bind fun q le6 i i' eq => ?_
  subst eq
  refine (Tracks.array ((le.trans le6).same _ _ before)).bind fun q le7 x x' ⟨eq,_⟩ => ?_
  subst eq
  have stored {q : Pairing} (le8 : _) (y : α) : Tracks V q Tracks.Done (store c idx y) (store c' idx y) :=
    Tracks.store ((((le.trans le6).trans le7).trans le8).own _ _ own) idx y
  split
  · refine (Tracks.liftSame _).bind fun q le8 y y' eq => ?_
    subst eq
    exact stored le8 y
  · refine (Tracks.pure (R := fun _ y y' => y = y') fun _ _ => rfl).bind fun q le8 y y' eq => ?_
    subst eq
    exact stored le8 y

theorem unpack (isUnpack : (g.op id).kind = unpackKind) :
    Tracks V p Tracks.Done (evalUnpack g id : Exec α Unit) (evalUnpack g' id) := by
  refine kept.conversion (.inr isUnpack) fun q r r' c c' same paired own => ?_
  refine (Tracks.array paired).bind fun q le3 a a' ⟨eq,_⟩ => ?_
  subst eq
  simp only [layoutOf,kept.attrs]
  refine (Tracks.liftSame _).bind fun q le4 m m' eq => ?_
  subst eq
  have before := (le3.trans le4).same _ _ same
  refine (Tracks.array before).bind fun q le5 b b' ⟨eq,_⟩ => ?_
  subst eq
  have le := (le3.trans le4).trans le5
  refine Tracks.each fun idx => (Tracks.liftSame _).bind fun q le6 i i' eq => ?_
  subst eq
  refine (Tracks.array ((le.trans le6).same _ _ paired)).bind fun q le7 x x' ⟨eq,_⟩ => ?_
  subst eq
  split
  · refine (Tracks.load (((le5.trans le6).trans le7).same _ _ before) idx).bind fun q le8 y y' eq => ?_
    subst eq
    exact Tracks.store ((((le.trans le6).trans le7).trans le8).own _ _ own) i y
  · exact Tracks.pure fun _ _ => trivial

theorem numInputs : Structured.numInputs (g'.op id) = Structured.numInputs (g.op id) := by
  rw [Structured.numInputs,Structured.numInputs,kept.attrs]

theorem inputs : ∀ ins, Structured.inputs (g.op id) = .ok ins →
    ∃ ins', Structured.inputs (g'.op id) = .ok ins' ∧ ∀ q, p.Le q →
      (ins' = ins.map (Option.map V.rename) ∧ ∀ w, some w ∈ ins → some w ∈ (g.op id).operands) := by
  intro ins ok
  obtain ⟨n,count,same⟩ := bindOk.mp ok
  cases same
  refine ⟨_,?_,fun _ _ => ⟨rfl,fun w mem => ?_⟩⟩
  · have count' : countWithin (g'.op id) (Storage.places (g'.op id).operands.length) = .ok n := by
      rw [kept.operands,length_map,countWithin,kept.numInputs]
      exact count
    rw [Structured.inputs,count',bindOfOk,kept.operands]
    simp
  · rcases mem_append.mp mem with here | there
    · exact mem_of_mem_take here
    · simp at there

theorem outputs : ∀ outs, outputs (g.op id) = .ok outs →
    ∃ outs', outputs (g'.op id) = .ok outs' ∧ ∀ q, p.Le q → (outs' = outs.map (Option.map V.rename) ∧
      ∃ n, outs = (g.op id).operands.drop n ∧ Structured.numInputs (g.op id) = Int64.ofNat n) := by
  intro outs ok
  obtain ⟨n,count,same⟩ := bindOk.mp ok
  cases same
  have count' : inputCount (g'.op id) = .ok n := by
    rw [inputCount,countWithin,kept.numInputs,kept.operands,length_map]
    exact count
  refine ⟨_,by rw [Structured.outputs,count',bindOfOk,kept.operands,map_drop],fun _ _ =>
    ⟨rfl,n,rfl,?_⟩⟩
  rw [inputCount,countWithin] at count
  split at count
  · rename_i within
    cases count
    exact (Word.ofNonneg within.1).1
  · exact absurd count Outcome.abortOk

theorem inputAndOutput (isStructured : isStructured (g.op id) = true) :
    Tracks V p (fun q c c' => q.same c.1 c'.1 ∧ q.same c.2 c'.2 ∧ q.own c.2 c'.2)
      (inputAndOutput g id : Exec α (Ref × Ref)) (inputAndOutput g' id) := by
  unfold Eval.inputAndOutput
  refine (Tracks.lift (kept.inputs (p := p))).bind fun q le ins ins' ⟨eq,memIns⟩ => ?_
  subst eq
  refine (Tracks.lift (R := fun _ v v' => v' = v.map V.rename ∧ v ∈ ins) fun v ok => ?_).bind
    fun q le v v' ⟨eq,mem⟩ => ?_
  · have at_ := ofOptionOk.mp ok
    exact ⟨v.map V.rename,by simp [at_],fun _ _ => ⟨rfl,mem_of_getElem? at_⟩⟩
  subst eq
  refine (kept.value fun w same => memIns w (same ▸ mem)).bind fun q le1 r r' ⟨same,_⟩ => ?_
  refine (Tracks.lift (kept.outputs (p := q))).bind fun q le2 outs outs' ⟨eq,n,drop,count⟩ => ?_
  subst eq
  refine (Tracks.lift (R := fun _ v v' => v' = v.map V.rename ∧ (g.op id).operands[n]? = some v) fun v ok => ?_).bind
    fun q le3 v v' ⟨eq,at_⟩ => ?_
  · have at_ := ofOptionOk.mp ok
    refine ⟨v.map V.rename,by simp [at_],fun _ _ => ⟨rfl,?_⟩⟩
    rw [drop,getElem?_drop] at at_
    exact at_
  subst eq
  have copied : Copied (g.op id) n (0 : Int64).toNatClampNeg :=
    .inl ⟨isStructured,by rw [count]; exact Int64.lt_irrefl,by rw [count,Int64.sub_self]⟩
  refine (kept.output at_ copied).bind fun q le4 c c' ⟨paired,own⟩ => ?_
  exact Tracks.pure fun q le5 => ⟨((((le2.trans le3).trans le4).trans le5)).same _ _ same,le5.same _ _ paired,
    le5.own _ _ own⟩

theorem fill (isStructured : isStructured (g.op id) = true) :
    Tracks V p Tracks.Done (evalFill g id : Exec α Unit) (evalFill g' id) := by
  refine (kept.inputAndOutput isStructured).bind fun q le c c' ⟨same,paired,own⟩ => ?_
  refine (Tracks.firstOf same).bind fun q le1 x x' eq => ?_
  subst eq
  exact Tracks.overwrite (le1.own _ _ own) (fun a => (a.fill x).data) fun a => by simp [NdArray.fill]

theorem copy (isStructured : isStructured (g.op id) = true) :
    Tracks V p Tracks.Done (evalCopy g id : Exec α Unit) (evalCopy g' id) :=
  (kept.inputAndOutput isStructured).bind fun _ _ _ _ ⟨same,_,own⟩ => Tracks.copyData same own

/- Operands from number `k` on: those that are written are owned, whether they were copied or not. -/
theorem operandArrays (isStructured : Structured.isStructured (g.op id) = true) (vs : List Operand) (k : Nat)
    (suffix : (g.op id).operands.drop k = vs)
    (few : k + vs.length < wordBound ∨ ∀ v, some v ∈ (g.op id).operands → V.writable v) :
    Tracks V p (fun q rs rs' => Forall₂ q.same rs rs' ∧
        Forall₂ q.own (rs.drop ((Structured.numInputs (g.op id)).toNatClampNeg - k))
          (rs'.drop ((Structured.numInputs (g.op id)).toNatClampNeg - k)))
      (Eval.operandArrays g id (Structured.numInputs (g.op id)) (Int64.ofNat k) vs : Exec α (List Ref))
      (Eval.operandArrays g' id (Structured.numInputs (g.op id)) (Int64.ofNat k) (vs.map (Option.map V.rename))) := by
  generalize size : (Structured.numInputs (g.op id)).toNatClampNeg = m
  induction vs generalizing k p with
  | nil => exact Tracks.pure fun _ _ => by simp
  | cons v vs ih =>
    have next : Int64.ofNat k + 1 = Int64.ofNat (k + 1) := (Int64.ofNat_add k 1).symm
    have at_ : (g.op id).operands[k]? = some v := by
      rw [← Nat.add_zero k,← getElem?_drop,suffix]
      rfl
    have rest {q : Pairing} : Tracks V q _ _ _ := ih (p := q) (k + 1) (by rw [← drop_drop,suffix]; rfl)
      (few.imp (fun few => by simpa [Nat.add_right_comm,Nat.add_assoc] using few) fun all => all)
    have done {q : Pairing} {r r' : Ref} (same : q.same r r') (own : m ≤ k → q.own r r') :
        Tracks V q (fun q rs rs' => Forall₂ q.same rs rs' ∧ Forall₂ q.own (rs.drop (m - k)) (rs'.drop (m - k)))
          (do let rs ← Eval.operandArrays g id (Structured.numInputs (g.op id)) (Int64.ofNat k + 1) vs
              return r :: rs : Exec α (List Ref))
          (do let rs ← Eval.operandArrays g' id (Structured.numInputs (g.op id)) (Int64.ofNat k + 1)
                (vs.map (Option.map V.rename))
              return r' :: rs) := by
      rw [next]
      refine rest.bind fun q le rs rs' ⟨all,written⟩ => Tracks.pure fun q le' => ?_
      have all : Forall₂ q.same rs rs' := all.imp fun _ _ => le'.same _ _
      have written := written.imp fun _ _ => le'.own _ _
      refine ⟨.cons ((le.trans le').same _ _ same) all,?_⟩
      rcases Nat.lt_or_ge k m with before | after
      · have step : m - k = m - (k + 1) + 1 := by omega
        rw [step]
        exact written
      · have none : m - k = 0 := by omega
        have none' : m - (k + 1) = 0 := by omega
        rw [none'] at written
        rw [none]
        exact .cons ((le.trans le').own _ _ (own after)) written
    rw [map_cons,Eval.operandArrays,Eval.operandArrays]
    by_cases input : Int64.ofNat k < Structured.numInputs (g.op id)
    · simp only [if_pos input]
      refine (kept.value (memOfAt at_)).bind fun q le r r' ⟨same,w,name,own,_⟩ => done same fun after => ?_
      rcases few with few | all
      · have small : k < wordBound := (Nat.le_add_right ..).trans_lt few
        exact absurd input (Word.notBelow small (size ▸ after))
      · exact own (all w (memOfAt at_ w name))
    · simp only [if_neg input]
      have copied : Copied (g.op id) k (Int64.ofNat k - Structured.numInputs (g.op id)).toNatClampNeg :=
        .inl ⟨isStructured,input,rfl⟩
      exact (kept.output at_ copied).bind fun q le r r' ⟨same,own⟩ => done same fun _ => own

theorem indexingMaps : Eval.indexingMaps (g'.op id) = Eval.indexingMaps (g.op id) := by
  simp only [Eval.indexingMaps,windowOf,Structured.indexingMaps,strides,dilations,
    kept.kind,kept.attrs]

theorem structured (isStructured : isStructured (g.op id) = true) :
    Tracks V p Tracks.Done (structured g id : Exec α Unit) (structured g' id) := by
  unfold Eval.structured
  simp only [kept.indexingMaps,kept.region,kept.numInputs,kept.operands,loopExtentsRenamed kept.types]
  refine (Tracks.liftSame _).bind fun q le maps maps' eq => ?_
  subst eq
  cases region : (g.op id).region with
  | none => exact Tracks.fails fun s b t => failOk
  | some b =>
    refine (Tracks.liftSame _).bind fun q le es es' eq => ?_
    subst eq
    have arrays := kept.operandArrays (p := q) isStructured (g.op id).operands 0 rfl (by simpa using kept.few)
    refine arrays.bind fun q le rs rs' ⟨all,written⟩ => Tracks.each fun idx => ?_
    exact Tracks.point (kept.bodies b region) maps all written idx

theorem values (vs : List Operand) (mem : ∀ w, some w ∈ vs → some w ∈ (g.op id).operands) :
    Tracks V p (fun q rs rs' => Forall₂ q.same rs rs') (values g vs : Exec α (List Ref))
      (values g' (vs.map (Option.map V.rename))) := by
  induction vs generalizing p with
  | nil => exact Tracks.pure fun _ _ => .nil
  | cons v vs ih =>
    refine (kept.value fun w same => mem w (same ▸ .head _)).bind fun q le r r' ⟨same,_⟩ => ?_
    refine (ih fun w h => mem w (.tail _ h)).bind fun q le rs rs' all => ?_
    exact Tracks.pure fun q le' => .cons ((le.trans le').same _ _ same) (all.imp fun _ _ => le'.same _ _)

theorem primitiveArrays (isPrimitive : isPrimitive (g.op id) = true) :
    Tracks V p (fun q c c' => Forall₂ q.same c.1 c'.1 ∧ q.same c.2 c'.2 ∧ q.own c.2 c'.2)
      (primitiveArrays g id : Exec α (List Ref × Ref)) (primitiveArrays g' id) := by
  refine (Tracks.lift (R := fun _ ins ins' => ins' = ins.map (Option.map V.rename) ∧
    ∀ w, some w ∈ ins → some w ∈ (g.op id).operands) fun ins ok => ?_).bind fun q le ins ins' ⟨eq,mem⟩ => ?_
  · unfold Primitive.inputs at ok ⊢
    rw [kept.operands,isEmpty_map]
    split at ok
    · exact absurd ok Outcome.abortOk
    · rename_i some
      cases ok
      rw [if_neg some,← map_dropLast]
      exact ⟨_,rfl,fun _ _ => ⟨rfl,fun w mem => mem_of_mem_dropLast mem⟩⟩
  subst eq
  refine (kept.values ins mem).bind fun q le rs rs' all => ?_
  refine (Tracks.lift (R := fun _ v v' => v' = v.map V.rename ∧ (g.op id).operands.getLast? = some v)
    fun v ok => ?_).bind fun q le1 v v' ⟨eq,last⟩ => ?_
  · have last := ofOptionOk.mp ok
    refine ⟨v.map V.rename,ofOptionOk.mpr ?_,fun _ _ => ⟨rfl,last⟩⟩
    rw [kept.operands,getLast?_map,last]
    rfl
  subst eq
  have some : (g.op id).operands ≠ [] := fun none => by simp [none] at last
  have copied : Copied (g.op id) ((g.op id).operands.length - 1) (0 : Int64).toNatClampNeg :=
    .inr (.inr ⟨isPrimitive,Nat.sub_add_cancel (length_pos_iff.mpr some),rfl⟩)
  rw [getLast?_eq_getElem?] at last
  refine (kept.output last copied).bind fun q le2 c c' ⟨paired,own⟩ => ?_
  exact Tracks.pure fun q le3 => ⟨all.imp fun _ _ => ((le1.trans le2).trans le3).same _ _,le3.same _ _ paired,
    le3.own _ _ own⟩

theorem elementwise (isPrimitive : isPrimitive (g.op id) = true) (f : List α → Outcome α) :
    Tracks V p Tracks.Done (elementwise g id f) (elementwise g' id f) := by
  refine (kept.primitiveArrays isPrimitive).bind fun q le c c' ⟨all,paired,own⟩ => ?_
  refine (Tracks.array paired).bind fun q le1 a a' ⟨eq,_⟩ => ?_
  subst eq
  refine Tracks.each fun idx => ?_
  refine (Tracks.broadcastAll idx (all.imp fun _ _ => le1.same _ _)).bind fun q le2 args args' eq => ?_
  subst eq
  refine (Tracks.liftSame _).bind fun q le3 x x' eq => ?_
  subst eq
  exact Tracks.store (((le1.trans le2).trans le3).own _ _ own) idx x

theorem primitive (isPrimitive : isPrimitive (g.op id) = true) :
    Tracks V p Tracks.Done (primitive g id : Exec α Unit) (primitive g' id) := by
  unfold Eval.primitive
  simp only [verifyPrimitiveRenamed kept.operands kept.types kept.kind,kept.kind]
  refine (Tracks.liftSame _).bind fun q le _ _ _ => ?_
  split
  · exact kept.elementwise isPrimitive _
  split
  · exact kept.elementwise isPrimitive _
  split
  · exact kept.elementwise isPrimitive _
  refine (kept.primitiveArrays isPrimitive).bind fun q le c c' ⟨all,paired,own⟩ => ?_
  obtain ⟨ins,out⟩ := c
  obtain ⟨ins',out'⟩ := c'
  rcases all with _ | @⟨a,a',_,_,ha,_ | @⟨b,b',_,_,hb,_ | ⟨_,_⟩⟩⟩
  · exact Tracks.fails fun s b t => abortOk
  · exact Tracks.fails fun s b t => abortOk
  · refine (Tracks.array ha).bind fun q le1 x x' ⟨eq,_⟩ => ?_
    subst eq
    refine (Tracks.array (le1.same _ _ hb)).bind fun q le2 y y' ⟨eq,_⟩ => ?_
    subst eq
    refine (Tracks.liftSame _).bind fun q le3 c c' eq => ?_
    subst eq
    have le := (le1.trans le2).trans le3
    exact Tracks.contract c (le.same _ _ ha) (le.same _ _ hb) (le.same _ _ paired) (le.own _ _ own)
  · exact Tracks.fails fun s b t => abortOk

theorem evalOp : Tracks V p Tracks.Done (evalOp g id : Exec α Unit) (evalOp g' id) := by
  have isStructured : isStructured (g'.op id) = isStructured (g.op id) := by
    rw [isStructured,kept.kind,isStructured]
  have isPrimitive : isPrimitive (g'.op id) = isPrimitive (g.op id) := by
    rw [isPrimitive,Operation.dialect,kept.kind,isPrimitive,Operation.dialect]
  have known (mem : (g.op id).kind ∈ kinds) : Structured.isStructured (g.op id) = true :=
    contains_iff_mem.mpr mem
  unfold Eval.evalOp
  dsimp only
  rw [kept.kind,isStructured,isPrimitive]
  refine .choice (fun _ => kept.constant) fun _ => ?_
  refine .choice (fun _ => kept.new) fun _ => ?_
  refine .choice kept.retype fun _ => ?_
  refine .choice (fun _ => kept.slice) fun _ => ?_
  refine .choice (fun _ => kept.pad) fun _ => ?_
  refine .choice kept.bufferCopy fun _ => ?_
  refine .choice kept.pack fun _ => ?_
  refine .choice kept.unpack fun _ => ?_
  refine .choice (fun isFill => kept.fill (known (by simp [isFill,kinds]))) fun _ => ?_
  refine .choice (fun isCopy => kept.copy (known (by simp [isCopy,kinds]))) fun _ => ?_
  refine .choice kept.structured fun _ => ?_
  refine .choice kept.primitive fun _ => ?_
  exact Tracks.fails fun s b t => failOk

end Kept

end Eval

end TileLower

import TileLower.Proofs.Emissions
import TileLower.Proofs.PadAttempts
import TileLower.Proofs.Tables

/-!
Blocking goes through. The checks at the start of a rule are all that the makers ask for, so each attempt is
committed, or declines.
-/
namespace TileLower

open Arith Memory List ValueType Body

namespace Layout

theorem rankOfValid {d : Layout} {rank} (tiled : d.inner ≠ []) (valid : d.validate (Int64.ofNat rank) = .ok ()) :
    rank ≠ 0 := by
  rintro rfl
  obtain ⟨-,inner,-⟩ := validateOk.mp valid
  obtain ⟨p,mem⟩ := exists_mem_of_ne_nil _ tiled
  obtain ⟨nonneg,below⟩ := (validateInnerOk inner).1 p mem
  exact absurd (Int64.lt_of_le_of_lt nonneg below) (by decide)

end Layout

namespace Blocking

open Relayout Structured Drafting

variable {g : Graph} {s : Site} {la lb lc : Layout} {maps : List AffineMap} {iterators : List Iterator}

theorem packAllCons {ops : List Operation} {a : Value} {l t ps vs e} (below : a.Below g.ops.size)
    (packed : PackedAs l (g.typeOf a) t)
    (rest : packAll s ps (.staged g (ops ++ [emptyOp t,
      convertOp packKind (some a) (some (.result (g.ops.size + ops.length) 0)) t l .kept])) = .ok vs e) :
    packAll s (⟨some a,l⟩ :: ps) (.staged g ops) = .ok (some (.result (g.ops.size + ops.length + 1) 0) :: vs) e := by
  rw [packAll,Step.bindOfOk (Site.expectOk.mpr (packRun below packed)),Step.bindOfOk rest]
  rfl

theorem packAllRun {a b c ta tb tc} (below : ∀ v ∈ [a, b, c], v.Below g.ops.size) (left : PackedAs la (g.typeOf a) ta)
    (right : PackedAs lb (g.typeOf b) tb) (out : PackedAs lc (g.typeOf c) tc) :
    packAll s [⟨some a,la⟩, ⟨some b,lb⟩, ⟨some c,lc⟩] (.ofGraph g) =
      .ok [some (.result (g.ops.size + 1) 0), some (.result (g.ops.size + 3) 0), some (.result (g.ops.size + 5) 0)]
        (.staged g (packedOps g.ops.size a b c la lb lc ta tb tc)) := by
  rw [← Draft.stagedNil]
  exact packAllCons (below a (by simp)) left (packAllCons (below b (by simp)) right (packAllCons (below c (by simp)) out rfl))

end Blocking

namespace Graph

open Relayout Structured

variable {h : Graph} {K : OpId → Prop} {k : OpId}

theorem slotTypes (ts : List ValueType) : (ts.map Slot.ofType).map Slot.type = ts := by
  rw [map_map]
  exact map_id ts

def plainKinds : List String :=
  [emptyKind, mulFloatKind, mulIntKind, addFloatKind, addIntKind, yieldKind]

theorem Built.ofPlain (plain : (h.op k).kind ∈ plainKinds) (bare : (h.op k).region = none)
    (room : (h.op k).operands.length ≤ 2)
    (counts : ∀ c ∈ signature? (h.op k).kind, (h.op k).operands.length = c.1 ∧ (h.op k).results.length = c.2) :
    h.Built k := by
  have table : ∀ kind ∈ plainKinds, kinds.contains kind = false ∧ namedInputs? kind = none ∧ kind ≠ packKind ∧
      kind ≠ unpackKind ∧ (dialectOf kind == Primitive.dialect) = false := by decide
  obtain ⟨unstructured,unnamed,notPack,notUnpack,other⟩ := table _ plain
  refine ⟨room.trans (by decide),counts,fun is => ?_,fun n found => ?_,fun is => ?_,fun is => ?_,fun b region => ?_⟩
  · rw [isStructured,unstructured] at is
    cases is
  · cases unnamed.symm.trans found
  · exact absurd is (not_or.mpr ⟨notPack,notUnpack⟩)
  · rw [Primitive.isPrimitive,Operation.dialect,other] at is
    cases is
  · cases bare.symm.trans region

theorem Built.ofConvert {kind source w l b} (among : kind ∈ [packKind, unpackKind])
    (op : h.op k = convertOp kind source (some w) (h.typeOf w) l b) : h.Built k := by
  have table : ∀ kind ∈ [packKind, unpackKind], signature? kind = none ∧ namedInputs? kind = none ∧
      kinds.contains kind = false ∧ (dialectOf kind == Primitive.dialect) = false := by decide
  obtain ⟨unsigned,unnamed,plain,other⟩ := table kind among
  refine ⟨?_,?_,?_,?_,?_,?_,?_⟩ <;> rw [op]
  · exact (by decide : 2 ≤ lengthLimit.toNatClampNeg)
  · intro c found
    cases unsigned.symm.trans found
  · intro is
    rw [isStructured,convertOp,plain] at is
    cases is
  · intro c found
    cases unnamed.symm.trans found
  · refine fun _ => ⟨rfl,?_⟩
    simp only [convertOp]
    split
    · rename_i tensor
      simp [tensorTypes,tensor,Slot.ofType]
    · rename_i tensor
      simp [tensorTypes,tensor]
  · intro is
    rw [Primitive.isPrimitive,Operation.dialect,convertOp,other] at is
    cases is
  · rintro _ ⟨⟩

theorem Built.ofMade {kind a b w attrs region} (among : kind ∈ [genericKind, matmulKind])
    (op : h.op k = { madeOp kind [a, b] [some w] [h.typeOf w] attrs with region })
    (body : ∀ r ∈ region, (h.block r).args.length = 3) : h.Built k := by
  have table : ∀ kind ∈ [genericKind, matmulKind], signature? kind = none ∧ (∀ n ∈ namedInputs? kind, n = 2) ∧
      kind ≠ packKind ∧ kind ≠ unpackKind ∧ (dialectOf kind == Primitive.dialect) = false := by decide
  obtain ⟨unsigned,named,notPack,notUnpack,other⟩ := table kind among
  have count : numInputs { madeOp kind [a, b] [some w] [h.typeOf w] attrs with region } = 2 := by
    simp [numInputs,madeOp,Attributes.int?,OrderedMap.loadStore]
  refine ⟨?_,?_,?_,?_,?_,?_,?_⟩ <;> rw [op]
  · exact (by decide : 3 ≤ lengthLimit.toNatClampNeg)
  · intro c found
    cases unsigned.symm.trans found
  · intro _
    rw [count]
    refine ⟨by decide,(by decide : (2 : Int64).toNatClampNeg ≤ 3),?_⟩
    exact slotTypes _
  · intro n found
    rw [count,named n found]
    exact ⟨rfl,rfl⟩
  · exact fun is => absurd is (not_or.mpr ⟨notPack,notUnpack⟩)
  · intro is
    rw [Primitive.isPrimitive,Operation.dialect,madeOp,other] at is
    cases is
  · exact body

theorem Built.ofPrimitive {a b w} (op :
      h.op k =
      ⟨Primitive.vnniMatmulKind,
      [a, b, some w],(if (h.typeOf w).isTensor then [h.typeOf w] else []).map Slot.ofType,OrderedMap.empty,none,
      none⟩) : h.Built k := by
  refine ⟨?_,?_,?_,?_,?_,?_,?_⟩ <;> rw [op]
  · exact (by decide : 3 ≤ lengthLimit.toNatClampNeg)
  · exact nofun
  · exact fun is => absurd (show kinds.contains Primitive.vnniMatmulKind = true from is) (by decide)
  · exact nofun
  · exact fun is => absurd (show Primitive.vnniMatmulKind = packKind ∨ Primitive.vnniMatmulKind = unpackKind from is) (by decide)
  · refine fun _ => ⟨nofun,?_⟩
    change ((if (h.typeOf w).isTensor then [h.typeOf w] else []).map Slot.ofType).map Slot.type =
      [h.typeOf w].filter isTensor
    rw [slotTypes,filter_cons,filter_nil]
  · exact nofun

theorem unmarkedOfKind {o : Operation} (other : o.kind ≠ genericKind) :
    Body.isMarkedWith o Primitive.matmulKind = false := by
  rw [isMarkedWith,hasPrimitiveMark,beq_false_of_ne other,Bool.false_and,Bool.false_and]

theorem Proper.ofNew (built : h.Built k) (bare : (h.op k).region = none) (away : (h.op k).block = none)
    (other : (h.op k).kind ∉ Blocking.kinds) (unmarked : Body.isMarkedWith (h.op k) Primitive.matmulKind = false)
    (operands : ∀ v ∈ (h.op k).operands, ∃ w, v = some w ∧ w.Held K h ∧ (h.typeOf w).Flat) : h.Proper K k := by
  refine ⟨built,operands,fun among => absurd among other,fun marked => ?_,fun b region => ?_,fun b home => ?_⟩
  · cases unmarked.symm.trans marked
  · cases bare.symm.trans region
  · cases away.symm.trans home

theorem Proper.ofEmpty {t} (op : h.op k = emptyOp t) : h.Proper K k := by
  refine .ofNew (.ofPlain ?_ ?_ ?_ ?_) ?_ ?_ ?_ ?_ ?_ <;> rw [op]
  · exact (by decide : emptyKind ∈ plainKinds)
  · rfl
  · exact Nat.zero_le _
  · intro c found
    cases (show signature? emptyKind = some (0, 1) by decide).symm.trans found
    exact ⟨rfl,rfl⟩
  · rfl
  · rfl
  · exact (by decide : emptyKind ∉ Blocking.kinds)
  · rfl
  · exact nofun

theorem Proper.ofConvert {kind} {v w : Value} {l b} (among : kind ∈ [packKind, unpackKind])
    (op : h.op k = convertOp kind (some v) (some w) (h.typeOf w) l b) (source : v.Held K h ∧ (h.typeOf v).Flat)
    (dest : w.Held K h ∧ (h.typeOf w).Flat) : h.Proper K k := by
  have table : ∀ kind ∈ [packKind, unpackKind], kind ∉ Blocking.kinds ∧ kind ≠ genericKind := by decide
  refine .ofNew (.ofConvert among op) ?_ ?_ ?_ ?_ ?_ <;> rw [op]
  · rfl
  · rfl
  · exact (table kind among).1
  · exact unmarkedOfKind (table kind among).2
  · intro u mem
    simp only [convertOp,mem_cons,not_mem_nil,or_false] at mem
    rcases mem with rfl | rfl
    · exact ⟨v,rfl,source⟩
    · exact ⟨w,rfl,dest⟩

theorem Proper.ofGeneric {a b w maps iterators}
    (op : h.op k = madeOp genericKind [some a, some b] [some w] [h.typeOf w] (genericAttrs maps iterators ""))
    (held : ∀ v ∈ [a, b, w], v.Held K h ∧ (h.typeOf v).Flat) : h.Proper K k := by
  have call : libraryCall (h.op k) = "" := by
    rw [op,libraryCall,madeOp,Attributes.text?,OrderedMap.loadStore]
    simp [genericAttrs,Attributes.ofList,OrderedMap.loadStore,OrderedMap.loadEmpty,indexingMapsAttr,iteratorTypesAttr,
      libraryCallAttr,numInputsAttr]
  refine .ofNew (.ofMade (.head _) op fun _ none => by cases none) ?_ ?_ ?_ ?_ ?_
  · rw [op]
    rfl
  · rw [op]
    rfl
  · rw [op]
    exact (by decide : genericKind ∉ Blocking.kinds)
  · rw [Body.isMarkedWith,call]
    exact Bool.and_false _
  · rw [op]
    intro v mem
    obtain ⟨u,mem',rfl⟩ := mem_map.mp (show v ∈ [a, b, w].map some from mem)
    exact ⟨u,rfl,held u mem'⟩

theorem Proper.ofPrimitive {a b w} (op :
      h.op k =
      ⟨Primitive.vnniMatmulKind,[some a, some b, some w],
      (if (h.typeOf w).isTensor then [h.typeOf w] else []).map Slot.ofType,OrderedMap.empty,none,none⟩)
    (held : ∀ v ∈ [a, b, w], v.Held K h ∧ (h.typeOf v).Flat) : h.Proper K k := by
  refine .ofNew (.ofPrimitive op) ?_ ?_ ?_ ?_ ?_ <;> rw [op]
  · exact (by decide : Primitive.vnniMatmulKind ∉ Blocking.kinds)
  · exact unmarkedOfKind (by decide : Primitive.vnniMatmulKind ≠ genericKind)
  · intro v mem
    obtain ⟨u,mem',rfl⟩ := mem_map.mp (show v ∈ [a, b, w].map some from mem)
    exact ⟨u,rfl,held u mem'⟩

theorem Proper.ofInner {b} (plain : (h.op k).kind ∈ plainKinds) (bare : (h.op k).region = none)
    (room : (h.op k).operands.length ≤ 2)
    (counts : ∀ c ∈ signature? (h.op k).kind, (h.op k).operands.length = c.1 ∧ (h.op k).results.length = c.2)
    (home : (h.op k).block = some b) (listed : k ∈ (h.block b).ops)
    (operands : ∀ v ∈ (h.op k).operands, ∃ w, v = some w ∧ w.Held K h ∧ (h.typeOf w).Flat) : h.Proper K k := by
  have table : ∀ kind ∈ plainKinds, kind ∉ Blocking.kinds ∧ kind ≠ genericKind := by decide
  obtain ⟨other,notGeneric⟩ := table _ plain
  refine ⟨.ofPlain plain bare room counts,operands,fun among => absurd among other,fun marked => ?_,fun r region => ?_,
    fun r block => ?_⟩
  · cases (unmarkedOfKind notGeneric).symm.trans marked
  · cases bare.symm.trans region
  · cases home.symm.trans block
    exact listed

end Graph

theorem flatTensor {t : ValueType} (tensor : t.isTensor = true) : t.Flat := fun bare => by
  rw [isShaped,tensor] at bare
  cases bare

theorem Draft.replaceWithNewRun {g : Graph} (ops : List Operation) {o : Operation} {id} (within : id < g.ops.size)
    (types : o.results.map Slot.type = (g.op id).results.map Slot.type) :
    replaceWithNew id (g.ops.size + ops.length) { staged g ops with graph := (g.pushAll ops).push o } =
      .ok () { staged g (ops ++ [o]) with
        replacements := [(id, ((g.pushAll (ops ++ [o])).resultsOf (g.ops.size + ops.length)).map some)] } := by
  have same : ((g.pushAll (ops ++ [o])).resultsOf (g.ops.size + ops.length)).map (staged g (ops ++ [o])).graph.typeOf =
      ((staged g (ops ++ [o])).graph.op id).results.map Slot.type := by
    rw [show (staged g (ops ++ [o])).graph.op id = g.op id from g.pushAllOld _ within,← types]
    refine (Graph.resultTypes (g.pushAll (ops ++ [o])) _).trans ?_
    rw [g.pushAllNew _ getElem?_concat_length]
  have replaced := replaceRun _ same
  rw [replaceWithNew,Step.bindOfOk (stagedList g ops o),Step.bindOfOk Drafting.graphRun]
  exact replaced

section Pushed

open Relayout Structured TileLower.Graph

variable {K : OpId → Prop} {g : Graph} (tidy : Tidy K g) {ops : List Operation}

variable (ops) in
theorem heldPushed {w : Value} (held : w.Held K g) : w.Held K (g.pushAll ops) ∧ (g.pushAll ops).typeOf w = g.typeOf w :=
  Tidy.heldGrown (fun _ old => g.pushAllOld ops old) (fun _ _ => rfl) held

include tidy

theorem heldNew {m i} {o : Operation} (at_ : ops[m]? = some o) (lt : i < o.results.length) :
    (Value.result (g.ops.size + m) i).Held K (g.pushAll ops) := by
  refine ⟨tidy.later _ (Nat.le_add_right ..),?_⟩
  rwa [g.pushAllNew ops at_]

theorem tidyPushed (body : 0 < g.blocks.size)
    (new : ∀ m, m < ops.length → (g.pushAll ops).Proper K (g.ops.size + m)) : Tidy K (g.pushAll ops) := by
  refine tidy.grown (by simp) (le_rfl) (fun _ old => g.pushAllOld ops old) (fun _ _ => rfl) body fun k beyond inside => ?_
  obtain ⟨m,rfl⟩ := Nat.exists_eq_add_of_le beyond
  rw [g.pushAllSize] at inside
  exact new m (Nat.lt_of_add_lt_add_left inside)

variable (ops) in
theorem packProper {m} {a : Value} {t l b} (held : a.Held K g) (packed : PackedAs l (g.typeOf a) t)
    (empty : ops[m]? = some (emptyOp t))
    (pack : ops[m + 1]? = some (convertOp packKind (some a) (some (.result (g.ops.size + m) 0)) t l b)) :
    (g.pushAll ops).Proper K (g.ops.size + m) ∧ (g.pushAll ops).Proper K (g.ops.size + (m + 1)) ∧
      (Value.result (g.ops.size + (m + 1)) 0).Held K (g.pushAll ops) ∧
      (g.pushAll ops).typeOf (.result (g.ops.size + (m + 1)) 0) = t := by
  obtain ⟨tensor,kind⟩ := packed.blockedTensor
  obtain ⟨heldA,typeA⟩ := heldPushed ops held
  have opE := g.pushAllNew ops empty
  have opP := g.pushAllNew ops pack
  have typeE : (g.pushAll ops).typeOf (.result (g.ops.size + m) 0) = t := (g.pushAllResultType ops empty 0).trans kind
  have slots : (convertOp packKind (some a) (some (.result (g.ops.size + m) 0)) t l b).results = [.ofType t] := by
    rw [convertOp,if_pos tensor]
  have flatA : ((g.pushAll ops).typeOf a).Flat := by
    rw [typeA]
    exact flatTensor packed.tensor
  have heldE : (Value.result (g.ops.size + m) 0).Held K (g.pushAll ops) := heldNew tidy empty Nat.zero_lt_one
  refine ⟨.ofEmpty opE,.ofConvert (by simp) (typeE.symm ▸ opP) ⟨heldA,flatA⟩ ⟨heldE,typeE.symm ▸ flatTensor tensor⟩,
    heldNew tidy pack (by rw [slots]; exact Nat.zero_lt_one),?_⟩
  rw [g.pushAllResultType ops pack,slots]
  rfl

theorem remakesOfPushed {id : OpId} {moved : Option OpId} {vals : List Value} {d : Draft} (bodied : Bodied K g)
    (within : id < g.ops.size) (body : 0 < g.blocks.size)
    (new : ∀ m, m < ops.length → (g.pushAll ops).Proper K (g.ops.size + m)) (kinds : ∀ o ∈ ops, o.kind ∉ Blocking.kinds)
    (held : ∀ v ∈ vals, v.Held K (g.pushAll ops))
    (types : vals.map (g.pushAll ops).typeOf = (g.op id).results.map Slot.type)
    (aim : ∀ t, moved = some t → ∃ m o, ops[m]? = some o ∧ t = g.ops.size + m ∧
      o.operands.length = (g.op id).operands.length ∧ (g.op id).region.isSome = true)
    (draft : d = { Draft.staged g ops with
      moves := moved.toList.map fun t => (some id, some t)
      replacements := [(id, vals.map some)] }) : Remakes K g id moved vals d := by
  subst draft
  have newKind {k : OpId} (beyond : g.ops.size ≤ k) (inside : k < (g.pushAll ops).ops.size) :
      ((g.pushAll ops).op k).kind ∉ Blocking.kinds := by
    obtain ⟨m,rfl⟩ := Nat.exists_eq_add_of_le beyond
    rw [g.pushAllSize] at inside
    have at_ := getElem?_eq_getElem (Nat.lt_of_add_lt_add_left inside)
    rw [g.pushAllNew ops at_]
    exact kinds _ (mem_of_getElem? at_)
  have created {k : OpId} (mem : k ∈ range' g.ops.size ops.length) : g.ops.size ≤ k ∧ k < (g.pushAll ops).ops.size := by
    rw [g.pushAllSize]
    exact mem_range'_1.mp mem
  refine ⟨tidyPushed tidy body new,fun k known inside kind stands => ?_,g.pushAllOld ops within,fun k mem => ?_,held,
    types,fun t same => ?_,rfl,rfl,rfl⟩
  · by_cases beyond : g.ops.size ≤ k
    · exact absurd kind (newKind beyond inside)
    · have old : (g.pushAll ops).op k = g.op k := g.pushAllOld ops (Nat.lt_of_not_le beyond)
      change ((g.pushAll ops).op k).kind ∈ Blocking.kinds at kind
      change k ∈ range' g.ops.size ops.length ∨ ((g.pushAll ops).op k).block.isSome = true at stands
      change ((g.pushAll ops).op k).region.isSome = true
      rw [old] at kind stands ⊢
      exact bodied k known (Nat.lt_of_not_le beyond) kind (stands.resolve_left fun mem => beyond (created mem).1)
  · obtain ⟨beyond,inside⟩ := created mem
    exact ⟨tidy.later k beyond,fun same => absurd within (Nat.not_lt.mpr (same ▸ beyond)),inside⟩
  · obtain ⟨m,o,at_,rfl,length,region⟩ := aim t same
    have lt : m < ops.length := (List.getElem?_eq_some_iff.mp at_).1
    refine ⟨mem_range'_1.mpr ⟨Nat.le_add_right ..,Nat.add_lt_add_left lt _⟩,?_,?_,region⟩
    · exact newKind (Nat.le_add_right ..) (by rw [g.pushAllSize]; exact Nat.add_lt_add_left lt _)
    · exact (congrArg (fun o => o.operands.length) (g.pushAllNew ops at_)).trans length

end Pushed

theorem Tidy.nonempty {K} {g : Graph} (tidy : Tidy K g) {id b} (known : K id) (block : (g.op id).block = some b) :
    0 < g.blocks.size := by
  have listed := (tidy.proper id known (Graph.blockInside block)).home b block
  by_contra outside
  rw [Graph.blockOutside fun inside => outside (Nat.zero_lt_of_lt inside)] at listed
  cases listed

theorem flatElement {t : ValueType} (flat : t.Flat) : (Structured.elementOf t).Flat := by
  unfold Structured.elementOf
  split
  · exact fun _ => rfl
  · exact flat

section MulAdd

open Structured TileLower.Graph

variable {K : OpId → Prop} {h : Graph} {r : BlockId} {n : OpId} {ta tb tc : ValueType}

theorem arithProper {x y : Value} {k kind t}
    (among : kind ∈ [mulFloatKind, mulIntKind, addFloatKind, addIntKind])
    (op : h.op k = ⟨kind,[some x, some y],[.ofType t],OrderedMap.empty,none,some r⟩) (listed : k ∈ (h.block r).ops)
    (left : x.Held K h ∧ (h.typeOf x).Flat) (right : y.Held K h ∧ (h.typeOf y).Flat) :
    h.Proper K k ∧ (h.op k).kind ∈ plainKinds := by
  have table : ∀ kind ∈ [mulFloatKind, mulIntKind, addFloatKind, addIntKind],
      kind ∈ plainKinds ∧ signature? kind = some (2, 1) := by decide
  obtain ⟨plain,signed⟩ := table kind among
  refine ⟨.ofInner (b := r) ?_ ?_ ?_ ?_ ?_ listed ?_,?_⟩ <;> rw [op]
  · exact plain
  · exact Nat.le_refl 2
  · intro c found
    cases signed.symm.trans found
    exact ⟨rfl,rfl⟩
  · intro v mem
    simp only [mem_cons,not_mem_nil,or_false] at mem
    rcases mem with rfl | rfl
    · exact ⟨x,rfl,left⟩
    · exact ⟨y,rfl,right⟩
  · exact plain

variable (later : ∀ k, n ≤ k → K k) (args : (h.block r).args = [elementOf ta, elementOf tb, elementOf tc].map Slot.ofType)
  (listed : (h.block r).ops = [n, n + 1, n + 2])
  (inner : ∀ m o, (mulAddOps r n (elementOf ta) (elementOf tc))[m]? = some o → h.op (n + m) = { o with block := some r })
  (flat : ∀ t ∈ [ta, tb, tc], t.Flat)

include args flat in
theorem argumentHeld {i} (lt : i < 3) : (Value.argument r i).Held K h ∧ (h.typeOf (.argument r i)).Flat := by
  rw [Value.Held,typeOf,slot,args]
  refine ⟨lt,?_⟩
  interval_cases i
  · exact flatElement (flat ta (by simp))
  · exact flatElement (flat tb (by simp))
  · exact flatElement (flat tc (by simp))

include later inner in
theorem innerHeld {i} {o : Operation} {t : ValueType} (at_ : (mulAddOps r n (elementOf ta) (elementOf tc))[i]? = some o)
    (slots : o.results = [.ofType t]) (flat : t.Flat) :
    (Value.result (n + i) 0).Held K h ∧ (h.typeOf (.result (n + i) 0)).Flat := by
  have op := inner i o at_
  rw [Value.Held,typeOf,slot,op,slots]
  exact ⟨⟨later _ (Nat.le_add_right ..),Nat.zero_lt_one⟩,flat⟩

include later args listed inner flat

theorem mulAddProper {m} (lt : m < 3) : h.Proper K (n + m) ∧ (h.op (n + m)).kind ∈ plainKinds := by
  have here : n + m ∈ (h.block r).ops := by
    rw [listed]
    exact mem_range'_1.mpr ⟨Nat.le_add_right ..,Nat.add_lt_add_left lt _⟩
  have product := innerHeld (i := 0) later inner rfl rfl (flatElement (flat ta (by simp)))
  have sum := innerHeld (i := 1) later inner rfl rfl (flatElement (flat tc (by simp)))
  interval_cases m
  · refine arithProper ?_ (inner 0 _ rfl) here (argumentHeld args flat (by decide)) (argumentHeld args flat (by decide))
    rw [mulOp]
    split <;> simp
  · refine arithProper ?_ (inner 1 _ rfl) here (argumentHeld args flat (by decide)) product
    rw [Arith.addOp]
    split <;> simp
  · have op := inner 2 _ rfl
    refine ⟨.ofInner (b := r) ?_ ?_ ?_ ?_ ?_ here ?_,?_⟩ <;> rw [op]
    · exact (by decide : yieldKind ∈ plainKinds)
    · exact Nat.le_succ 1
    · rintro _ ⟨⟩
    · intro v mem
      rw [mem_singleton.mp mem]
      exact ⟨_,rfl,sum⟩
    · exact (by decide : yieldKind ∈ plainKinds)

end MulAdd

namespace Blocking

open Relayout Structured Drafting TileLower.Graph

variable {K : OpId → Prop} {g : Graph} {s : Site}

theorem Blocks.remakes {id : OpId} {a b c : Value} {la lb lc : Layout} {ta tb tc : ValueType} {maps : List AffineMap}
    {iterators : List Iterator} {d : Draft} {home : BlockId}
    (blocks : Blocks g id a b c la lb lc ta tb tc maps iterators d) (tidy : Tidy K g) (bodied : Bodied K g)
    (known : K id) (block : (g.op id).block = some home) (held : ∀ v ∈ [a, b, c], v.Held K g)
    (region : (g.op id).region.isSome = true) (results : (g.op id).results.map Slot.type = [g.typeOf c]) :
    Remakes K g id (some (g.ops.size + 6)) [.result (g.ops.size + 7) 0] d := by
  let ops := packedOps g.ops.size a b c la lb lc ta tb tc ++ blockedOps g.ops.size c lc tc (g.typeOf c) maps iterators
  obtain ⟨isTensor,kind⟩ := blocks.out.blockedTensor
  obtain ⟨empty0,pack1,held1,type1⟩ := packProper tidy ops (m := 0) (held a (by simp)) blocks.left rfl rfl
  obtain ⟨empty2,pack3,held3,type3⟩ := packProper tidy ops (m := 2) (held b (by simp)) blocks.right rfl rfl
  obtain ⟨empty4,pack5,held5,type5⟩ := packProper tidy ops (m := 4) (held c (by simp)) blocks.out rfl rfl
  obtain ⟨heldC,typeC⟩ := heldPushed ops (held c (by simp))
  have at6 := g.pushAllNew ops (m := 6) rfl
  have at7 := g.pushAllNew ops (m := 7) rfl
  have slots6 : (madeOp genericKind [some (.result (g.ops.size + 1) 0), some (.result (g.ops.size + 3) 0)]
      [some (.result (g.ops.size + 5) 0)] [tc] (genericAttrs maps iterators "")).results = [.ofType tc] := by
    rw [madeOp,filter_cons_of_pos isTensor]
    rfl
  have slots7 : (convertOp unpackKind (some (.result (g.ops.size + 6) 0)) (some c) (g.typeOf c) lc .kept).results =
      [.ofType (g.typeOf c)] := by rw [convertOp,if_pos blocks.out.tensor]
  have held6 : (Value.result (g.ops.size + 6) 0).Held K (g.pushAll ops) :=
    heldNew tidy (m := 6) rfl (by rw [slots6]; exact Nat.zero_lt_one)
  have held7 : (Value.result (g.ops.size + 7) 0).Held K (g.pushAll ops) :=
    heldNew tidy (m := 7) rfl (by rw [slots7]; exact Nat.zero_lt_one)
  have type6 : (g.pushAll ops).typeOf (.result (g.ops.size + 6) 0) = tc := by
    rw [g.pushAllResultType ops (m := 6) rfl,slots6]
    rfl
  have type7 : (g.pushAll ops).typeOf (.result (g.ops.size + 7) 0) = g.typeOf c := by
    rw [g.pushAllResultType ops (m := 7) rfl,slots7]
    rfl
  have generic : (g.pushAll ops).Proper K (g.ops.size + 6) := by
    refine .ofGeneric (type5.symm ▸ at6) (forall_mem_cons.mpr ⟨⟨held1,?_⟩,forall_mem_cons.mpr ⟨⟨held3,?_⟩,
      forall_mem_singleton.mpr ⟨held5,?_⟩⟩⟩)
    · exact type1.symm ▸ flatTensor blocks.left.blockedTensor.1
    · exact type3.symm ▸ flatTensor blocks.right.blockedTensor.1
    · exact type5.symm ▸ flatTensor isTensor
  have unpack : (g.pushAll ops).Proper K (g.ops.size + 7) :=
    .ofConvert (by simp) (typeC.symm ▸ at7) ⟨held6,type6.symm ▸ flatTensor isTensor⟩
      ⟨heldC,typeC.symm ▸ flatTensor blocks.out.tensor⟩
  refine remakesOfPushed tidy bodied (blockInside block) (tidy.nonempty known block) (fun m lt => ?_) ?_ ?_ ?_ ?_ blocks.draft
  · have lt : m < 8 := lt
    interval_cases m
    exacts [empty0,pack1,empty2,pack3,empty4,pack5,generic,unpack]
  · simp only [packedOps,blockedOps,cons_append,nil_append,forall_mem_cons,convertOp,madeOp,
      emptyOp]
    decide
  · exact forall_mem_singleton.mpr held7
  · rw [map_singleton,type7,results]
  · rintro _ ⟨⟩
    exact ⟨6,_,rfl,rfl,by rw [blocks.operands]; rfl,region⟩

structure Contracts (K : OpId → Prop) (g : Graph) (id : OpId) (a b c : Value) : Prop where
  operands : (g.op id).operands = [some a, some b, some c]
  inputs : Structured.inputs (g.op id) = .ok [some a, some b]
  outputs : outputs (g.op id) = .ok [some c]
  results : (g.op id).results.map Slot.type = g.tensorTypes [some c]
  held : ∀ v ∈ [a, b, c], v.Held K g
  flat : ∀ v ∈ [a, b, c], (g.typeOf v).Flat
  small : ∀ v ∈ [a, b, c], (g.typeOf v).rank < wordBound

theorem contracts (tidy : Tidy K g) {id} (known : K id) (within : id < g.ops.size) (kind : (g.op id).kind ∈ kinds) :
    ∃ a b c, Contracts K g id a b c := by
  obtain ⟨built,operands,few,-⟩ := tidy.proper id known within
  have table : ∀ kind ∈ kinds, Structured.kinds.contains kind = true ∧ namedInputs? kind = some 2 := by decide
  obtain ⟨three,two⟩ := built.named 2 (table _ kind).2
  obtain ⟨n,le,count,inputs,outputs,results⟩ := built.parts (table _ kind).1
  obtain ⟨x,y,z,same⟩ := length_eq_three.mp three
  obtain rfl : n = 2 := by
    rw [three] at le
    have equal := congrArg Int64.toNatClampNeg (count.symm.trans two)
    rw [Word.toNatOfNat (le.trans_lt (by decide))] at equal
    exact equal
  have found (v : Operand) (mem : v ∈ [x, y, z]) : ∃ w, v = some w ∧ w.Held K g ∧ (g.typeOf w).Flat ∧
      (g.typeOf w).rank < wordBound := by
    rw [← same] at mem
    obtain ⟨w,rfl,held,flat⟩ := operands v mem
    exact ⟨w,rfl,held,flat,few kind w mem⟩
  obtain ⟨a,rfl,factsA⟩ := found x (by simp)
  obtain ⟨b,rfl,factsB⟩ := found y (by simp)
  obtain ⟨c,rfl,factsC⟩ := found z (by simp)
  have all : ∀ v ∈ [a, b, c], v.Held K g ∧ (g.typeOf v).Flat ∧ (g.typeOf v).rank < wordBound :=
    forall_mem_cons.mpr ⟨factsA,forall_mem_cons.mpr ⟨factsB,forall_mem_singleton.mpr factsC⟩⟩
  rw [same] at inputs outputs results
  exact ⟨a,b,c,same,inputs,outputs,results,fun v mem => (all v mem).1,fun v mem => (all v mem).2.1,
    fun v mem => (all v mem).2.2⟩

variable {d : Draft}

theorem checkTilesEnds {tiles : List Int64} {n} :
    Ends (fun _ e => d = e ∧ tiles.length = n) (checkTiles s tiles n) d :=
  .check fun length => .guard fun _ => ⟨rfl,not_not.mp length⟩

theorem checkOperandsEnds (present : ∀ v ∈ (d.graph.op s.op).operands, ∃ w, v = some w) :
    Ends (fun _ e => d = e ∧ ∀ w, some w ∈ (d.graph.op s.op).operands → (d.graph.typeOf w).isBuffer = false)
      (checkOperands s) d := by
  refine .bind (ToPrimitive.askEnds (allTypesYields present)) ?_
  rintro static _ ⟨rfl,-⟩
  refine .check fun _ => .bind (ToPrimitive.askEnds (allTypesYields present)) ?_
  rintro tensors _ ⟨rfl,plain⟩
  refine .guard fun all => ⟨rfl,fun w mem => ?_⟩
  obtain ⟨_,⟨⟩,type⟩ := plain (not_not.mp all) _ mem
  exact (Bool.not_eq_true' _).mp type

theorem checkDividesEnds {ps} (small : ∀ p ∈ ps, ∃ v, p.value = some v ∧ (d.graph.typeOf v).rank < wordBound) :
    Ends (fun _ e => d = e ∧ ∀ p ∈ ps, p.Divides d.graph) (checkDivides s ps) d := by
  induction ps with
  | nil => exact .done rfl ⟨rfl,nofun⟩
  | cons p ps ih =>
    obtain ⟨⟨v,value,here⟩,later⟩ := forall_mem_cons.mp small
    refine .next (typeOfOk.mpr ⟨⟨v,value,rfl⟩,rfl⟩) (.bind
      (Q := fun _ e => d = e ∧ p.layout.validate (Int64.ofNat (d.graph.typeOf v).rank) = .ok ())
      (.attempt Layout.validateAnswers fun _ valid => ⟨rfl,valid⟩) ?_)
    rintro _ _ ⟨rfl,valid⟩
    obtain ⟨whole,divides,-⟩ := Layout.dividesAnswers here valid
    refine .next (askOk.mpr ⟨divides,rfl⟩) (.check fun passed => .mono (ih later) ?_)
    rintro _ _ ⟨rfl,rest⟩
    exact ⟨rfl,forall_mem_cons.mpr ⟨⟨v,value,valid,not_not.mp passed ▸ divides⟩,rest⟩⟩

theorem Packing.Divides.packed {v} {l : Layout} (divides : Packing.Divides g ⟨some v,l⟩) (tiled : l.inner ≠ [])
    (flat : (g.typeOf v).Flat) (plain : (g.typeOf v).isBuffer = false) :
    ∃ t, PackedAs l (g.typeOf v) t := by
  obtain ⟨_,⟨⟩,valid,divided⟩ := divides
  have tensor : (g.typeOf v).isTensor = true := by
    by_contra bare
    have axes := flat (by rw [isShaped,plain,Bool.or_false]; exact Bool.eq_false_of_not_eq_true bare)
    exact Layout.rankOfValid tiled valid (by rw [ValueType.rank,axes]; rfl)
  obtain ⟨shape,shaped⟩ := Layout.packedShapeOf valid
  exact ⟨_,tensor,divided,Outcome.bindOk.mpr ⟨shape,shaped,rfl⟩⟩

theorem blockWithEnds {a b c la lb lc maps iterators home} (tidy : Tidy K g) (bodied : Bodied K g) (known : K s.op)
    (block : (g.op s.op).block = some home) (region : (g.op s.op).region.isSome = true)
    (shape : Contracts K g s.op a b c) (plain : ∀ v ∈ [a, b, c], (g.typeOf v).isBuffer = false)
    (tiled : ∀ l ∈ [la, lb, lc], l.inner ≠ []) :
    Ends (fun _ d => ∃ moved vals, Remakes K g s.op moved vals d) (blockWith s la lb lc maps iterators) (.ofGraph g) := by
  refine .next (operandsAtOk.mpr ⟨⟨shape.inputs,shape.outputs⟩,rfl⟩) (.next (nthOk.mpr ⟨rfl,rfl⟩)
    (.next (nthOk.mpr ⟨rfl,rfl⟩) (.next (nthOk.mpr ⟨rfl,rfl⟩) (.bind (checkDividesEnds fun p mem => ?_) ?_))))
  · simp only [mem_cons,not_mem_nil,or_false] at mem
    rcases mem with rfl | rfl | rfl
    · exact ⟨a,rfl,shape.small a (by simp)⟩
    · exact ⟨b,rfl,shape.small b (by simp)⟩
    · exact ⟨c,rfl,shape.small c (by simp)⟩
  · rintro _ _ ⟨rfl,divides⟩
    have packs {v : Value} {l : Layout} (mem : v ∈ [a, b, c]) (among : l ∈ [la, lb, lc])
        (fits : Packing.Divides g ⟨some v,l⟩) : ∃ t, PackedAs l (g.typeOf v) t :=
      fits.packed (tiled l among) (shape.flat v mem) (plain v mem)
    obtain ⟨ta,left⟩ := packs (v := a) (l := la) (by simp) (by simp) (divides _ (by simp))
    obtain ⟨tb,right⟩ := packs (v := b) (l := lb) (by simp) (by simp) (divides _ (by simp))
    obtain ⟨tc,out⟩ := packs (v := c) (l := lc) (by simp) (by simp) (divides _ (by simp))
    have below (v : Value) (mem : v ∈ [a, b, c]) : v.Below g.ops.size := heldBelow (shape.held v mem)
    have results : (g.op s.op).results.map Slot.type = [g.typeOf c] := by
      rw [shape.results,tensorTypes]
      simp [out.tensor]
    have type : (g.pushAll (packedOps g.ops.size a b c la lb lc ta tb tc)).typeOf (.result (g.ops.size + 5) 0) = tc := by
      refine (g.pushAllResultType _ (m := 5) rfl 0).trans ?_
      rw [convertOp,if_pos out.blockedTensor.1]
      rfl
    have blocks : Blocks g s.op a b c la lb lc ta tb tc maps iterators _ := ⟨shape.operands,left,right,out,rfl⟩
    have remakes := blocks.remakes tidy bodied known block shape.held region results
    refine .next (packAllRun below left right out) (.done (b := ()) ?_ ⟨_,_,remakes⟩)
    refine (replaceWithBlockedRun rfl type (below c (by simp)) out).trans (Draft.replaceRun [.result _ 0] ?_)
    exact remakes.types.trans (congrArg (·.results.map Slot.type) remakes.same).symm

theorem checkHalfEnds {vs} (present : ∀ v ∈ vs, ∃ w, v = some w) : Ends (fun _ e => d = e) (checkHalf s vs) d := by
  induction vs with
  | nil => exact .done rfl rfl
  | cons v vs ih =>
    obtain ⟨⟨w,rfl⟩,later⟩ := forall_mem_cons.mp present
    exact .next (typeOfRun w) (.check fun _ => ih later)

def groupedOps (n : Nat) (b : Value) (l : Layout) (t : ValueType) : List Operation :=
  [emptyOp t, convertOp packKind (some b) (some (.result n 0)) t l .kept]

def groupedMatmul (n : Nat) (a c : Value) (t : ValueType) : Operation :=
  ⟨Primitive.vnniMatmulKind,[some a, some (.result (n + 1) 0), some c],(if t.isTensor then [t] else []).map Slot.ofType,
    OrderedMap.empty,none,none⟩

theorem groupedMatmulRun {n a c} {d : Draft} : Primitive.make Primitive.vnniMatmulKind
    [some a, some (.result (n + 1) 0)] (some c) d = .ok d.graph.ops.size
      { d with graph := d.graph.push (groupedMatmul n a c (d.graph.typeOf c)) } := by
  rw [Primitive.make,Step.bindOfOk (typeOfRun c),makeRun]
  rfl

theorem groupedRemakes {id : OpId} {home : BlockId} {a b c : Value} {l : Layout} {t : ValueType} {d : Draft}
    (tidy : Tidy K g) (bodied : Bodied K g) (known : K id) (block : (g.op id).block = some home)
    (shape : Contracts K g id a b c) (packed : PackedAs l (g.typeOf b) t)
    (types : (groupedMatmul g.ops.size a c (g.typeOf c)).results.map Slot.type = (g.op id).results.map Slot.type)
    (draft : d = { Draft.staged g (groupedOps g.ops.size b l t ++ [groupedMatmul g.ops.size a c (g.typeOf c)]) with
      replacements := [(id, ((g.pushAll (groupedOps g.ops.size b l t ++ [groupedMatmul g.ops.size a c
        (g.typeOf c)])).resultsOf (g.ops.size + 2)).map some)] }) :
    ∃ moved vals, Remakes K g id moved vals d := by
  let ops := groupedOps g.ops.size b l t ++ [groupedMatmul g.ops.size a c (g.typeOf c)]
  obtain ⟨empty,pack,heldP,typeP⟩ := packProper tidy ops (m := 0) (shape.held b (by simp)) packed rfl rfl
  obtain ⟨heldA,typeA⟩ := heldPushed ops (shape.held a (by simp))
  obtain ⟨heldC,typeC⟩ := heldPushed ops (shape.held c (by simp))
  have last := g.pushAllNew ops (m := 2) rfl
  have matmul : (g.pushAll ops).Proper K (g.ops.size + 2) := by
    refine .ofPrimitive (typeC.symm ▸ last) (forall_mem_cons.mpr ⟨⟨heldA,?_⟩,forall_mem_cons.mpr ⟨⟨heldP,?_⟩,
      forall_mem_singleton.mpr ⟨heldC,?_⟩⟩⟩)
    · exact typeA.symm ▸ shape.flat a (by simp)
    · exact typeP.symm ▸ flatTensor packed.blockedTensor.1
    · exact typeC.symm ▸ shape.flat c (by simp)
  refine ⟨none,_,remakesOfPushed tidy bodied (blockInside block) (tidy.nonempty known block) (fun m lt => ?_) ?_ ?_ ?_ nofun
    draft⟩
  · match m, lt with
    | 0, _ => exact empty
    | 1, _ => exact pack
    | 2, _ => exact matmul
  · simp only [groupedOps,groupedMatmul,cons_append,nil_append,forall_mem_cons,convertOp,emptyOp]
    decide
  · intro v mem
    obtain ⟨i,inside,rfl⟩ := mem_map.mp mem
    exact ⟨tidy.later _ (Nat.le_add_right ..),mem_range.mp inside⟩
  · refine (Graph.resultTypes (g.pushAll ops) _).trans ?_
    rw [last,types]

theorem checkPlanesEnds {vs} (present : ∀ v ∈ vs, ∃ w, v = some w) :
    Ends (fun _ e => d = e ∧ ∀ w, some w ∈ vs → (d.graph.typeOf w).rank = 2) (checkPlanes s vs) d := by
  induction vs with
  | nil => exact .done rfl ⟨rfl,nofun⟩
  | cons v vs ih =>
    obtain ⟨⟨w,rfl⟩,later⟩ := forall_mem_cons.mp present
    refine .next (typeOfRun w) (.check fun plane => .mono (ih later) ?_)
    rintro _ _ ⟨rfl,planes⟩
    refine ⟨rfl,fun u mem => ?_⟩
    rcases mem_cons.mp mem with same | mem
    · cases same
      exact not_not.mp plane
    · exact planes u mem

theorem newMatmulRemakes {id home a b c d} (tidy : Tidy K g) (bodied : Bodied K g) (known : K id)
    (block : (g.op id).block = some home) (held : ∀ v ∈ [a, b, c], v.Held K g)
    (flat : ∀ v ∈ [a, b, c], (g.typeOf v).Flat) (planes : ∀ v ∈ [a, b, c], (g.typeOf v).rank = 2)
    (results : (g.op id).results.map Slot.type = g.tensorTypes [some c]) {h : Graph}
    (made : h = withMulAdd g (g.typeOf a) (g.typeOf b) (g.typeOf c)
      (madeOp matmulKind [some a, some b] [some c] [g.typeOf c] OrderedMap.empty))
    (draft : d = { Draft.ofGraph g with graph := h, created := [g.ops.size + 3], replacements :=
      [(id, (h.resultsOf (g.ops.size + 3)).map some)] }) :
    Remakes K g id none (h.resultsOf (g.ops.size + 3)) d := by
  have size : h.ops.size = g.ops.size + 4 := made ▸ withMulAddSize ..
  have blocks : h.blocks.size = g.blocks.size + 1 := made ▸ withMulAddBlocks ..
  have old (k : OpId) (lt : k < g.ops.size) : h.op k = g.op k := by
    rw [made,withMulAddInner _ _ _ _ _ (Nat.lt_add_right 3 lt),bodiedOld _ _ _ _ lt]
  have oldBlock (c : BlockId) (lt : c < g.blocks.size) : h.block c = g.block c := made ▸ withMulAddOldBlock _ _ _ _ _ lt
  have last := made ▸ withMulAddLast g (g.typeOf a) (g.typeOf b) (g.typeOf c)
    (madeOp matmulKind [some a, some b] [some c] [g.typeOf c] OrderedMap.empty)
  have body := made ▸ withMulAddBlock g (g.typeOf a) (g.typeOf b) (g.typeOf c)
    (madeOp matmulKind [some a, some b] [some c] [g.typeOf c] OrderedMap.empty)
  have inner (m : Nat) (o : Operation) (at_ : (mulAddOps g.blocks.size g.ops.size (elementOf (g.typeOf a))
      (elementOf (g.typeOf c)))[m]? = some o) : h.op (g.ops.size + m) = { o with block := some g.blocks.size } := by
    have lt : m < 3 := (List.getElem?_eq_some_iff.mp at_).1
    rw [made,withMulAddInner _ _ _ _ _ (Nat.add_lt_add_left lt _),bodiedNew _ _ _ _ at_]
  clear made
  have within := blockInside block
  have kept {v : Value} (mem : v ∈ [a, b, c]) : v.Held K h ∧ h.typeOf v = g.typeOf v := Tidy.heldGrown old oldBlock (held v mem)
  have bodyProper {m : Nat} (lt : m < 3) : h.Proper K (g.ops.size + m) ∧ (h.op (g.ops.size + m)).kind ∈ plainKinds :=
    mulAddProper tidy.later (by rw [body]) (by rw [body]) inner (forall_mem_map.mpr flat) lt
  have matmul : h.Proper K (g.ops.size + 3) := by
    have typeC := (kept (v := c) (by simp)).2
    refine ⟨.ofMade (by simp) (typeC.symm ▸ last) fun r region => ?_,fun v mem => ?_,fun _ w mem => ?_,fun marked => ?_,
      fun r region => ?_,fun r home => ?_⟩
    · cases region
      rw [body]
      rfl
    · rw [last] at mem
      obtain ⟨w,among,rfl⟩ := mem_map.mp (show v ∈ [a, b, c].map some from mem)
      obtain ⟨holds,type⟩ := kept among
      exact ⟨w,rfl,holds,type.symm ▸ flat w among⟩
    · rw [last] at mem
      obtain ⟨_,among,⟨⟩⟩ := mem_map.mp (show some w ∈ [a, b, c].map some from mem)
      rw [(kept among).2,planes w among]
      decide
    · rw [unmarkedOfKind (by rw [last]; exact (by decide : matmulKind ≠ genericKind))] at marked
      cases marked
    · rw [last] at region
      cases region
      refine ⟨by rw [blocks]; exact Nat.lt_succ_self _,fun i mem => tidy.later i ?_⟩
      rw [body] at mem
      exact (mem_range'_1.mp (show i ∈ range' g.ops.size 3 from mem)).1
    · rw [last] at home
      cases home
  have cases {k : OpId} (beyond : g.ops.size ≤ k) (inside : k < h.ops.size) :
      k = g.ops.size + 3 ∨ ∃ m < 3, k = g.ops.size + m := by
    obtain ⟨m,rfl⟩ := Nat.exists_eq_add_of_le beyond
    rw [size] at inside
    rcases Nat.lt_succ_iff_lt_or_eq.mp (Nat.lt_of_add_lt_add_left inside) with lt | rfl
    · exact .inr ⟨m,lt,rfl⟩
    · exact .inl rfl
  have tidy' : Tidy K h := by
    refine tidy.grown (by rw [size]; exact Nat.le_add_right ..) (by rw [blocks]; exact Nat.le_add_right ..) old oldBlock
      (tidy.nonempty known block) fun k beyond inside => ?_
    rcases cases beyond inside with rfl | ⟨m,lt,rfl⟩
    · exact matmul
    · exact (bodyProper lt).1
  have bodied' (k : OpId) (holds : K k) (inside : k < h.ops.size) (kind : (h.op k).kind ∈ kinds)
      (stands : k ∈ [g.ops.size + 3] ∨ (h.op k).block.isSome = true) : (h.op k).region.isSome = true := by
    by_cases before : k < g.ops.size
    · rw [old k before] at kind stands ⊢
      refine bodied k holds before kind (stands.resolve_left fun mem => ?_)
      exact absurd before (Nat.not_lt.mpr (mem_singleton.mp mem ▸ Nat.le_add_right ..))
    · rcases cases (Nat.le_of_not_lt before) inside with rfl | ⟨m,lt,rfl⟩
      · rw [last]
        rfl
      · have table : ∀ kind ∈ plainKinds, kind ∉ kinds := by decide
        exact absurd kind (table _ (bodyProper lt).2)
  subst draft
  refine ⟨tidy',bodied',old id within,fun k mem => ?_,fun v mem => ?_,?_,nofun,rfl,rfl,rfl⟩
  · rw [mem_singleton.mp mem]
    refine ⟨tidy.later _ (Nat.le_add_right ..),fun same => ?_,?_⟩
    · exact absurd within (Nat.not_lt.mpr (same ▸ Nat.le_add_right ..))
    · exact size.symm ▸ Nat.lt_succ_self _
  · obtain ⟨i,inside,rfl⟩ := mem_map.mp mem
    exact ⟨tidy.later _ (Nat.le_add_right ..),mem_range.mp inside⟩
  · refine (Graph.resultTypes h _).trans ?_
    rw [last,results,madeOp,slotTypes]
    rfl

theorem newMatmulEnds {home a b c} (tidy : Tidy K g) (bodied : Bodied K g) (known : K s.op)
    (block : (g.op s.op).block = some home) (held : ∀ v ∈ [a, b, c], v.Held K g)
    (flat : ∀ v ∈ [a, b, c], (g.typeOf v).Flat) (planes : ∀ v ∈ [a, b, c], (g.typeOf v).rank = 2)
    (results : (g.op s.op).results.map Slot.type = g.tensorTypes [some c]) :
    Ends (fun _ d => ∃ moved vals, Remakes K g s.op moved vals d) (do
      let new ← Structured.matmul (some a) (some b) (some c)
      Draft.replace s.op (((← Drafting.graph).resultsOf new).map some)) (.ofGraph g) := by
  have typeC : (Structured.bodied g (g.typeOf a) (g.typeOf b) (g.typeOf c)).typeOf c = g.typeOf c :=
    (Tidy.heldGrown (fun _ old => bodiedOld _ _ _ _ old) (fun _ old => bodiedOldBlock _ _ _ _ old) (held c (by simp))).2
  have single (h : Graph) : h.operandTypes [some c] = .ok [h.typeOf c] := rfl
  have out : (Structured.bodied g (g.typeOf a) (g.typeOf b) (g.typeOf c)).operandTypes [some c] = .ok [g.typeOf c] := by
    rw [single,typeC]
  have ran := contractionRun (d := .ofGraph g) matmulKind OrderedMap.empty (a := some a) (b := some b) rfl out
  generalize made : withMulAdd (Draft.ofGraph g).graph (g.typeOf a) (g.typeOf b) (g.typeOf c)
    (madeOp matmulKind [some a, some b] [some c] [g.typeOf c] OrderedMap.empty) = h at ran
  have remakes := newMatmulRemakes tidy bodied known block held flat planes results made.symm rfl
  have types : (h.resultsOf (g.ops.size + 3)).map h.typeOf = (h.op s.op).results.map Slot.type := by
    rw [show h.op s.op = g.op s.op from remakes.same]
    exact remakes.types
  have replaced := Draft.replaceRun (d := { Draft.ofGraph g with graph := h, created := [g.ops.size + 3] }) _ types
  refine .next ran (.next Drafting.graphRun ?_)
  exact .done replaced ⟨_,_,remakes⟩

section Rules

variable {home : BlockId} {a b c : Value} {tiles : List Int64} (tidy : Tidy K g) (bodied : Bodied K g) (known : K s.op)
  (block : (g.op s.op).block = some home) (region : (g.op s.op).region.isSome = true) (shape : Contracts K g s.op a b c)

include tidy bodied known block region shape

omit tidy bodied known block region in
theorem operandsEnd : Ends (fun _ e => .ofGraph g = e ∧ ∀ v ∈ [a, b, c], (g.typeOf v).isBuffer = false) (checkOperands s)
    (.ofGraph g) := by
  have operands : ((Draft.ofGraph g).graph.op s.op).operands = [a, b, c].map some := shape.operands
  refine (checkOperandsEnds fun v mem => ?_).mono fun _ e => And.imp_right fun plain v mem => ?_
  · rw [operands] at mem
    obtain ⟨w,-,rfl⟩ := mem_map.mp mem
    exact ⟨w,rfl⟩
  · exact plain v (by rw [operands]; exact mem_map_of_mem mem)

theorem matmulEnds :
    Ends (fun _ d => ∃ moved vals, Remakes K g s.op moved vals d) ((matmul tiles).draft s) (.ofGraph g) := by
  refine .bind checkTilesEnds ?_
  rintro _ _ ⟨rfl,length⟩
  obtain ⟨ti,tj,tk,rfl⟩ := length_eq_three.mp length
  refine .bind (operandsEnd shape) ?_
  rintro _ _ ⟨rfl,plain⟩
  exact blockWithEnds tidy bodied known block region shape plain (by simp [Layout.ncnc,Layout.kcck])

theorem blockConvEnds {image output filter} (tiled : ∀ t u, ∀ l ∈ [image t, filter t u, output u], l.inner ≠ []) :
    Ends (fun _ d => ∃ moved vals, Remakes K g s.op moved vals d) (blockConv s tiles image filter output) (.ofGraph g) := by
  refine .bind checkTilesEnds ?_
  rintro _ _ ⟨rfl,length⟩
  obtain ⟨t,u,rfl⟩ := length_eq_two.mp length
  refine .bind (operandsEnd shape) ?_
  rintro _ _ ⟨rfl,plain⟩
  refine .next Drafting.graphRun (.check fun _ => ?_)
  dsimp only
  split
  · rename_i same
    cases same
    exact blockWithEnds tidy bodied known block region shape plain (tiled t u)
  · exact .declined

omit region in
theorem vnniMatmulEnds :
    Ends (fun _ d => ∃ moved vals, Remakes K g s.op moved vals d) ((vnniMatmul tiles).draft s) (.ofGraph g) := by
  unfold vnniMatmul
  dsimp only
  refine .bind checkTilesEnds ?_
  rintro _ _ ⟨rfl,length⟩
  refine .bind (operandsEnd shape) ?_
  rintro _ _ ⟨rfl,plain⟩
  refine .next (operandsAtOk.mpr ⟨⟨shape.inputs,shape.outputs⟩,rfl⟩) ?_
  dsimp only
  refine .next Drafting.graphRun ?_
  refine .bind (checkHalfEnds fun v mem => ?_) ?_
  · rw [show ((Draft.ofGraph g).graph.op s.op).operands = [a, b, c].map some from shape.operands] at mem
    obtain ⟨w,-,rfl⟩ := mem_map.mp mem
    exact ⟨w,rfl⟩
  rintro _ _ rfl
  refine .next (nthOk.mpr ⟨rfl,rfl⟩) ?_
  refine .bind (checkDividesEnds fun p mem => ?_) ?_
  · rw [mem_singleton.mp mem]
    exact ⟨b,rfl,shape.small b (by simp)⟩
  rintro _ _ ⟨rfl,divides⟩
  obtain ⟨t,packed⟩ := (divides _ (mem_singleton.mpr rfl)).packed (cons_ne_nil _ _) (shape.flat b (by simp))
    (plain b (by simp))
  have within := blockInside block
  have belowC := heldBelow (shape.held c (by simp))
  have packs : packAll s [⟨some b,.vnni (tiles.headD 0)⟩] (.ofGraph g) = .ok [some (.result (g.ops.size + 1) 0)]
      (.staged g (groupedOps g.ops.size b (.vnni (tiles.headD 0)) t)) := by
    rw [← Draft.stagedNil]
    exact packAllCons (heldBelow (shape.held b (by simp))) packed rfl
  have types : (groupedMatmul g.ops.size a c (g.typeOf c)).results.map Slot.type = (g.op s.op).results.map Slot.type := by
    rw [shape.results,groupedMatmul,slotTypes,tensorTypes]
    simp [filter_cons]
  have remakes := groupedRemakes (d := _) tidy bodied known block shape packed types rfl
  have replaced := Draft.replaceWithNewRun (groupedOps g.ops.size b (.vnni (tiles.headD 0)) t) within types
  rw [show (groupedOps g.ops.size b (.vnni (tiles.headD 0)) t).length = 2 from rfl] at replaced
  have size : (Draft.staged g (groupedOps g.ops.size b (.vnni (tiles.headD 0)) t)).graph.ops.size = g.ops.size + 2 :=
    g.pushAllSize _
  generalize groupedOps g.ops.size b (.vnni (tiles.headD 0)) t = ops at packs remakes replaced size
  have typeC : (Draft.staged g ops).graph.typeOf c = g.typeOf c := g.pushAllType ops belowC
  refine .next packs ?_
  dsimp only
  refine .next (nthOk.mpr ⟨rfl,rfl⟩) ?_
  refine .next (nthOk.mpr ⟨rfl,rfl⟩) ?_
  refine .next groupedMatmulRun ?_
  rw [typeC,size]
  exact .done replaced remakes

omit region shape in
theorem degeneralizeMatmulEnds (generic : (g.op s.op).kind = genericKind) :
    Ends (fun _ d => ∃ moved vals, Remakes K g s.op moved vals d) (degeneralizeMatmul.draft s) (.ofGraph g) := by
  obtain ⟨built,operands,-,printable,-⟩ := tidy.proper s.op known (blockInside block)
  have present (v : Operand) (mem : v ∈ (g.op s.op).operands) : ∃ w, v = some w := by
    obtain ⟨w,same,-⟩ := operands v mem
    exact ⟨w,same⟩
  obtain ⟨n,le,-,inputs,outputs,results⟩ := built.parts (by rw [isStructured,generic]; decide)
  unfold degeneralizeMatmul
  dsimp only
  refine .bind (ToPrimitive.askEnds (allTypesYields present)) ?_
  rintro _ _ ⟨rfl,-⟩
  refine .check fun _ => ?_
  refine .bind (Q := fun _ e => .ofGraph g = e ∧ Body.isMarkedWith (g.op s.op) Primitive.matmulKind = true)
    (.next Drafting.graphRun (.guard fun marked => ⟨rfl,not_not.mp marked⟩)) ?_
  rintro _ _ ⟨rfl,marked⟩
  refine .bind (Q := fun _ e => .ofGraph g = e) ?_ ?_
  · refine .bind (ToPrimitive.askEnds (tidy.steady.hasMatmulBody known)) ?_
    rintro _ _ ⟨rfl,-⟩
    refine .check fun _ => .bind (ToPrimitive.askEnds (Body.hasMatmulMapsYields (printable marked))) ?_
    rintro _ _ ⟨rfl,-⟩
    exact .guard fun _ => rfl
  rintro _ _ rfl
  refine .bind (Q := fun abc e => .ofGraph g = e ∧ (g.op s.op).operands = [abc.1, abc.2.1, abc.2.2] ∧
    (g.op s.op).operands.drop n = [abc.2.2]) ?_ ?_
  · refine .next (operandsAtOk.mpr ⟨⟨inputs,outputs⟩,rfl⟩) ?_
    split
    · rename_i x y z parts
      obtain ⟨left,right⟩ := Prod.mk.inj parts
      refine .done rfl ⟨rfl,?_,right⟩
      rw [← take_append_drop n (g.op s.op).operands,left,right]
      rfl
    · exact .declined
  rintro ⟨x,y,z⟩ _ ⟨rfl,same,out⟩
  dsimp only at same out ⊢
  refine .next Drafting.graphRun (.bind (checkPlanesEnds present) ?_)
  rintro _ _ ⟨rfl,planes⟩
  change ∀ w, some w ∈ (g.op s.op).operands → (g.typeOf w).rank = 2 at planes
  rw [out] at results
  rw [same] at operands planes
  obtain ⟨a,rfl,heldA,flatA⟩ := operands x (by simp)
  obtain ⟨b,rfl,heldB,flatB⟩ := operands y (by simp)
  obtain ⟨c,rfl,heldC,flatC⟩ := operands z (by simp)
  have all : ∀ v ∈ [a, b, c], v.Held K g ∧ (g.typeOf v).Flat :=
    forall_mem_cons.mpr ⟨⟨heldA,flatA⟩,forall_mem_cons.mpr ⟨⟨heldB,flatB⟩,
      forall_mem_singleton.mpr ⟨heldC,flatC⟩⟩⟩
  exact newMatmulEnds tidy bodied known block (fun v mem => (all v mem).1) (fun v mem => (all v mem).2)
    (fun v mem => planes v (mem_map_of_mem (f := some) mem)) results

end Rules

end Blocking

namespace Graph

variable {g : Graph}

theorem tidyOfVerify (ok : g.verify = .ok ()) (built : ∀ j ∈ g.walkAll, g.Built j)
    (types : ∀ j ∈ g.walkAll, ∀ w, some w ∈ (g.op j).operands → (g.typeOf w).Flat ∧ (g.typeOf w).rank < wordBound)
    (printable : ∀ j ∈ g.walkAll, isMarkedWith (g.op j) Primitive.matmulKind = true →
      ∀ m ∈ Structured.indexingMaps (g.op j), m.Printable) : Tidy (ToPrimitive.WalkedOrNew g) g := by
  refine ⟨fun i mem => .inl (mem_flatMap.mpr ⟨i,mem,.head _⟩),fun k => .inr,fun k kept inside => ?_⟩
  have mem : k ∈ g.walkAll := kept.resolve_right (Nat.not_le_of_lt inside)
  obtain ⟨⟨c,block,listed⟩,inner⟩ := walkListed ok mem
  refine ⟨built k mem,fun v used => ?_,fun _ w used => (types k mem w used).2,printable k mem,fun b region => ⟨?_,?_⟩,
    fun b home => ?_⟩
  · obtain ⟨w,rfl,defined⟩ := operandsDefined ok mem v used
    refine ⟨w,rfl,?_,(types k mem w used).1⟩
    cases w with
    | result i m => exact ⟨.inl defined.1,defined.2⟩
    | argument b m => exact defined
  · by_contra outside
    have owner := walkOwned ok mem region
    rw [blockOutside outside] at owner
    cases owner
  · exact fun i mem' => .inl (inner b region i mem')
  · cases block.symm.trans home
    exact listed

end Graph

namespace Blocking

open TileLower.Graph

variable {K : OpId → Prop} {g : Graph}

def Listed (r : Rule) : Prop :=
  r = degeneralizeMatmul ∨ ∃ tiles, r ∈ [vnniMatmul tiles, matmul tiles, convNchwFchw tiles, convNhwcHwcf tiles]

theorem eraseBodied (bodied : Bodied K g) (b : BlockId) (id : OpId) : Bodied K (g.erase b id) := by
  intro k known inside kind stands
  rw [eraseSize] at inside
  by_cases other : k = id
  · subst other
    by_cases mem : k ∈ (g.block b).ops
    · rw [eraseHere _ _ _ mem] at stands
      cases stands
    · rw [erase,if_neg fun holds => mem (contains_iff_mem.mp holds)] at kind stands ⊢
      exact bodied k known inside kind stands
  · rw [eraseOther _ _ _ other] at kind stands ⊢
    exact bodied k known inside kind stands

theorem rulesEnd {id home} {r : Rule} (listed : Listed r) (tidy : Tidy K g) (bodied : Bodied K g) (known : K id)
    (block : (g.op id).block = some home) (tried : Greedy.Tried r g id) :
    Drafting.Ends (fun _ d => ∃ moved vals, Remakes K g id moved vals d) (r.draft ⟨r.name,id⟩) (.ofGraph g) := by
  have inside := blockInside block
  have blocked (kind : String) (among : kind ∈ kinds) (same : kind = "" ∨ kind = (g.op id).kind) :
      (g.op id).region.isSome = true ∧ ∃ a b c, Contracts K g id a b c := by
    have table : ∀ kind ∈ kinds, kind ≠ "" := by decide
    have here : (g.op id).kind ∈ kinds := same.resolve_left (table kind among) ▸ among
    exact ⟨bodied id known inside here (by rw [block]; rfl),contracts tidy known inside here⟩
  rcases listed with rfl | ⟨tiles,among⟩
  · have generic : Structured.genericKind = (g.op id).kind := Or.resolve_left tried (by decide)
    exact degeneralizeMatmulEnds (s := ⟨_,id⟩) tidy bodied known block generic.symm
  · simp only [mem_cons,not_mem_nil,or_false] at among
    rcases among with rfl | rfl | rfl | rfl
    · obtain ⟨-,a,b,c,shape⟩ := blocked Structured.matmulKind (by decide) tried
      exact vnniMatmulEnds (s := ⟨_,id⟩) tidy bodied known block shape
    · obtain ⟨region,a,b,c,shape⟩ := blocked Structured.matmulKind (by decide) tried
      exact matmulEnds (s := ⟨_,id⟩) tidy bodied known block region shape
    · obtain ⟨region,a,b,c,shape⟩ := blocked Structured.convNchwFchwKind (by decide) tried
      exact blockConvEnds (s := ⟨_,id⟩) tidy bodied known block region shape (by simp [Layout.nchwc,Layout.kcrsck])
    · obtain ⟨region,a,b,c,shape⟩ := blocked Structured.convNhwcHwcfKind (by decide) tried
      exact blockConvEnds (s := ⟨_,id⟩) tidy bodied known block region shape (by simp [Layout.nkpqk,Layout.rsckToKcrsck])

open Greedy in
/-- Blocking goes through a function of made operations, if the maps of its marked operations can be printed. -/
theorem blocksOrDeclines {σ : Type} {rules : List Rule} (listed : ∀ r ∈ rules, Listed r) (ok : g.verify = .ok ())
    (built : ∀ j ∈ g.walkAll, g.Built j)
    (bodies : ∀ j ∈ g.walkAll, (g.op j).kind ∈ kinds → (g.op j).region.isSome = true)
    (types : ∀ j ∈ g.walkAll, ∀ w, some w ∈ (g.op j).operands → (g.typeOf w).Flat ∧ (g.typeOf w).rank < wordBound)
    (printable : ∀ j ∈ g.walkAll, Body.isMarkedWith (g.op j) Primitive.matmulKind = true →
      ∀ m ∈ Structured.indexingMaps (g.op j), m.Printable) (o : Options) (s : σ) :
    (apply (rules.map Pattern.ofRule) o g s).fault = none := by
  let K := ToPrimitive.WalkedOrNew g
  have tidy : Tidy K g := tidyOfVerify ok built types printable
  have bodied : Bodied K g := fun k kept inside kind _ =>
    bodies k (kept.resolve_right (Nat.not_le_of_lt inside)) kind
  refine (applyGoes (J := fun h => Tidy K h ∧ Bodied K h) (fun h holds id mem p going inOrder alive => ?_)
    (fun h holds => ?_) ⟨tidy,bodied⟩ o s).1
  · obtain ⟨home,block⟩ := Option.isSome_iff_exists.mp alive
    have known : K id := holds.1.steady.walked mem
    refine attemptGoes (J := fun h => Tidy K h ∧ Bodied K h) going inOrder fun r among tried => ?_
    refine (rulesEnd (listed r among) inOrder.1 inOrder.2 known block tried).mono ?_
    rintro _ d ⟨moved,vals,remakes⟩
    exact remakes.commit block known
  · refine DeadCode.eliminateKeeps (J := fun h => Tidy K h ∧ Bodied K h) (fun h id _ holds => ?_) holds
    unfold DeadCode.takeOut
    split
    · exact ⟨holds.1.erase _ _,eraseBodied holds.2 _ _⟩
    · exact holds

def markedProduct (maps : List AffineMap) : Graph where
  name := "main"
  ops := #[⟨Structured.genericKind,[some (.argument 0 0), some (.argument 0 1), some (.argument 0 2)],
      [.ofType (.tensor .bf16 [2, 2])],
      (Structured.genericAttrs maps Structured.matmulIterators Primitive.matmulKind).store Structured.numInputsAttr (.int 2),
      some 1,some 0⟩,
    ⟨mulFloatKind,[some (.argument 1 0), some (.argument 1 1)],[.ofType (.scalar .bf16)],OrderedMap.empty,none,some 1⟩,
    ⟨addFloatKind,[some (.argument 1 2), some (.result 1 0)],[.ofType (.scalar .bf16)],OrderedMap.empty,none,some 1⟩,
    ⟨Structured.yieldKind,[some (.result 2 0)],[],OrderedMap.empty,none,some 1⟩,
    ⟨"func.return",[some (.result 0 0)],[],OrderedMap.empty,none,some 0⟩]
  blocks := #[⟨replicate 3 (.ofType (.tensor .bf16 [2, 2])),[0, 4],none⟩,
    ⟨replicate 3 (.ofType (.scalar .bf16)),[1, 2, 3],some 0⟩]

theorem blocksOrDeclinesMarked :
    (markedProduct Structured.matmulMaps).verify = .ok () ∧
    (∀ j ∈ (markedProduct Structured.matmulMaps).walkAll, (markedProduct Structured.matmulMaps).Built j) ∧
    (Greedy.apply ([degeneralizeMatmul, convNchwFchw [0], matmul [2, 1, 1], vnniMatmul [2]].map Greedy.Pattern.ofRule)
      ⟨10, true⟩ (markedProduct Structured.matmulMaps) ()).fault = none := by
  have ok : (markedProduct Structured.matmulMaps).verify = .ok () := by decide +kernel
  have built : ∀ j ∈ (markedProduct Structured.matmulMaps).walkAll, (markedProduct Structured.matmulMaps).Built j := by
    decide +kernel
  have typed : ∀ j ∈ (markedProduct Structured.matmulMaps).walkAll,
      ∀ v ∈ ((markedProduct Structured.matmulMaps).op j).operands, ∀ w ∈ v,
        ((markedProduct Structured.matmulMaps).typeOf w).Flat ∧
          ((markedProduct Structured.matmulMaps).typeOf w).rank < wordBound := by decide +kernel
  have printed : ∀ m ∈ Structured.matmulMaps, m.Printable :=
    fun m mem => ⟨by revert m; decide,by revert m; decide⟩
  have listed : ∀ r ∈ [degeneralizeMatmul, convNchwFchw [0], matmul [2, 1, 1], vnniMatmul [2]], Listed r := by
    simp only [List.forall_mem_cons]
    exact ⟨.inl rfl,.inr ⟨[0],by simp⟩,.inr ⟨[2, 1, 1],by simp⟩,.inr ⟨[2],by simp⟩,nofun⟩
  have maps : ∀ j ∈ (markedProduct Structured.matmulMaps).walkAll,
      Structured.indexingMaps ((markedProduct Structured.matmulMaps).op j) = Structured.matmulMaps ∨
        Structured.indexingMaps ((markedProduct Structured.matmulMaps).op j) = [] := by decide +kernel
  refine ⟨ok,built,blocksOrDeclines listed ok built (by decide +kernel) (fun j mem w used => typed j mem _ used w rfl)
    (fun j mem _ m among => ?_) ⟨10,true⟩ ()⟩
  rcases maps j mem with same | same
  · exact printed m (same ▸ among)
  · rw [same] at among
    cases among

theorem blockingStopsAtMaps : (markedProduct [⟨-1, []⟩, ⟨-1, []⟩, ⟨-1, []⟩]).verify = .ok () ∧
    (∀ j ∈ (markedProduct [⟨-1, []⟩, ⟨-1, []⟩, ⟨-1, []⟩]).walkAll,
      (markedProduct [⟨-1, []⟩, ⟨-1, []⟩, ⟨-1, []⟩]).Built j) ∧
    (Greedy.apply ([degeneralizeMatmul].map Greedy.Pattern.ofRule) ⟨10, true⟩
      (markedProduct [⟨-1, []⟩, ⟨-1, []⟩, ⟨-1, []⟩]) ()).fault.isSome = true := by
  refine ⟨by decide +kernel,by decide +kernel,by decide +kernel⟩

end Blocking

end TileLower

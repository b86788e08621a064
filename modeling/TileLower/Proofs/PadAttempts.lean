import TileLower.Proofs.Lowerings
import TileLower.Proofs.Paddings
import TileLower.Proofs.Signatures

/-!
Pads that are moved, or not. A pad of an unpacked tensor moves before its unpack as soon as no tiled axis is padded,
except where a tile does not divide its extent: there the attempt stops.
-/
namespace TileLower

open Step List

namespace Memory

theorem paddedDimsLength {dims low high : List Int64} (lengthLow : low.length = dims.length)
    (lengthHigh : high.length = dims.length) : (paddedDims dims low high).length = dims.length := by
  induction dims generalizing low high with
  | nil => rfl
  | cons d dims ih =>
    match low, high, lengthLow, lengthHigh with
    | l :: low, h :: high, lengthLow, lengthHigh =>
      rw [paddedDims,length_cons,ih (Nat.succ.inj lengthLow) (Nat.succ.inj lengthHigh),length_cons]

theorem paddedDimsAt {dims low high : List Int64} {a : Nat} {d l h : Int64} (extent : dims[a]? = some d)
    (below : low[a]? = some l) (above : high[a]? = some h) :
    (paddedDims dims low high)[a]? = some (if d = ValueType.dynamicSize then d else d + (l + h)) := by
  induction a generalizing dims low high with
  | zero =>
    match dims, low, high, extent, below, above with
    | _ :: _, _ :: _, _ :: _, rfl, rfl, rfl => rfl
  | succ a ih =>
    match dims, low, high with
    | _ :: dims, _ :: low, _ :: high => exact ih extent below above

theorem paddedDimsAppend {dims low high dims' low' high' : List Int64} (lengthLow : low.length = dims.length)
    (lengthHigh : high.length = dims.length) :
    paddedDims (dims ++ dims') (low ++ low') (high ++ high') = paddedDims dims low high ++ paddedDims dims' low' high' := by
  induction dims generalizing low high with
  | nil =>
    match low, high, lengthLow, lengthHigh with
    | [], [], _, _ => rfl
  | cons d dims ih =>
    match low, high, lengthLow, lengthHigh with
    | l :: low, h :: high, lengthLow, lengthHigh =>
      simp only [cons_append,paddedDims,ih (Nat.succ.inj lengthLow) (Nat.succ.inj lengthHigh)]

theorem paddedDimsZeros (dims : List Int64) : paddedDims dims (dims.map fun _ => 0) (dims.map fun _ => 0) = dims := by
  induction dims with
  | nil => rfl
  | cons d dims ih =>
    rw [map_cons,paddedDims,ih]
    simp

theorem paddedDimsPicked {order : List Nat} {dims low high ds ls hs : List Int64}
    (extents : ds.map some = order.map (dims[·]?)) (below : ls.map some = order.map (low[·]?))
    (above : hs.map some = order.map (high[·]?)) :
    (paddedDims ds ls hs).map some = order.map ((paddedDims dims low high)[·]?) := by
  induction order generalizing ds ls hs with
  | nil =>
    rw [map_nil,map_eq_nil_iff] at extents
    rw [extents]
    rfl
  | cons a order ih =>
    match ds, ls, hs with
    | d :: ds, l :: ls, h :: hs =>
      simp only [map_cons,List.cons.injEq] at extents below above
      rw [paddedDims,map_cons,map_cons,paddedDimsAt extents.1.symm below.1.symm above.1.symm,
        ih extents.2 below.2 above.2]

theorem paddedAxesFound {k} {low high : List Int64} (length : low.length = high.length) :
    ∃ axes, paddedAxesFrom k low high = .ok axes ∧
      ∀ a l h, low[a]? = some l → high[a]? = some h → l ≠ 0 ∨ h ≠ 0 → k + a ∈ axes := by
  induction low generalizing k high with
  | nil => exact ⟨[],rfl,nofun⟩
  | cons x low ih =>
    match high, length with
    | y :: high, length =>
      obtain ⟨axes,found,listed⟩ := ih (k := k + 1) (Nat.succ.inj length)
      refine ⟨if x ≠ 0 ∨ y ≠ 0 then k :: axes else axes,?_,fun a l h below above padded => ?_⟩
      · rw [paddedAxesFrom,show (y :: high).drop 1 = high from rfl,found]
        by_cases zero : x = 0
        · simp [zero,Outcome.bindOfOk]
        · simp [zero,Outcome.bindOfOk]
      · cases a with
        | zero =>
          cases below
          cases above
          rw [if_pos padded]
          exact .head _
        | succ a =>
          have mem := listed a l h below above padded
          rw [Nat.add_right_comm] at mem
          split
          · exact .tail _ mem
          · exact mem

end Memory

namespace Layout

variable {d : Layout} {shape low high : List Int64}

section Untiled

variable (lengthLow : low.length = shape.length) (lengthHigh : high.length = shape.length)
  (untiled : ∀ a l h, low[a]? = some l → high[a]? = some h → l ≠ 0 ∨ h ≠ 0 → Int64.ofNat a ∉ d.inner)

include lengthLow lengthHigh untiled

omit untiled in
theorem paddedAt {a : Nat} (inside : a < shape.length) : ∃ l h, low[a]? = some l ∧ high[a]? = some h ∧
    (Memory.paddedDims shape low high)[a]? =
      some (if shape[a] = ValueType.dynamicSize then shape[a] else shape[a] + (l + h)) := by
  have below := getElem?_eq_getElem (lengthLow ▸ inside)
  have above := getElem?_eq_getElem (lengthHigh ▸ inside)
  exact ⟨_,_,below,above,Memory.paddedDimsAt (getElem?_eq_getElem inside) below above⟩

theorem outerExtentsPadded :
    d.outerExtents (Memory.paddedDims shape low high) = Memory.paddedDims (d.outerExtents shape) low high := by
  have length := Memory.paddedDimsLength lengthLow lengthHigh
  refine ext_getElem? fun a => ?_
  rw [outerExtents,getElem?_mapIdx]
  by_cases inside : a < shape.length
  · obtain ⟨l,h,below,above,extent⟩ := paddedAt lengthLow lengthHigh inside
    have outer : (d.outerExtents shape)[a]? = some (d.outerExtent a shape[a]) := by
      rw [outerExtents,getElem?_mapIdx,getElem?_eq_getElem inside]
      rfl
    rw [extent,Memory.paddedDimsAt outer below above,Option.map_some]
    congr 1
    by_cases padded : l ≠ 0 ∨ h ≠ 0
    · -- The axis is not tiled: its extent is the number of tiles.
      have free : d.tileOf? a = none := by
        have none : d.innerIndex? a = none := by
          refine findIdx?_eq_none_iff.mpr fun pos mem => beq_eq_false_iff_ne.mpr fun same => ?_
          exact untiled a l h below above padded (same ▸ mem)
        rw [tileOf?,none]
        rfl
      simp only [outerExtent,free]
    · obtain ⟨rfl,rfl⟩ : l = 0 ∧ h = 0 := by simpa using padded
      simp
  · have outside : (d.outerExtents shape).length ≤ a := by
      rw [outerExtents,length_mapIdx]
      omega
    rw [getElem?_eq_none (by omega),getElem?_eq_none]
    · rfl
    · rw [Memory.paddedDimsLength] <;> simp [outerExtents,lengthLow,lengthHigh,Nat.le_of_not_lt inside]

theorem packedShapePadded {blocked low' high'} (small : shape.length < wordBound)
    (ok : d.packedShape shape = .ok blocked) (moved : interchange low d.outer = .ok low')
    (moved' : interchange high d.outer = .ok high') :
    d.packedShape (Memory.paddedDims shape low high) = .ok (Memory.paddedDims blocked
      (low' ++ d.tiles.map fun _ => 0) (high' ++ d.tiles.map fun _ => 0)) := by
  have length := Memory.paddedDimsLength lengthLow lengthHigh
  obtain ⟨_,valid,ok⟩ := Outcome.bindOk.mp ok
  obtain ⟨outer,extents,made⟩ := Outcome.bindOk.mp ok
  cases made
  obtain ⟨T,describes⟩ := describedOfValid small valid
  have lengthOuter : (d.outerExtents shape).length = shape.length := by simp [outerExtents]
  have below := describes.interchangedAt small lengthLow moved
  have above := describes.interchangedAt small lengthHigh moved'
  have at_ := describes.interchangedAt small lengthOuter extents
  have lengthPadded : (Memory.paddedDims (d.outerExtents shape) low high).length = shape.length := by
    rw [Memory.paddedDimsLength (by rw [lengthOuter,lengthLow]) (by rw [lengthOuter,lengthHigh]),lengthOuter]
  obtain ⟨out,ran,same⟩ := describes.interchanges small lengthPadded
  have picked : out = Memory.paddedDims outer low' high' := by
    refine map_injective_iff.mpr (Option.some_injective _) ?_
    rw [same,Memory.paddedDimsPicked at_ below above]
  have count (xs ys : List Int64) (pick : xs.map some = T.order.map (ys[·]?)) : xs.length = shape.length := by
    have length := congrArg List.length pick
    rwa [length_map,length_map,T.orderLength] at length
  rw [packedShape,length,valid,Outcome.bindOfOk,outerExtentsPadded lengthLow lengthHigh untiled,ran,Outcome.bindOfOk,
    picked,Memory.paddedDimsAppend,Memory.paddedDimsZeros]
  · rw [count low' low below,count outer _ at_]
  · rw [count high' high above,count outer _ at_]

theorem cutsPadded : d.Cuts (Memory.paddedDims shape low high) ↔ d.Cuts shape := by
  have length := Memory.paddedDimsLength lengthLow lengthHigh
  have same (cut : Int64 × Int64) (mem : cut ∈ d.inner.zip d.tiles) :
      entryAt? (Memory.paddedDims shape low high) cut.1 = entryAt? shape cut.1 := by
    unfold entryAt?
    split
    · rfl
    · rename_i nonneg
      have axis := (Word.ofNonneg (Int64.not_lt.mp nonneg)).1
      generalize cut.1.toNatClampNeg = a at axis
      by_cases inside : a < shape.length
      · obtain ⟨l,h,below,above,extent⟩ := paddedAt lengthLow lengthHigh inside
        obtain ⟨rfl,rfl⟩ : l = 0 ∧ h = 0 := by
          by_contra padded
          exact untiled a l h below above (not_and_or.mp padded) (axis ▸ (of_mem_zip mem).1)
        rw [extent,getElem?_eq_getElem inside]
        simp
      · rw [getElem?_eq_none (by omega),getElem?_eq_none (by omega)]
  exact forall₂_congr fun cut mem => by rw [same cut mem]

end Untiled

end Layout

namespace Memory

structure Pads (g : Graph) (id : OpId) (x value : Value) : Prop where
  kind : (g.op id).kind = padKind
  operands : (g.op id).operands = [some x, some value]
  type : ∃ t, paddedType (g.typeOf x) (padLow (g.op id)) (padHigh (g.op id)) = .ok t ∧
    (g.op id).results.map Slot.type = [t]

end Memory

theorem withKindTensor {t : ValueType} (tensor : t.isTensor = true) : t.withKind .tensor = t := by
  obtain ⟨kind,_,_⟩ := t
  cases kind <;> first | rfl | cases tensor

namespace Relayout

/-- A conversion as it is made, between a flat value and one that has the shape that the layout gives to it. Extents may
be unknown, and tiles need not divide. -/
structure Matches (g : Graph) (id : OpId) (source dest flat blocked : Value) : Prop where
  operands : (g.op id).operands = [some source, some dest]
  results : (g.op id).results.map Slot.type = g.tensorTypes [some dest]
  rank : (g.typeOf flat).rank < wordBound
  shape : (layoutOf (g.op id)).packedShape (g.typeOf flat).dims = .ok (g.typeOf blocked).dims

end Relayout

namespace Draft

variable {g : Graph} {id : OpId}

theorem checkReplacementRun {i} {ss : List Slot} {ws : List Value} (types : ws.map g.typeOf = ss.map Slot.type) :
    checkReplacement g id i ss (ws.map some) = .ok () := by
  induction ss generalizing i ws with
  | nil =>
    rw [map_nil,map_eq_nil_iff] at types
    rw [types]
    rfl
  | cons s ss ih =>
    match ws, types with
    | w :: ws, types =>
      obtain ⟨here,later⟩ := List.cons.inj types
      rw [map_cons,checkReplacement,if_pos here]
      exact ih later

theorem replaceRun {d : Draft} (ws : List Value) (types : ws.map d.graph.typeOf = (d.graph.op id).results.map Slot.type) :
    replace id (ws.map some) d = .ok () { d with replacements := d.replacements ++ [(id, ws.map some)] } := by
  have length := congrArg List.length types
  rw [length_map,length_map] at length
  have can : canReplace d.graph id (ws.map some) = .ok () := by
    rw [canReplace,if_neg (by simp [length])]
    exact checkReplacementRun types
  rw [replace,bindOfOk Drafting.graphRun,bindOfOk (Drafting.liftOk.mpr ⟨can,rfl⟩)]
  rfl

end Draft

namespace Propagation

open Relayout Blocking Drafting

variable {g : Graph} {id : OpId}

/-- A pad of a tensor that was unpacked by a tile that does not divide its extent, or along an extent that is not known.
No tiled axis is padded. -/
def Overhangs (g : Graph) (id : OpId) : Prop :=
  ∃ j i w axes, (g.op id).operands[0]? = some (some (.result j i)) ∧ (g.op j).kind = unpackKind ∧
    (g.op j).operands[1]? = some (some w) ∧ Memory.paddedAxes (g.op id) = .ok axes ∧
    (∀ axis ∈ axes, Int64.ofNat axis ∉ (layoutOf (g.op j)).inner) ∧ ¬ (layoutOf (g.op j)).Cuts (g.typeOf w).dims

theorem blockedPaddingOf {l : Layout} {given : Option (List Int64)} {vec outer} (same : given.getD [] = vec)
    (moved : Layout.interchange vec l.outer = .ok outer) :
    ∃ padding, blockedPadding l given = .ok padding ∧ padding.getD [] = outer ++ l.tiles.map fun _ => 0 := by
  refine ⟨_,by rw [blockedPadding,same,moved]; rfl,?_⟩
  split
  · rename_i none
    exact (List.isEmpty_iff.mp (Bool.and_eq_true_iff.mp none).2).symm
  · rfl

theorem unpackOfResult {j i} (isUnpack : (g.op j).kind = unpackKind) :
    unpackOf? g (some (.result j i)) = .ok (some j) := by
  simp [unpackOf?,Graph.definingOp,Relayout.isUnpack,isUnpack]

theorem unpackOfOther {x} (other : ∀ j i, x = .result j i → (g.op j).kind ≠ unpackKind) :
    unpackOf? g (some x) = .ok none := by
  cases x with
  | argument b i => rfl
  | result j i => simp [unpackOf?,Graph.definingOp,Relayout.isUnpack,other j i rfl]

theorem askUnpack {x found} (operand : (g.op id).operands[0]? = some (some x))
    (producer : unpackOf? g (some x) = .ok found) :
    ask (fun g => do unpackOf? g (← g.operandAt id 0)) (.ofGraph g) = .ok found (.ofGraph g) := by
  refine askOk.mpr ⟨?_,rfl⟩
  rw [show (Draft.ofGraph g).graph = g from rfl,Graph.operandAtOk.mpr operand,Outcome.bindOfOk,producer]

theorem expectStops {β : Type} {s : Site} {m : Drafting β} {d e : Draft} {cause : Diagnostic}
    (fails : m d = .error (.error cause) e) (kind : cause.isDecline = false) : Stops (s.expect m) d := by
  rw [Stops,Site.expect,fails]
  exact ⟨_,_,rfl,by simp [Fault.Declines,Diagnostic.isDecline,kind]⟩

theorem padRun {d : Draft} {x value} {low high : Option (List Int64)} {t}
    (padded : Memory.paddedType (d.graph.typeOf x) (low.getD []) (high.getD []) = .ok t) :
    Memory.pad (some x) value low high d = .ok (.result d.graph.ops.size 0) (d.push (padOp (some x) value t low high)) := by
  have made : Memory.makePad (some x) value low high d =
      .ok d.graph.ops.size { d with graph := d.graph.push (padOp (some x) value t low high) } := by
    rw [Memory.makePad,bindOfOk (typeOfRun x),bindOfOk (liftOk.mpr ⟨padded,rfl⟩)]
    rfl
  rw [Memory.pad,bindOfOk made]
  rfl

section Staged

variable {x value : Operand} {t T : ValueType} {low high : Option (List Int64)}

theorem stagedSource :
    (Draft.staged g [padOp x value t low high, Memory.emptyOp T]).graph.typeOf (.result g.ops.size 0) = t :=
  g.pushAllResultType [padOp x value t low high, Memory.emptyOp T] (m := 0) rfl 0

theorem stagedDestination (tensor : T.isTensor = true) :
    (Draft.staged g [padOp x value t low high, Memory.emptyOp T]).graph.typeOf (.result (g.ops.size + 1) 0) = T := by
  have type := g.pushAllResultType [padOp x value t low high, Memory.emptyOp T] (m := 1) rfl 0
  exact type.trans (withKindTensor tensor)

end Staged

section Unpacked

variable {j : OpId} {i : Nat} {value v w : Value} {axes : List Nat}
  (pads : Memory.Pads g id (.result j i) value) (inside : i < (g.op j).results.length)
  (within : id < g.ops.size) (isUnpack : (g.op j).kind = unpackKind) (made : Matches g j v w w v)
  (found : Memory.paddedAxes (g.op id) = .ok axes) (untiled : ∀ axis ∈ axes, Int64.ofNat axis ∉ (layoutOf (g.op j)).inner)
  (rule : String)

include pads inside made

omit pads in
theorem unpackedType : (g.typeOf w).isTensor = true ∧ g.typeOf (.result j i) = g.typeOf w := by
  have results : (g.op j).results.map Slot.type = [g.typeOf w].filter ValueType.isTensor := made.results
  by_cases tensor : (g.typeOf w).isTensor = true
  · rw [filter_cons_of_pos tensor,filter_nil] at results
    obtain ⟨slot,only,type⟩ := map_eq_singleton_iff.mp results
    rw [only,length_singleton,Nat.lt_one_iff] at inside
    subst inside
    refine ⟨tensor,?_⟩
    rw [Graph.typeOf,Graph.slot,only]
    exact type
  · rw [filter_cons_of_neg tensor,filter_nil,map_eq_nil_iff] at results
    rw [results] at inside
    cases inside

theorem paddedResult : (Memory.padLow (g.op id)).length = (g.typeOf w).dims.length ∧
    (Memory.padHigh (g.op id)).length = (g.typeOf w).dims.length ∧
    (g.op id).results.map Slot.type = [(g.typeOf w).withDims (Memory.paddedDims (g.typeOf w).dims
      (Memory.padLow (g.op id)) (Memory.padHigh (g.op id)))] := by
  obtain ⟨t,padded,results⟩ := pads.type
  rw [(unpackedType inside made).2,Memory.paddedType] at padded
  split at padded
  · rename_i lengths
    cases padded
    exact ⟨lengths.1,lengths.2,results⟩
  · cases padded

theorem paddedResultType : g.typeOf (.result id 0) = (g.typeOf w).withDims (Memory.paddedDims (g.typeOf w).dims
    (Memory.padLow (g.op id)) (Memory.padHigh (g.op id))) := by
  obtain ⟨slot,only,type⟩ := map_eq_singleton_iff.mp (paddedResult pads inside made).2.2
  rw [Graph.typeOf,Graph.slot,only]
  exact type

theorem paddedTensor : (g.typeOf (.result id 0)).isTensor = true := by
  rw [paddedResultType pads inside made]
  exact (unpackedType inside made).1

include found untiled

theorem paddedBare {a l h} (below : (Memory.padLow (g.op id))[a]? = some l)
    (above : (Memory.padHigh (g.op id))[a]? = some h) (padded : l ≠ 0 ∨ h ≠ 0) :
    Int64.ofNat a ∉ (layoutOf (g.op j)).inner := by
  obtain ⟨lengthLow,lengthHigh,-⟩ := paddedResult pads inside made
  obtain ⟨axes',found',listed⟩ := Memory.paddedAxesFound (k := 0) (lengthLow.trans lengthHigh.symm)
  cases found.symm.trans found'
  exact untiled a (Nat.zero_add a ▸ listed a l h below above padded)

theorem blockedPads :
    ∃ low high t, blockedPadding (layoutOf (g.op j)) ((g.op id).attrs.given? Memory.lowAttr) = .ok low ∧
      blockedPadding (layoutOf (g.op j)) ((g.op id).attrs.given? Memory.highAttr) = .ok high ∧
      Memory.paddedType (g.typeOf v) (low.getD []) (high.getD []) = .ok t ∧
      (layoutOf (g.op j)).packedShape (g.typeOf (.result id 0)).dims = .ok t.dims := by
  obtain ⟨lengthLow,lengthHigh,-⟩ := paddedResult pads inside made
  have small : (g.typeOf w).dims.length < wordBound := made.rank
  obtain ⟨_,valid,_⟩ := Outcome.bindOk.mp made.shape
  obtain ⟨T,describes⟩ := Layout.describedOfValid small valid
  obtain ⟨low,movedLow,atLow⟩ := describes.interchanges small lengthLow
  obtain ⟨high,movedHigh,atHigh⟩ := describes.interchanges small lengthHigh
  obtain ⟨low',isLow,getLow⟩ := blockedPaddingOf (givenInts (g.op id).attrs Memory.lowAttr) movedLow
  obtain ⟨high',isHigh,getHigh⟩ := blockedPaddingOf (givenInts (g.op id).attrs Memory.highAttr) movedHigh
  have shape := Layout.packedShapePadded lengthLow lengthHigh
    (fun _ _ _ below above padded => paddedBare pads inside made found untiled below above padded) small made.shape
    movedLow movedHigh
  have count {vec vec' : List Int64} (picked : vec.map some = T.order.map (vec'[·]?)) :
      (vec ++ (layoutOf (g.op j)).tiles.map fun _ => 0).length = (g.typeOf v).rank := by
    have length := congrArg List.length picked
    rw [length_map,length_map,T.orderLength] at length
    rw [length_append,length_map,length]
    exact (Layout.packedShapeLength small made.shape).symm
  refine ⟨low',high',(g.typeOf v).withDims (Memory.paddedDims (g.typeOf v).dims (low'.getD []) (high'.getD [])),
    isLow,isHigh,?_,?_⟩
  · rw [Memory.paddedType,if_pos ⟨getLow ▸ count atLow,getHigh ▸ count atHigh⟩]
  · rw [paddedResultType pads inside made,getLow,getHigh]
    exact shape

theorem paddedDivides : ∃ whole, (layoutOf (g.op j)).divides (g.typeOf (.result id 0)).dims = .ok whole ∧
    (whole = true ↔ (layoutOf (g.op j)).Cuts (g.typeOf w).dims) := by
  obtain ⟨lengthLow,lengthHigh,-⟩ := paddedResult pads inside made
  have small : (g.typeOf w).dims.length < wordBound := made.rank
  obtain ⟨_,_,_,-,-,-,shape⟩ := blockedPads pads inside made found untiled
  obtain ⟨_,valid,-⟩ := Outcome.bindOk.mp shape
  rw [paddedResultType pads inside made,ValueType.withDims] at valid ⊢
  rw [← Layout.cutsPadded lengthLow lengthHigh fun _ _ _ below above padded =>
    paddedBare pads inside made found untiled below above padded]
  exact Layout.dividesAnswers (by rw [Memory.paddedDimsLength lengthLow lengthHigh]; exact small) valid

include within isUnpack

theorem throughPadStages : ∃ t low high, (layoutOf (g.op j)).packedShape (g.typeOf (.result id 0)).dims = .ok t.dims ∧
    throughPad.draft ⟨rule,id⟩ (.ofGraph g) = (do
      let unpacked ← Site.expect ⟨rule,id⟩ (unpack (some (.result g.ops.size 0)) (some (.result (g.ops.size + 1) 0))
        (layoutOf (g.op j)) (.ofOp (g.op j)))
      Draft.replace id [unpacked])
      (.staged g [padOp (some v) (some value) t low high, Memory.emptyOp (g.typeOf (.result id 0))]) := by
  obtain ⟨low,high,t,isLow,isHigh,padded,shape⟩ := blockedPads pads inside made found untiled
  refine ⟨t,low,high,shape,?_⟩
  have operand : (g.op id).operands[0]? = some (some (.result j i)) := by rw [pads.operands]; rfl
  have none : axes.find? (fun axis => (layoutOf (g.op j)).inner.contains (Int64.ofNat axis)) = none :=
    find?_eq_none.mpr fun axis mem tiled => untiled axis mem (contains_iff_mem.mp tiled)
  have source : g.operandAt j 0 = .ok (some v) := Graph.operandAtOk.mpr (by rw [made.operands]; rfl)
  have fill : g.operandAt id 1 = .ok (some value) := Graph.operandAtOk.mpr (by rw [pads.operands]; rfl)
  have pushed : (Draft.ofGraph g).push (padOp (some v) (some value) t low high) =
      .staged g [padOp (some v) (some value) t low high] := by
    rw [← Draft.stagedNil,Draft.stagedPush]
    rfl
  have pad : Memory.pad (some v) (some value) low high (.ofGraph g) = .ok (.result g.ops.size 0)
      ((Draft.ofGraph g).push (padOp (some v) (some value) t low high)) := padRun padded
  have result : ((Draft.ofGraph g).push (padOp (some v) (some value) t low high)).graph.resultAt id 0 =
      .ok (.result id 0) := by
    refine Graph.resultAtOk.mpr ⟨?_,rfl⟩
    have length := congrArg List.length (paddedResult pads inside made).2.2
    rw [length_map,length_singleton] at length
    exact (congrArg (0 < ·.results.length) (g.pushOp _ within)).mpr (length ▸ Nat.zero_lt_one)
  refine Eq.trans (bindOfOk (askUnpack operand (unpackOfResult isUnpack)) _) ?_
  refine Eq.trans (bindOfOk graphRun _) ?_
  refine Eq.trans (bindOfOk (askOk.mpr ⟨found,rfl⟩) _) ?_
  simp only [show (Draft.ofGraph g).graph = g from rfl,none]
  refine Eq.trans (bindOfOk (askOk.mpr ⟨isLow,rfl⟩) _) ?_
  refine Eq.trans (bindOfOk (askOk.mpr ⟨isHigh,rfl⟩) _) ?_
  refine Eq.trans (bindOfOk (askOk.mpr ⟨source,rfl⟩) _) ?_
  refine Eq.trans (bindOfOk (askOk.mpr ⟨fill,rfl⟩) _) ?_
  refine Eq.trans (bindOfOk (Site.expectOk.mpr pad) _) ?_
  refine Eq.trans (bindOfOk (askOk.mpr ⟨result,rfl⟩) _) ?_
  refine Eq.trans (bindOfOk (Memory.emptyRun _) _) ?_
  rw [pushed,Draft.stagedPush,show (Draft.staged g _).graph.ops.size = _ from g.pushAllSize _]
  rfl

theorem throughPadMoves (cuts : (layoutOf (g.op j)).Cuts (g.typeOf w).dims) :
    ∃ d, throughPad.draft ⟨rule,id⟩ (.ofGraph g) = .ok () d ∧ d.hasChanges = true := by
  obtain ⟨t,low,high,shape,stages⟩ := throughPadStages pads inside within isUnpack made found untiled rule
  obtain ⟨whole,divides,even⟩ := paddedDivides pads inside made found untiled
  obtain rfl := even.mpr cuts
  have tensor := paddedTensor pads inside made
  generalize result : g.typeOf (.result id 0) = T at stages divides shape tensor
  let o := convertOp unpackKind (some (.result g.ops.size 0)) (some (.result (g.ops.size + 1) 0)) T (layoutOf (g.op j))
    (.ofOp (g.op j))
  let e := Draft.staged g ([padOp (some v) (some value) t low high, Memory.emptyOp T] ++ [o])
  have unpacked : unpack (some (.result g.ops.size 0)) (some (.result (g.ops.size + 1) 0)) (layoutOf (g.op j))
      (.ofOp (g.op j)) (.staged g [padOp (some v) (some value) t low high, Memory.emptyOp T]) =
        .ok (some (.result (g.ops.size + 2) 0)) e := by
    rw [unpackRun (by rw [stagedDestination tensor]; exact divides)
      (by rw [stagedDestination tensor,stagedSource]; exact shape),stagedDestination tensor,if_pos tensor,
      Draft.stagedPush,show (Draft.staged g _).graph.ops.size = _ from g.pushAllSize _]
    rfl
  have types : [Value.result (g.ops.size + 2) 0].map e.graph.typeOf = (e.graph.op id).results.map Slot.type := by
    rw [show e.graph.op id = g.op id from g.pushAllOld _ within,(paddedResult pads inside made).2.2,
      ← paddedResultType pads inside made,result]
    refine congrArg ([·]) ((g.pushAllResultType _ (m := 2) (o := o) rfl 0).trans ?_)
    simp only [o,convertOp,if_pos tensor]
    rfl
  have replaced := Draft.replaceRun _ types
  rw [map_singleton] at replaced
  refine ⟨_,(stages.trans (bindOfOk (Site.expectOk.mpr unpacked) _)).trans replaced,?_⟩
  simp [Draft.hasChanges]

theorem throughPadOverhangs (uneven : ¬ (layoutOf (g.op j)).Cuts (g.typeOf w).dims) :
    Stops (throughPad.draft ⟨rule,id⟩) (.ofGraph g) := by
  obtain ⟨t,low,high,-,stages⟩ := throughPadStages pads inside within isUnpack made found untiled rule
  obtain ⟨whole,divides,even⟩ := paddedDivides pads inside made found untiled
  obtain rfl : whole = false := Bool.eq_false_iff.mpr (uneven ∘ even.mp)
  have tensor := paddedTensor pads inside made
  generalize g.typeOf (.result id 0) = T at stages divides tensor
  have fails : ∃ cause e, unpack (some (.result g.ops.size 0)) (some (.result (g.ops.size + 1) 0)) (layoutOf (g.op j))
      (.ofOp (g.op j)) (.staged g [padOp (some v) (some value) t low high, Memory.emptyOp T]) =
        .error (.error cause) e ∧ cause.isDecline = false := by
    rw [unpack,bindOfOk (typeOfRun _),stagedDestination tensor,bindOfOk (liftOk.mpr ⟨divides,rfl⟩),
      if_neg (by decide)]
    exact ⟨_,_,rfl,by rw [Diagnostic.isDecline]⟩
  obtain ⟨cause,e,fails,kind⟩ := fails
  rw [Stops,stages]
  exact (expectStops fails kind).first

end Unpacked

/-- A pad in a verified function is moved before the unpack of its source, or the rule says that it does not apply,
except where the tiles of the unpack do not divide what they tile. -/
theorem padMovesOrDeclines (ok : g.verify = .ok ()) (mem : id ∈ g.walkAll) (pads : ∃ x value, Memory.Pads g id x value)
    (matched : ∀ j ∈ g.walkAll, (g.op j).kind = unpackKind → ∃ v w, Matches g j v w w v) :
    Ends (fun _ d => d.hasChanges = true) (throughPad.draft ⟨throughPad.name, id⟩) (.ofGraph g) ↔ ¬ Overhangs g id := by
  obtain ⟨x,value,pads⟩ := pads
  have operand : (g.op id).operands[0]? = some (some x) := by rw [pads.operands]; rfl
  by_cases unpacked : ∃ j i, x = .result j i ∧ (g.op j).kind = unpackKind
  · obtain ⟨j,i,rfl,isUnpack⟩ := unpacked
    obtain ⟨_,same,defined⟩ := Graph.operandsDefined ok mem _ (List.mem_of_getElem? operand)
    cases same
    obtain ⟨walked,inside⟩ := defined
    have within := Graph.walkInside ok mem
    obtain ⟨v,w,made⟩ := matched j walked isUnpack
    have dest : (g.op j).operands[1]? = some (some w) := by rw [made.operands]; rfl
    obtain ⟨lengthLow,lengthHigh,-⟩ := paddedResult pads inside made
    obtain ⟨axes,found,-⟩ := Memory.paddedAxesFound (k := 0) (lengthLow.trans lengthHigh.symm)
    have overhangs : Overhangs g id ↔ (∀ axis ∈ axes, Int64.ofNat axis ∉ (layoutOf (g.op j)).inner) ∧
        ¬ (layoutOf (g.op j)).Cuts (g.typeOf w).dims := by
      refine ⟨?_,fun ⟨untiled,uneven⟩ => ⟨j,i,w,axes,operand,isUnpack,dest,found,untiled,uneven⟩⟩
      rintro ⟨j',i',w',axes',operand',-,dest',found',untiled,uneven⟩
      cases operand.symm.trans operand'
      cases dest.symm.trans dest'
      cases found.symm.trans found'
      exact ⟨untiled,uneven⟩
    by_cases untiled : ∀ axis ∈ axes, Int64.ofNat axis ∉ (layoutOf (g.op j)).inner
    · by_cases cuts : (layoutOf (g.op j)).Cuts (g.typeOf w).dims
      · obtain ⟨d,drafted,changes⟩ := throughPadMoves pads inside within isUnpack made found untiled _ cuts
        exact iff_of_true (.done drafted changes) fun hangs => (overhangs.mp hangs).2 cuts
      · obtain ⟨f,e,stopped,kind⟩ := throughPadOverhangs pads inside within isUnpack made found untiled _ cuts
        refine iff_of_false (fun ends => kind ?_) (not_not.mpr (overhangs.mpr ⟨untiled,cuts⟩))
        rw [Ends,stopped] at ends
        exact ends
    · refine iff_of_true ?_ fun hangs => untiled (overhangs.mp hangs).1
      refine .next (askUnpack operand (unpackOfResult isUnpack)) (.next graphRun (.next (askOk.mpr ⟨found,rfl⟩) ?_))
      obtain ⟨axis,padded⟩ : ∃ axis, axes.find? (fun axis => (layoutOf (g.op j)).inner.contains (Int64.ofNat axis)) =
          some axis := by
        rw [← Option.isSome_iff_exists,List.find?_isSome]
        simpa using untiled
      simp only [show (Draft.ofGraph g).graph = g from rfl,padded]
      exact .declined
  · have other : ∀ j i, x = .result j i → (g.op j).kind ≠ unpackKind := fun j i same isUnpack =>
      unpacked ⟨j,i,same,isUnpack⟩
    refine iff_of_true (.next (askUnpack operand (unpackOfOther other)) .declined) ?_
    rintro ⟨j,i,w,axes,operand',isUnpack,-⟩
    cases operand.symm.trans operand'
    exact other j i rfl isUnpack

theorem padMovesOrDeclinesColumns : paddedColumns.verify = .ok () ∧ 1 ∈ paddedColumns.walkAll ∧
    Memory.Pads paddedColumns 1 (.result 0 0) (.argument 0 2) ∧
    Matches paddedColumns 0 (.argument 0 0) (.argument 0 1) (.argument 0 1) (.argument 0 0) ∧
    Ends (fun _ d => d.hasChanges = true) (throughPad.draft ⟨throughPad.name, 1⟩) (.ofGraph paddedColumns) := by
  have ok : paddedColumns.verify = .ok () := by decide +kernel
  have mem : 1 ∈ paddedColumns.walkAll := by decide +kernel
  have pads : Memory.Pads paddedColumns 1 (.result 0 0) (.argument 0 2) := ⟨rfl,rfl,_,rfl,rfl⟩
  have matches_ : Matches paddedColumns 0 (.argument 0 0) (.argument 0 1) (.argument 0 1) (.argument 0 0) :=
    ⟨rfl,rfl,by decide,by decide +kernel⟩
  refine ⟨ok,mem,pads,matches_,(padMovesOrDeclines ok mem ⟨_,_,pads⟩ fun j walked isUnpack => ?_).mpr ?_⟩
  · obtain rfl : j = 0 := by
      have unpacks : ∀ j ∈ paddedColumns.walkAll, (paddedColumns.op j).kind = unpackKind → j = 0 := by decide +kernel
      exact unpacks j walked isUnpack
    exact ⟨_,_,matches_⟩
  · rintro ⟨j,i,w,axes,operand,-,dest,-,-,uneven⟩
    cases operand
    cases dest
    refine uneven fun cut mem => ?_
    obtain rfl : cut = (0, 2) := List.mem_singleton.mp (show cut ∈ [((0 : Int64), (2 : Int64))] from mem)
    exact ⟨4,by decide +kernel,by decide,by decide⟩

def paddedRemainder : Graph :=
  straight [.tensor .f32 [1, 2, 2], .tensor .f32 [1, 3], .scalar .f32]
    [convertOp unpackKind (some (.argument 0 0)) (some (.argument 0 1)) (.tensor .f32 [1, 3]) ⟨[1],[],[2]⟩ .kept,
      padOp (some (.result 0 0)) (some (.argument 0 2)) (.tensor .f32 [2, 3]) (some [1, 0]) (some [0, 0]),
      ⟨Memory.returnKind,[some (.result 1 0)],[],OrderedMap.empty,none,none⟩] [0, 1, 2]

theorem remainderStopsPad : paddedRemainder.verify = .ok () ∧
    Memory.Pads paddedRemainder 1 (.result 0 0) (.argument 0 2) ∧
    Matches paddedRemainder 0 (.argument 0 0) (.argument 0 1) (.argument 0 1) (.argument 0 0) ∧
    Stops (throughPad.draft ⟨throughPad.name, 1⟩) (.ofGraph paddedRemainder) := by
  have pads : Memory.Pads paddedRemainder 1 (.result 0 0) (.argument 0 2) := ⟨rfl,rfl,_,rfl,rfl⟩
  have matches_ : Matches paddedRemainder 0 (.argument 0 0) (.argument 0 1) (.argument 0 1) (.argument 0 0) :=
    ⟨rfl,rfl,by decide,by decide +kernel⟩
  refine ⟨by decide +kernel,pads,matches_,?_⟩
  have found : Memory.paddedAxes (paddedRemainder.op 1) = .ok [0] := by decide +kernel
  refine throughPadOverhangs pads (by decide) (by decide) rfl matches_ found (by decide) _ fun cuts => ?_
  obtain ⟨ext,entry,-,even⟩ := cuts (1, 2) (List.mem_singleton_self _)
  cases entry
  exact absurd even (by decide)

end Propagation

end TileLower

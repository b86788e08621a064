import TileLower.Proofs.Mappings

/-!
Tables of operations as the makers make them. Every change keeps the operands and results of their kinds, on values of
the same types.
-/
namespace TileLower

open Structured List

def ValueType.Flat (t : ValueType) : Prop := t.isShaped = false → t.dims = []

instance (t : ValueType) : Decidable t.Flat := inferInstanceAs (Decidable (_ → _))

def Blocking.kinds : List String :=
  [matmulKind, convNchwFchwKind, convNhwcHwcfKind]

def Value.Held (K : OpId → Prop) (g : Graph) : Value → Prop
  | .result k i => K k ∧ i < (g.op k).results.length
  | .argument c i => i < (g.block c).args.length

namespace Graph

variable {g g' : Graph} {K : OpId → Prop} {k : OpId}

structure Proper (g : Graph) (K : OpId → Prop) (k : OpId) : Prop where
  built : g.Built k
  operands : ∀ v ∈ (g.op k).operands, ∃ w, v = some w ∧ w.Held K g ∧ (g.typeOf w).Flat
  few : (g.op k).kind ∈ Blocking.kinds → ∀ w, some w ∈ (g.op k).operands → (g.typeOf w).rank < wordBound
  printable : Body.isMarkedWith (g.op k) Primitive.matmulKind = true → ∀ m ∈ indexingMaps (g.op k), m.Printable
  inner : ∀ b, (g.op k).region = some b → b < g.blocks.size ∧ ∀ i ∈ (g.block b).ops, K i
  home : ∀ b, (g.op k).block = some b → k ∈ (g.block b).ops

def typesAt (g : Graph) (vs : List Operand) : List (Option ValueType) := vs.map (Option.map g.typeOf)

theorem tensorTypesAt (vs : List Operand) :
    g.tensorTypes vs = ((g.typesAt vs).filterMap fun t => t).filter ValueType.isTensor := by
  rw [tensorTypes,typesAt,filterMap_map]
  rfl

theorem typesAtLength {vs ws : List Operand} (types : g'.typesAt vs = g.typesAt ws) : vs.length = ws.length := by
  simpa [typesAt] using congrArg List.length types

theorem typesAtDrop (vs : List Operand) (n : Nat) : g.typesAt (vs.drop n) = (g.typesAt vs).drop n := map_drop

theorem heldBelow {w : Value} (held : w.Held K g) : w.Below g.ops.size := by
  cases w with
  | argument c i => trivial
  | result k i =>
    by_contra outside
    have lt := held.2
    rw [opOutside outside] at lt
    cases lt

theorem Built.congr (built : g.Built k) (kind : (g'.op k).kind = (g.op k).kind)
    (attrs : (g'.op k).attrs = (g.op k).attrs) (results : (g'.op k).results = (g.op k).results)
    (types : g'.typesAt (g'.op k).operands = g.typesAt (g.op k).operands)
    (body : ∀ b ∈ (g'.op k).region, (g'.block b).args.length = (g'.op k).operands.length) : g'.Built k := by
  have length := typesAtLength types
  have tensors (n : Nat) : g'.tensorTypes ((g'.op k).operands.drop n) = g.tensorTypes ((g.op k).operands.drop n) := by
    rw [tensorTypesAt,tensorTypesAt,typesAtDrop,typesAtDrop,types]
  have structured : isStructured (g'.op k) = isStructured (g.op k) := by
    rw [isStructured,kind,isStructured]
  have inputs : numInputs (g'.op k) = numInputs (g.op k) := by
    rw [numInputs,attrs,numInputs]
  have primitive : Primitive.isPrimitive (g'.op k) = Primitive.isPrimitive (g.op k) := by
    rw [Primitive.isPrimitive,Primitive.isPrimitive,Operation.dialect,Operation.dialect,kind]
  refine ⟨length ▸ built.room,?_,?_,?_,?_,?_,body⟩
  · rw [kind,length,results]
    exact built.counts
  · rw [structured,inputs,length,results,tensors]
    exact built.split
  · rw [kind,length,inputs]
    exact built.named
  · rw [kind,length,results,tensors]
    exact built.converted
  · rw [primitive,length,results,tensors]
    intro is
    obtain ⟨some,same⟩ := built.primitive is
    refine ⟨fun none => some (length_eq_zero_iff.mp ?_),same⟩
    rw [← length,none]
    rfl

theorem Proper.congr (proper : g.Proper K k) (kind : (g'.op k).kind = (g.op k).kind)
    (attrs : (g'.op k).attrs = (g.op k).attrs) (results : (g'.op k).results = (g.op k).results)
    (types : g'.typesAt (g'.op k).operands = g.typesAt (g.op k).operands)
    (held : ∀ v ∈ (g'.op k).operands, ∃ w, v = some w ∧ w.Held K g')
    (inner : ∀ b, (g'.op k).region = some b → b < g'.blocks.size ∧ (∀ i ∈ (g'.block b).ops, K i) ∧
      (g'.block b).args.length = (g'.op k).operands.length)
    (home : ∀ b, (g'.op k).block = some b → k ∈ (g'.block b).ops) : g'.Proper K k := by
  have old {w : Value} (used : some w ∈ (g'.op k).operands) : ∃ u, some u ∈ (g.op k).operands ∧ g'.typeOf w = g.typeOf u := by
    have mem : some (g'.typeOf w) ∈ g'.typesAt (g'.op k).operands := mem_map.mpr ⟨some w,used,rfl⟩
    rw [types] at mem
    obtain ⟨v,used,type⟩ := mem_map.mp mem
    obtain ⟨u,rfl,-⟩ := proper.operands v used
    exact ⟨u,used,(Option.some.inj type).symm⟩
  refine ⟨proper.built.congr kind attrs results types fun b region => (inner b region).2.2,?_,?_,?_,?_,home⟩
  · intro v used
    obtain ⟨w,rfl,here⟩ := held v used
    obtain ⟨u,before,same⟩ := old used
    obtain ⟨_,is,-,flat⟩ := proper.operands _ before
    cases is
    exact ⟨w,rfl,here,same ▸ flat⟩
  · intro blocked w used
    obtain ⟨u,before,same⟩ := old used
    rw [same]
    exact proper.few (kind ▸ blocked) u before
  · have marked : Body.isMarkedWith (g'.op k) Primitive.matmulKind = Body.isMarkedWith (g.op k) Primitive.matmulKind := by
      simp only [Body.isMarkedWith,Body.hasPrimitiveMark,libraryCall,attrs,kind]
    rw [marked,indexingMaps,attrs]
    exact proper.printable
  · exact fun b region => ⟨(inner b region).1,(inner b region).2.1⟩

end Graph

structure Tidy (K : OpId → Prop) (g : Graph) : Prop where
  body : ∀ i ∈ (g.block Graph.body).ops, K i
  later : ∀ k, g.ops.size ≤ k → K k
  proper : ∀ k, K k → k < g.ops.size → g.Proper K k

namespace Tidy

open TileLower.Graph

variable {K : OpId → Prop} {g g' : Graph} (tidy : Tidy K g)

include tidy

theorem steady : Steady g K := by
  have bare {k : OpId} (outside : ¬ k < g.ops.size) : g.op k = default := opOutside outside
  refine ⟨tidy.body,fun k known b region => ?_,fun k known => ?_,fun k known v used => ?_,fun k known b region => ?_⟩
  · by_cases inside : k < g.ops.size
    · exact ((tidy.proper k known inside).inner b region).2
    · rw [bare inside] at region
      cases region
  · by_cases inside : k < g.ops.size
    · exact ToPrimitive.regularBuilt (tidy.proper k known inside).built
    · rw [bare inside]
      exact ⟨fun is => absurd is (by decide),fun is => absurd is (by decide),fun is => absurd is (by decide),
        fun is => absurd is (by decide)⟩
  · by_cases inside : k < g.ops.size
    · obtain ⟨w,same,held,-⟩ := (tidy.proper k known inside).operands v used
      refine ⟨w,same,?_⟩
      cases w with
      | argument c i => trivial
      | result j i => exact held.1
    · rw [bare inside] at used
      cases used
  · by_cases inside : k < g.ops.size
    · exact (tidy.proper k known inside).built.body b region
    · rw [bare inside] at region
      cases region

section Grown

variable (size : g.ops.size ≤ g'.ops.size) (blocks : g.blocks.size ≤ g'.blocks.size)
  (old : ∀ k, k < g.ops.size → g'.op k = g.op k) (oldBlock : ∀ c, c < g.blocks.size → g'.block c = g.block c)

include old oldBlock

omit tidy in
theorem heldGrown {w : Value} (held : w.Held K g) : w.Held K g' ∧ g'.typeOf w = g.typeOf w := by
  cases w with
  | result k i =>
    have same := old k (heldBelow held)
    exact ⟨⟨held.1,same ▸ held.2⟩,by simp only [Graph.typeOf,slot,same]⟩
  | argument c i =>
    have inside : c < g.blocks.size := by
      by_contra outside
      rw [Value.Held,blockOutside outside] at held
      cases held
    have same := oldBlock c inside
    refine ⟨?_,by simp only [Graph.typeOf,slot,same]⟩
    rw [Value.Held,same]
    exact held

include size blocks

theorem grown (body : 0 < g.blocks.size) (new : ∀ k, g.ops.size ≤ k → k < g'.ops.size → g'.Proper K k) : Tidy K g' := by
  refine ⟨?_,fun k beyond => tidy.later k (size.trans beyond),fun k known inside => ?_⟩
  · rw [oldBlock Graph.body body]
    exact tidy.body
  · by_cases before : k < g.ops.size
    · have proper := tidy.proper k known before
      have same := old k before
      have types : g'.typesAt (g.op k).operands = g.typesAt (g.op k).operands := by
        refine map_congr_left fun v used => ?_
        obtain ⟨w,rfl,held,-⟩ := proper.operands v used
        exact congrArg some (heldGrown old oldBlock held).2
      refine proper.congr (by rw [same]) (by rw [same]) (by rw [same]) (by rw [same,types]) ?_ ?_ ?_
      · rw [same]
        intro v used
        obtain ⟨w,rfl,held,-⟩ := proper.operands v used
        exact ⟨w,rfl,(heldGrown old oldBlock held).1⟩
      · rw [same]
        intro b region
        obtain ⟨within,listed⟩ := proper.inner b region
        rw [oldBlock b within]
        exact ⟨within.trans_le blocks,listed,proper.built.body b region⟩
      · rw [same]
        intro b home
        have listed := proper.home b home
        have within : b < g.blocks.size := by
          by_contra outside
          rw [blockOutside outside] at listed
          cases listed
        rwa [oldBlock b within]
    · exact new k (Nat.le_of_not_lt before) inside

end Grown

/- Operations that are put elsewhere, with the same results. -/
section Rearranged

omit tidy in
theorem heldCongr (results : ∀ k, (g'.op k).results = (g.op k).results)
    (args : ∀ c, (g'.block c).args = (g.block c).args) {w : Value} (held : w.Held K g) : w.Held K g' := by
  cases w with
  | result k i => exact ⟨held.1,results k ▸ held.2⟩
  | argument c i =>
    rw [Value.Held,args]
    exact held

theorem operandsHeld {k} (known : K k) (inside : k < g.ops.size) {v} (used : v ∈ (g.op k).operands) :
    ∃ w, v = some w ∧ w.Held K g := by
  obtain ⟨w,here,held,-⟩ := (tidy.proper k known inside).operands v used
  exact ⟨w,here,held⟩

variable (size : g'.ops.size = g.ops.size) (blocks : g'.blocks.size = g.blocks.size)
  (args : ∀ c, (g'.block c).args = (g.block c).args) (listed : ∀ c, ∀ i ∈ (g'.block c).ops, i ∈ (g.block c).ops ∨ K i)
  (home : ∀ k, K k → k < g.ops.size → ∀ b, (g'.op k).block = some b → k ∈ (g'.block b).ops)

include size blocks args listed home

theorem rearranged (ops : ∀ k, ∃ operands region block, g'.op k = { g.op k with operands, region, block })
    (types : ∀ k, K k → k < g.ops.size → g.typesAt (g'.op k).operands = g.typesAt (g.op k).operands)
    (held : ∀ k, K k → k < g.ops.size → ∀ v ∈ (g'.op k).operands, ∃ w, v = some w ∧ w.Held K g)
    (regions : ∀ k, K k → k < g.ops.size → ∀ b, (g'.op k).region = some b →
      ∃ j, K j ∧ j < g.ops.size ∧ (g.op j).region = some b ∧ (g.op j).operands.length = (g.op k).operands.length) :
    Tidy K g' := by
  refine ⟨fun i mem => ?_,fun k beyond => tidy.later k (size ▸ beyond),fun k known inside => ?_⟩
  · exact (listed _ i mem).elim (tidy.body i) fun known => known
  · rw [size] at inside
    have results (k : OpId) : (g'.op k).results = (g.op k).results := by
      obtain ⟨_,_,_,same⟩ := ops k
      rw [same]
    have typeOf : g'.typeOf = g.typeOf := funext (typeOfCongr results args)
    have types : g'.typesAt (g'.op k).operands = g.typesAt (g.op k).operands := by
      rw [← types k known inside,typesAt,typesAt,typeOf]
    have length := typesAtLength types
    obtain ⟨_,_,_,same⟩ := ops k
    refine (tidy.proper k known inside).congr (by rw [same]) (by rw [same]) (by rw [same]) types (fun v used => ?_)
      (fun b region => ?_) (home k known inside)
    · obtain ⟨w,here,held⟩ := held k known inside v used
      exact ⟨w,here,heldCongr results args held⟩
    · obtain ⟨j,known',inside',region,count⟩ := regions k known inside b region
      obtain ⟨within,among⟩ := (tidy.proper j known' inside').inner b region
      refine ⟨blocks ▸ within,fun i mem => (listed b i mem).elim (among i) fun known => known,?_⟩
      rw [args,length,← count]
      exact (tidy.proper j known' inside').built.body b region

theorem relisted (ops : ∀ k, ∃ block, g'.op k = { g.op k with block }) : Tidy K g' := by
  refine tidy.rearranged size blocks args listed home (fun k => ?_) (fun k _ _ => ?_) (fun k known inside v used => ?_)
    (fun k known inside c region => ?_) <;> obtain ⟨block,same⟩ := ops k
  · exact ⟨_,_,block,same⟩
  · rw [same]
  · rw [same] at used
    exact tidy.operandsHeld known inside used
  · rw [same] at region
    exact ⟨k,known,inside,region,rfl⟩

end Rearranged

theorem insertBefore {b} (anchor : Option OpId) {ids} (within : b < g.blocks.size) (known : ∀ k ∈ ids, K k) :
    Tidy K (g.insertBefore b anchor ids) := by
  refine tidy.relisted (by simp) (by simp) (g.insertBeforeArgs b anchor ids) (fun c i mem => ?_)
    (fun k known inside c home => ?_) fun k => ?_
  · rw [Graph.insertBefore,modifyBlockAt,placeInBlock] at mem
    split at mem
    · simp only [mem_append] at mem
      rcases mem with (before | new) | after
      · exact .inl (mem_of_mem_take before)
      · exact .inr (known i new)
      · exact .inl (mem_of_mem_drop after)
    · exact .inl mem
  · rw [insertBeforeOp] at home
    split at home
    · rename_i new
      cases home
      rw [Graph.insertBefore,modifyBlockAt,placeInBlock,if_pos ⟨rfl,by rwa [placeInBlocks]⟩]
      simp [new.1]
    · exact g.insertBeforeKeeps b anchor ids ((tidy.proper k known inside).home c home)
  · rw [insertBeforeOp]
    split <;> exact ⟨_,rfl⟩

theorem takeRegion {target source} (known : K source) (within : target < g.ops.size) (apart : target ≠ source)
    (length : (g.op target).operands.length = (g.op source).operands.length) : Tidy K (g.takeRegion target source) := by
  have op (k : OpId) : (g.takeRegion target source).op k = { g.op k with
      region := if k = target then (g.op source).region else if k = source then none else (g.op k).region } := by
    by_cases isTarget : k = target
    · rw [isTarget,takeRegionTarget _ within apart,if_pos rfl]
    · by_cases isSource : k = source
      · rw [isSource,takeRegionSource _ apart,if_neg (Ne.symm apart),if_pos rfl]
      · rw [takeRegionOther _ isTarget isSource,if_neg isTarget,if_neg isSource]
  refine tidy.rearranged (by simp) (by simp) (fun c => (g.takeRegionOps c).2)
    (fun c i mem => .inl ((g.takeRegionOps c).1 ▸ mem)) (fun k known inside b home => ?_) (fun k => ⟨_,_,_,op k⟩)
    (fun k _ _ => by rw [op k]) (fun k known inside v used => ?_) fun k known' inside b region => ?_
  · rw [op k] at home
    rw [(g.takeRegionOps b).1]
    exact (tidy.proper k known inside).home b home
  · rw [op k] at used
    exact tidy.operandsHeld known inside used
  · rw [op k] at region
    dsimp only at region
    split at region
    · rename_i isTarget
      have some : source < g.ops.size := by
        by_contra outside
        rw [opOutside outside] at region
        cases region
      exact ⟨source,known,some,region,by rw [isTarget,length]⟩
    · split at region
      · cases region
      · exact ⟨k,known',inside,region,rfl⟩

theorem replaceUses {old new : Value} (held : new.Held K g) (type : g.typeOf new = g.typeOf old) :
    Tidy K (g.replaceUses (some old) (some new)) := by
  have op (k : OpId) : (g.replaceUses (some old) (some new)).op k = { g.op k with
      operands := if k ∈ g.walkAll then (g.op k).operands.map (fun v => if v = some old then some new else v)
        else (g.op k).operands } := by
    rw [replaceUsesOp]
    split <;> rfl
  refine tidy.rearranged (by simp) (by simp) (fun c => by simp) (fun c i mem => .inl (by simpa using mem))
    (fun k known inside b home => ?_) (fun k => ⟨_,_,_,op k⟩) (fun k known inside => ?_) (fun k known inside v used => ?_)
    fun k known inside b region => ?_
  · rw [op k] at home
    rw [replaceUsesBlock]
    exact (tidy.proper k known inside).home b home
  · rw [op k]
    dsimp only
    split
    · rw [typesAt,typesAt,map_map]
      refine map_congr_left fun v _ => ?_
      by_cases same : v = some old
      · simp [same,type]
      · simp [same]
    · rfl
  · rw [op k] at used
    dsimp only at used
    split at used
    · obtain ⟨u,among,rfl⟩ := mem_map.mp used
      split
      · exact ⟨new,rfl,held⟩
      · exact tidy.operandsHeld known inside among
    · exact tidy.operandsHeld known inside used
  · rw [op k] at region
    exact ⟨k,known,inside,region,rfl⟩

theorem replaceResults {id} {vals : List Value} {i} (held : ∀ v ∈ vals, v.Held K g)
    (types : ∀ m v, vals[m]? = some v → g.typeOf v = g.typeOf (.result id (i + m))) :
    Tidy K (Draft.replaceResults g id i (vals.map some)) := by
  induction vals generalizing g i with
  | nil => exact tidy
  | cons v vals ih =>
    obtain ⟨here,later⟩ := forall_mem_cons.mp held
    have results (k : OpId) : ((g.replaceUses (some (.result id i)) (some v)).op k).results = (g.op k).results := by
      rw [replaceUsesOp]
      split <;> rfl
    have args (c : BlockId) : ((g.replaceUses (some (.result id i)) (some v)).block c).args = (g.block c).args := by simp
    have type : g.typeOf v = g.typeOf (.result id i) := types 0 v rfl
    refine ih (tidy.replaceUses here type) (fun w mem => heldCongr results args (later w mem)) fun m w at_ => ?_
    rw [typeOfCongr results args,typeOfCongr results args,Nat.add_right_comm]
    exact types (m + 1) w at_

theorem erase (b : BlockId) (id : OpId) : Tidy K (g.erase b id) := by
  refine tidy.relisted (by simp) (by simp) (fun c => ?_) (fun c i mem => .inl ((g.eraseMem b id).1 mem))
    (fun k known inside c home => ?_) (g.eraseFrame b id)
  · rw [eraseBlock]
    split <;> rfl
  · by_cases here : k = id
    · subst here
      by_cases listed : k ∈ (g.block b).ops
      · rw [eraseHere _ _ _ listed] at home
        cases home
      · rw [Graph.erase,if_neg (by simpa using listed)] at home ⊢
        exact (tidy.proper k known inside).home c home
    · rw [eraseOther _ _ _ here] at home
      have listed := (tidy.proper k known inside).home c home
      rw [eraseBlock]
      split
      · exact (mem_erase_of_ne here).mpr listed
      · exact listed

end Tidy

def Bodied (K : OpId → Prop) (g : Graph) : Prop :=
  ∀ k, K k → k < g.ops.size → (g.op k).kind ∈ Blocking.kinds → (g.op k).block.isSome = true → (g.op k).region.isSome = true

structure Remakes (K : OpId → Prop) (g : Graph) (id : OpId) (moved : Option OpId) (vals : List Value) (d : Draft) : Prop where
  tidy : Tidy K d.graph
  bodied : ∀ k, K k → k < d.graph.ops.size → (d.graph.op k).kind ∈ Blocking.kinds →
    k ∈ d.created ∨ (d.graph.op k).block.isSome = true → (d.graph.op k).region.isSome = true
  same : d.graph.op id = g.op id
  created : ∀ k ∈ d.created, K k ∧ k ≠ id ∧ k < d.graph.ops.size
  held : ∀ v ∈ vals, v.Held K d.graph
  types : vals.map d.graph.typeOf = (g.op id).results.map Slot.type
  aim : ∀ t, moved = some t → t ∈ d.created ∧ (d.graph.op t).kind ∉ Blocking.kinds ∧
    (d.graph.op t).operands.length = (g.op id).operands.length ∧ (g.op id).region.isSome = true
  moves : d.moves = moved.toList.map fun t => (some id, some t)
  replacements : d.replacements = [(id, vals.map some)]
  erased : d.erased = []

namespace Remakes

open TileLower.Graph

variable {K : OpId → Prop} {g : Graph} {id : OpId} {moved : Option OpId} {vals : List Value} {d : Draft} {b : BlockId}
  (remakes : Remakes K g id moved vals d) (block : (g.op id).block = some b)

include remakes block

theorem commitRun : d.commit id =
    .ok (Draft.detach (Draft.replaceResults (Ready.inserted d id b moved) id 0 (vals.map some)) id) := by
  have home : (d.graph.op id).block = some b := remakes.same ▸ block
  have region := d.graph.insertBeforeRegion b (some id) d.created id
  rw [remakes.same] at region
  unfold Draft.commit
  dsimp only
  rw [home,remakes.moves,remakes.replacements,remakes.erased]
  cases moved with
  | none => rfl
  | some t =>
    obtain ⟨-,-,-,some⟩ := remakes.aim t rfl
    obtain ⟨r,here⟩ := Option.isSome_iff_exists.mp some
    simp only [Option.toList_some,map_cons,map_nil,Draft.commitMoves,region,here]
    rfl

theorem inserted (known : K id) : Tidy K (Ready.inserted d id b moved) := by
  have home : (d.graph.op id).block = some b := remakes.same ▸ block
  have listed := (remakes.tidy.proper id known (blockInside home)).home b home
  have within : b < d.graph.blocks.size := by
    by_contra outside
    rw [blockOutside outside] at listed
    cases listed
  have tidy := remakes.tidy.insertBefore (some id) within fun k mem => (remakes.created k mem).1
  cases moved with
  | none => exact tidy
  | some t =>
    obtain ⟨listed,-,length,-⟩ := remakes.aim t rfl
    obtain ⟨-,apart,inside⟩ := remakes.created t listed
    have operands (k : OpId) : ((d.graph.insertBefore b (some id) d.created).op k).operands = (d.graph.op k).operands := by
      rw [insertBeforeOp]
      split <;> rfl
    refine tidy.takeRegion known (by simpa using inside) apart ?_
    rw [operands,operands,remakes.same,length]

theorem insertedFrame (k : OpId) : ∃ block region, (Ready.inserted d id b moved).op k = { d.graph.op k with block, region } ∧
    (block.isSome = true → k ∈ d.created ∨ (d.graph.op k).block.isSome = true) ∧ (k = id → block = some b) ∧
    (k ≠ id → (d.graph.op k).kind ∈ Blocking.kinds → region = (d.graph.op k).region) := by
  have placed : ∃ block, (d.graph.insertBefore b (some id) d.created).op k = { d.graph.op k with block } ∧
      (block.isSome = true → k ∈ d.created ∨ (d.graph.op k).block.isSome = true) ∧ (k = id → block = some b) := by
    rw [insertBeforeOp]
    split
    · rename_i new
      exact ⟨some b,rfl,fun _ => .inl new.1,fun same => absurd same (remakes.created k new.1).2.1⟩
    · refine ⟨(d.graph.op k).block,rfl,.inr,fun same => ?_⟩
      rw [same,remakes.same,block]
  obtain ⟨place,op,stands,anchor⟩ := placed
  cases moved with
  | none => exact ⟨place,_,op,stands,anchor,fun _ _ => rfl⟩
  | some t =>
    obtain ⟨listed,other,-,-⟩ := remakes.aim t rfl
    obtain ⟨-,apart,inside⟩ := remakes.created t listed
    dsimp only [Ready.inserted]
    by_cases isTarget : k = t
    · subst isTarget
      refine ⟨place,((d.graph.insertBefore b (some id) d.created).op id).region,?_,stands,anchor,
        fun _ among => absurd among other⟩
      rw [takeRegionTarget _ (by simpa using inside) apart,op]
    · by_cases isAnchor : k = id
      · subst isAnchor
        refine ⟨place,none,?_,stands,anchor,fun different => absurd rfl different⟩
        rw [takeRegionSource _ apart,op]
      · refine ⟨place,(d.graph.op k).region,?_,stands,anchor,fun _ _ => rfl⟩
        rw [takeRegionOther _ isTarget isAnchor,op]

theorem commit (known : K id) :
    (d.commit id).fault = none ∧ Tidy K (d.commit id).graph ∧ Bodied K (d.commit id).graph := by
  have results (k : OpId) : ((Ready.inserted d id b moved).op k).results = (d.graph.op k).results := by
    obtain ⟨_,_,op,-⟩ := remakes.insertedFrame block k
    rw [op]
  have typeOf := typeOfCongr results Ready.insertedArgs
  have types : ∀ m v, vals[m]? = some v →
      (Ready.inserted d id b moved).typeOf v = (Ready.inserted d id b moved).typeOf (.result id (0 + m)) := by
    intro m v at_
    rw [typeOf,typeOf,Nat.zero_add]
    exact Draft.typesAt (remakes.same ▸ remakes.types) at_
  have tidy := (remakes.inserted block known).replaceResults
    (fun v mem => Tidy.heldCongr results Ready.insertedArgs (remakes.held v mem)) types
  have frame (k : OpId) := Draft.replaceResultsFrame (Ready.inserted d id b moved) id 0 (vals.map some) k
  have home : ((Draft.replaceResults (Ready.inserted d id b moved) id 0 (vals.map some)).op id).block = some b := by
    obtain ⟨_,same⟩ := frame id
    obtain ⟨_,_,op,-,anchor,-⟩ := remakes.insertedFrame block id
    rw [same,op]
    exact anchor rfl
  have inside := blockInside home
  rw [remakes.commitRun block,Draft.detach,home]
  refine ⟨rfl,tidy.erase b id,fun k known' within among alive => ?_⟩
  have other : k ≠ id := by
    rintro rfl
    rw [Changed.ok,eraseHere _ _ _ ((tidy.proper k known inside).home b home)] at alive
    cases alive
  obtain ⟨_,same⟩ := frame k
  obtain ⟨place,region,op,stands,-,kept⟩ := remakes.insertedFrame block k
  rw [Changed.ok,eraseOther _ _ _ other,same,op] at among alive ⊢
  rw [Changed.ok,eraseSize,Draft.replaceResultsSize,Ready.insertedSize] at within
  have body := remakes.bodied k known' within among (stands alive)
  rwa [← kept other among] at body

end Remakes

end TileLower

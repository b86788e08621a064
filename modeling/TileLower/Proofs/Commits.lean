import TileLower.Proofs.Splices
import TileLower.Proofs.Wholeness

/-!
A commit of a draft keeps a function well formed, whether it goes through or stops with only the new operations in
place.
-/
namespace TileLower

open Draft List

namespace Ready

open TileLower.Graph

variable {g : Graph} {id : OpId} {V : Operand → Prop} {target moved : Option OpId} {vals : List Value} {d : Draft}
  {b : BlockId}

theorem insertedBlocks : (inserted d id b moved).blocks.size = d.graph.blocks.size := by
  unfold inserted
  cases moved <;> simp

theorem insertedSize : (inserted d id b moved).ops.size = d.graph.ops.size := by
  unfold inserted
  cases moved <;> simp

theorem insertedName : (inserted d id b moved).name = d.graph.name := by
  unfold inserted
  cases moved <;> simp

theorem insertedArgs (c : BlockId) : ((inserted d id b moved).block c).args = (d.graph.block c).args := by
  unfold inserted
  cases moved with
  | none => exact insertBeforeArgs ..
  | some t => exact (takeRegionOps _ c).2.trans (insertBeforeArgs ..)

theorem insertedOps (c : BlockId) :
    ((inserted d id b moved).block c).ops = ((d.graph.insertBefore b (some id) d.created).block c).ops := by
  unfold inserted
  cases moved with
  | none => rfl
  | some t => exact (takeRegionOps _ c).1

variable (ready : Ready g id V target vals d)

include ready

theorem newResult {ks} (new : ∀ k ∈ ks, g.ops.size ≤ k) (i : Nat) : .result id i ∉ d.graph.computed ks := by
  intro mem
  obtain ⟨k,listed,_,-,same⟩ := memComputed mem
  cases same
  exact Nat.not_lt_of_le (new id listed) ready.within

theorem notNew {j} (old : j < g.ops.size) : j ∉ d.created := fun mem => Nat.not_lt_of_le (ready.new j mem).1 old

theorem placedOld {j} (old : j < g.ops.size) : (d.graph.insertBefore b (some id) d.created).op j = g.op j := by
  rw [insertBeforeOp,if_neg fun h => ready.notNew old h.1,ready.old j old]

variable (aimed : ∀ t, moved = some t → t ∈ d.created ∧ (d.graph.op t).region = none)

include aimed

theorem insertedOld {j} (old : j < g.ops.size) (other : j ≠ id) : (inserted d id b moved).op j = g.op j := by
  have here := ready.placedOld (b := b) old
  unfold inserted
  cases moved with
  | none => exact here
  | some t =>
    have apart : j ≠ t := fun same => ready.notNew old (same ▸ (aimed t rfl).1)
    dsimp only
    rw [takeRegionOther _ apart other,here]

theorem insertedAnchor : (inserted d id b moved).op id =
    { g.op id with region := if moved.isSome then none else (g.op id).region } := by
  have here := ready.placedOld (b := b) ready.within
  unfold inserted
  cases moved with
  | none => exact here
  | some t =>
    have apart : t ≠ id := fun same => ready.notNew ready.within (same ▸ (aimed t rfl).1)
    dsimp only
    rw [takeRegionSource _ apart,here]
    rfl

theorem insertedNew {k} (new : g.ops.size ≤ k) : (inserted d id b moved).op k = { d.graph.op k with
    block := if k ∈ d.created then some b else (d.graph.op k).block
    region := if moved = some k then (g.op id).region else (d.graph.op k).region } := by
  have apart : k ≠ id := fun same => Nat.not_lt_of_le new (same ▸ ready.within)
  have here : (d.graph.insertBefore b (some id) d.created).op k =
      { d.graph.op k with block := if k ∈ d.created then some b else (d.graph.op k).block } := by
    rw [insertBeforeOp]
    by_cases listed : k ∈ d.created
    · rw [if_pos ⟨listed,(ready.new k listed).2⟩,if_pos listed]
    · rw [if_neg fun h => listed h.1,if_neg listed]
  have anchor := ready.placedOld (b := b) ready.within
  unfold inserted
  cases moved with
  | none => exact here
  | some t =>
    dsimp only
    by_cases same : t = k
    · subst same
      rw [takeRegionTarget _ (by rw [insertBeforeSize]; exact (ready.new t (aimed t rfl).1).2) apart,here,anchor,
        if_pos rfl]
    · rw [takeRegionOther _ (Ne.symm same) apart,here,if_neg fun h => same (Option.some.inj h)]

theorem insertedOwner (r : BlockId) : ((inserted d id b moved).block r).owner =
    if (g.op id).region = some r ∧ r < d.graph.blocks.size then (moved <|> (d.graph.block r).owner)
    else (d.graph.block r).owner := by
  have anchor := ready.placedOld (b := b) ready.within
  unfold inserted
  cases moved with
  | none =>
    dsimp only
    rw [insertBeforeOwner]
    split <;> rfl
  | some t =>
    dsimp only
    rw [takeRegionOwner,insertBeforeOwner,insertBeforeBlocks,anchor]
    rfl

end Ready

namespace Ready

open TileLower.Graph

def committed (d : Draft) (id : OpId) (b : BlockId) (moved : Option OpId) (vals : List Value) : Graph :=
  detach (replaceResults (inserted d id b moved) id 0 (vals.map some)) id

variable {g : Graph} {id : OpId} {V : Operand → Prop} {target moved : Option OpId} {vals : List Value} {d : Draft}
  {b : BlockId} (ready : Ready g id V target vals d) (block : (g.op id).block = some b)
  (aimed : ∀ t, moved = some t → t ∈ d.created ∧ (d.graph.op t).region = none)

include ready block aimed

theorem committedErase : committed d id b moved vals =
    (replaceResults (inserted d id b moved) id 0 (vals.map some)).erase b id := by
  obtain ⟨operands,same⟩ := replaceResultsFrame (inserted d id b moved) id 0 (vals.map some) id
  have home : ((replaceResults (inserted d id b moved) id 0 (vals.map some)).op id).block = some b := by
    rw [same,ready.insertedAnchor aimed]
    exact block
  rw [committed,detach,home]

theorem committedOp {j} (other : j ≠ id) : (committed d id b moved vals).op j =
    (replaceResults (inserted d id b moved) id 0 (vals.map some)).op j := by
  rw [ready.committedErase block aimed,eraseOther _ _ _ other]

theorem committedBlock (c : BlockId) : (committed d id b moved vals).block c =
    if c = b then { (inserted d id b moved).block c with ops := ((inserted d id b moved).block c).ops.erase id }
    else (inserted d id b moved).block c := by
  have same : (replaceResults (inserted d id b moved) id 0 (vals.map some)).block c = (inserted d id b moved).block c := by
    rw [Graph.block,replaceResultsBlocks,Graph.block]
  rw [ready.committedErase block aimed,eraseBlock,same]

theorem committedOwner (c : BlockId) :
    ((committed d id b moved vals).block c).owner = ((inserted d id b moved).block c).owner := by
  rw [ready.committedBlock block aimed]
  split <;> rfl

theorem committedArgs (c : BlockId) :
    ((committed d id b moved vals).block c).args = ((inserted d id b moved).block c).args := by
  rw [ready.committedBlock block aimed]
  split <;> rfl

end Ready

structure Grown (g g' : Graph) (id : OpId) (b : BlockId) (d : Draft) (moved : Option OpId) (f : Value → Value) : Prop where
  results : ∀ k, g.ops.size ≤ k → (g'.op k).results = (d.graph.op k).results
  block : ∀ k, g.ops.size ≤ k → (g'.op k).block = if k ∈ d.created then some b else (d.graph.op k).block
  region : ∀ k, g.ops.size ≤ k → (g'.op k).region = if moved = some k then (g.op id).region else (d.graph.op k).region
  operands : ∀ k, g.ops.size ≤ k → ∀ v ∈ (g'.op k).operands, ∃ u ∈ (d.graph.op k).operands, v = u ∨ v = u.map f
  bodies : ∀ c, g.blocks.size ≤ c → g'.block c = d.graph.block c
  owner : ∀ t r, moved = some t → (g.op id).region = some r → (g'.block r).owner = some t
  fixed : ∀ v, (∀ i, v ≠ .result id i) → f v = v

namespace Grown

open TileLower.Graph

variable {g g' : Graph} {id : OpId} {V : Operand → Prop} {target moved : Option OpId} {vals : List Value} {d : Draft}
  {b : BlockId} {f : Value → Value} (grown : Grown g g' id b d moved f) (ready : Ready g id V target vals d)
  (aimed : ∀ t, moved = some t → t ∈ d.created)

include grown

theorem computed {ks} (new : ∀ k ∈ ks, g.ops.size ≤ k) : g'.computed ks = d.graph.computed ks := by
  induction ks with
  | nil => rfl
  | cons k ks ih =>
    obtain ⟨here,later⟩ := forall_mem_cons.mp new
    rw [computedCons,computedCons,ih later,resultsOf,grown.results k here,resultsOf]

/- An operand of a new operation that is not a result of the anchor has kept its name. -/
theorem operand {k : OpId} (new : g.ops.size ≤ k) {scope : List Value} (fresh : ∀ i, .result id i ∉ scope)
    (seen : ∀ u ∈ (d.graph.op k).operands, ∃ w, u = some w ∧ w ∈ scope) {v : Operand} (mem : v ∈ (g'.op k).operands) :
    ∃ w, v = some w ∧ w ∈ scope := by
  obtain ⟨u,used,same⟩ := grown.operands k new v mem
  obtain ⟨w,rfl,visible⟩ := seen u used
  have kept : f w = w := grown.fixed w fun i same => fresh i (same ▸ visible)
  rw [Option.map_some,kept,or_self] at same
  exact ⟨w,same,visible⟩

include ready aimed

theorem body {k : OpId} {r : BlockId} (made : NewBody g id d.graph k r) (n : Nat) (inner : List Value) :
    g'.Formed (n + 1) r inner := by
  have same := grown.bodies r made.new
  have args : g'.argumentsOf r = d.graph.argumentsOf r := by rw [argumentsOf,same,argumentsOf]
  rw [Formed,same]
  refine ⟨made.once,opsFormedOf fun pre j post split => ?_⟩
  have listed := made.formed fun _ _ => True
  have within : ∀ i ∈ pre, g.ops.size ≤ i := fun i mem => (made.plain i (by simp [split,mem])).1
  obtain ⟨new,plain⟩ := made.plain j (by simp [split])
  rw [split] at listed
  have here := listed.at
  -- It stands in a block already, so the draft does not list it.
  have unlisted : j ∉ d.created := fun mem => by
    have none := ready.plain j mem
    rw [here.block] at none
    cases none
  have region : (g'.op j).region = none := by
    rw [grown.region j new,if_neg fun h => unlisted (aimed j h),plain]
  have fresh (i : Nat) : .result id i ∉ d.graph.argumentsOf r ++ d.graph.computed pre := by
    intro mem
    rcases mem_append.mp mem with arg | result
    · obtain ⟨_,-,same⟩ := memArguments arg
      cases same
    · exact ready.newResult within i result
  refine ⟨?_,fun v mem => ?_,fun s some => ?_,fun s some => ?_⟩
  · rw [grown.block j new,if_neg unlisted,here.block]
  · obtain ⟨w,rfl,visible⟩ := grown.operand new fresh here.operands mem
    rw [args,grown.computed within,append_assoc]
    exact ⟨w,rfl,mem_append_right _ visible⟩
  · rw [region] at some
    cases some
  · rw [region] at some
    cases some

theorem created {scope scope' : List Value} {n : Nat} (formed : OpFormed g (g.Formed n) b scope id)
    (seen : ∀ v, V v → ∃ w, v = some w ∧ w ∈ scope) (fresh : ∀ i, .result id i ∉ scope)
    (carries : Carries (fun _ => True) f scope scope')
    (regions : ∀ r, (g.op id).region = some r → ∀ inner, Carries (fun _ => True) f scope inner → g'.Formed n r inner) :
    OpsFormed g' (g'.Formed n) b scope' d.created := by
  have kept {w : Value} (visible : w ∈ scope) : w ∈ scope' := by
    have here := carries w visible trivial
    rwa [grown.fixed w fun i same => fresh i (same ▸ visible)] at here
  refine opsFormedOf fun pre k post split => ?_
  have listed : k ∈ d.created := by simp [split]
  have within : ∀ i ∈ pre, g.ops.size ≤ i := fun i mem => (ready.new i (by simp [split,mem])).1
  have new := (ready.new k listed).1
  have apart (i : Nat) : .result id i ∉ scope ++ d.graph.computed pre := fun mem =>
    (mem_append.mp mem).elim (fresh i) (ready.newResult within i)
  refine ⟨?_,fun v mem => ?_,fun r region => ?_,fun r region => ?_⟩
  · rw [grown.block k new,if_pos listed]
  · have visible : ∀ u ∈ (d.graph.op k).operands, ∃ w, u = some w ∧ w ∈ scope ++ d.graph.computed pre := by
      intro u used
      rcases ready.operands pre k post split u used with old | ⟨w,rfl,before⟩
      · obtain ⟨w,rfl,visible⟩ := seen u old
        exact ⟨w,rfl,mem_append_left _ visible⟩
      · exact ⟨w,rfl,mem_append_right _ before⟩
    obtain ⟨w,rfl,visible⟩ := grown.operand new apart visible mem
    refine ⟨w,rfl,?_⟩
    rw [grown.computed within]
    exact (mem_append.mp visible).elim (fun old => mem_append_left _ (kept old)) (mem_append_right _)
  · rw [grown.region k new] at region
    split at region
    · rename_i moved
      exact grown.owner k r moved region
    · have made := ready.regions k listed r region
      rw [grown.bodies r made.new]
      exact made.owner
  · rw [grown.region k new] at region
    split at region
    · exact regions r region _ (carries.mono _)
    · have made := ready.regions k listed r region
      obtain ⟨outer,deep⟩ := Option.isSome_iff_exists.mp made.deep
      -- The anchor has a region, so there is room for one more block.
      cases n with
      | zero => cases formed.region outer deep
      | succ n => exact grown.body ready aimed made n _

end Grown

namespace Graph

def Seen (g : Graph) (id : OpId) (v : Operand) : Prop :=
  ∀ c scope, g.At c scope id → ∃ w, v = some w ∧ w ∈ scope

theorem WellFormed.sight {g : Graph} {id} (formed : g.WellFormed) (within : id < g.ops.size) :
    Sight g id (g.Seen id) := by
  refine ⟨within,fun v mem c scope place => ?_,fun j i seen v mem c scope place => ?_⟩
  · obtain ⟨⟨_,-,here⟩,-⟩ := place.formed formed
    exact here.operands v mem
  · obtain ⟨-,closed⟩ := place.formed formed
    obtain ⟨w,same,visible⟩ := seen c scope place
    cases same
    exact closed j i visible v mem

theorem WellFormed.sightOf {g : Graph} {id} (formed : g.WellFormed) (mem : id ∈ g.walkAll) : Sight g id (g.Seen id) := by
  obtain ⟨_,_,place⟩ := atOfWalk .body mem
  exact formed.sight (blockInside (place.block formed))

theorem Scope.inside {g : Graph} {c visible} (scope : g.Scope c visible) (formed : g.WellFormed)
    (some : 0 < g.blocks.size) : c < g.blocks.size := by
  cases scope with
  | body => exact some
  | region outer split region =>
    obtain ⟨⟨_,-,here⟩,-⟩ := At.formed ⟨_,_,_,outer,split,rfl⟩ formed
    have owner := here.owner _ region
    by_contra outside
    rw [blockOutside outside] at owner
    cases owner

end Graph

namespace Ready

open TileLower.Graph

variable {g : Graph} {id : OpId} {target moved : Option OpId} {vals : List Value} {d : Draft} {b : BlockId}
  {ids : List OpId} (ready : Ready g id (g.Seen id) target vals d) (sound : g.Sound ids) (mem : id ∈ ids)
  (block : (g.op id).block = some b)

section Anchor

include sound mem block

theorem ownRegion {r} (region : (g.op id).region = some r) : (g.block r).owner = some id :=
  sound.owner id mem (by rw [isAlive,block]; rfl) r region

theorem regionInside {r} (region : (g.op id).region = some r) : r < g.blocks.size := by
  have owner := ownRegion sound mem block region
  by_contra outside
  rw [blockOutside outside] at owner
  cases owner

theorem homeInside : b < g.blocks.size := listedInside (sound.listed id mem b block)

theorem otherRegion {r j} (owner : (g.block r).owner = some j) (other : j ≠ id) :
    (g.op id).region ≠ some r := fun region =>
  other (Option.some.inj (owner.symm.trans (ownRegion sound mem block region)))

end Anchor

section Insertion

include ready sound

/- Where the anchor is reached, none of the values that replace its results is one of them. -/
theorem apart {scope} (place : g.At b scope id) : ∀ v ∈ vals, ∀ i, v ≠ .result id i := by
  rintro v used i rfl
  rcases ready.known _ used with seen | new
  · obtain ⟨w,same,visible⟩ := seen b scope place
    cases same
    exact place.fresh sound.formed i visible
  · exact ready.newResult (fun k mem => (ready.new k mem).1) i new

include mem block

theorem insertedKeeps {c visible} (scope : g.Scope c visible) :
    ((inserted d id b moved).block c).args = (g.block c).args ∧ ((inserted d id b moved).block c).ops =
        (g.block c).ops.flatMap (fun j => if j = id then d.created ++ [id] else [j]) := by
  have home := homeInside sound mem block
  have inside := scope.inside sound.formed ((Nat.zero_le _).trans_lt home)
  refine ⟨by rw [insertedArgs,ready.oldBlock c inside],?_⟩
  rw [insertedOps]
  by_cases here : c = b
  · subst here
    have once := scope.once sound.formed
    obtain ⟨pre,post,split⟩ := append_of_mem (sound.listed id mem c block)
    have before : id ∉ pre := fun mem => by
      rw [split] at once
      exact disjoint_of_nodup_append once mem (.head _)
    rw [splicePresent split once,insertBeforeHere _ _ _ ((ready.oldBlock c inside).symm ▸ split) before]
    simp
  · rw [insertBeforeOther _ _ _ _ here,ready.oldBlock c inside,spliceAbsent (scope.notListed sound.formed block here)]

theorem insertedOnce {c visible} (scope : g.Scope c visible) : ((inserted d id b moved).block c).ops.Nodup := by
  have once := scope.once sound.formed
  have whole := (@ready.insertedKeeps _ _ _ moved _ _ _ _ sound mem block _ _ scope).2
  rw [whole]
  by_cases listed : id ∈ (g.block c).ops
  · obtain ⟨pre,post,split⟩ := append_of_mem listed
    rw [splicePresent split once]
    -- New operations have higher numbers than those of the block.
    have old : ∀ j ∈ (g.block c).ops, j ∉ d.created := fun j mem new =>
      Nat.not_lt_of_le (ready.new j new).1 (blockInside (scope.block sound.formed mem))
    have apart : List.Disjoint d.created (pre ++ id :: post) := fun j new mem => old j (split ▸ mem) new
    have joined : (d.created ++ (pre ++ id :: post)).Nodup := ready.once.append (split ▸ once) apart
    have order : pre ++ (d.created ++ [id]) ++ post = pre ++ (d.created ++ id :: post) := by simp
    rw [order]
    exact (perm_append_comm_assoc ..).nodup joined
  · rwa [spliceAbsent listed]

variable (aimed : ∀ t, moved = some t → t ∈ d.created ∧ (d.graph.op t).region = none)

include aimed

theorem insertedOwnerOther {r j} (owner : (g.block r).owner = some j) (other : j ≠ id) :
    ((inserted d id b moved).block r).owner = some j := by
  have inside : r < g.blocks.size := by
    by_contra outside
    rw [blockOutside outside] at owner
    cases owner
  rw [ready.insertedOwner aimed,if_neg fun h => otherRegion sound mem block owner other h.1,ready.oldBlock r inside,owner]

theorem insertedGrown : Grown g (inserted d id b moved) id b d moved fun v => v := by
  refine ⟨fun k new => ?_,fun k new => ?_,fun k new => ?_,fun k new v mem => ?_,fun c new => ?_,fun t r same region => ?_,
    fun _ _ => rfl⟩
  · rw [ready.insertedNew aimed new]
  · rw [ready.insertedNew aimed new]
  · rw [ready.insertedNew aimed new]
  · rw [ready.insertedNew aimed new] at mem
    exact ⟨v,mem,.inl rfl⟩
  · have apart : c ≠ b := fun same => Nat.not_lt_of_le new (same ▸ homeInside sound mem block)
    have region : ((d.graph.insertBefore b (some id) d.created).op id).region ≠ some c := by
      rw [insertBeforeRegion,ready.old id ready.within]
      exact fun region => Nat.not_lt_of_le new (regionInside sound mem block region)
    unfold inserted
    cases moved with
    | none => exact insertBeforeOther _ _ _ _ apart
    | some t => exact (takeRegionBlock _ region).trans (insertBeforeOther _ _ _ _ apart)
  · have inside := (regionInside sound mem block region).trans_le ready.blocks
    rw [ready.insertedOwner aimed,if_pos ⟨region,inside⟩,same]
    rfl

theorem insertedSplice : Splice g (inserted d id b moved) id (d.created ++ [id]) (fun _ => True) fun v => v := by
  have grown := ready.insertedGrown sound mem block aimed
  have formed := sound.formed
  refine ⟨?_,fun c visible scope => (ready.insertedKeeps sound mem block scope).1,
    fun c visible scope => (ready.insertedKeeps sound mem block scope).2,
    fun c visible scope => ready.insertedOnce sound mem block scope,fun c scope j place other => ?_,
    fun c scope j place other r region => ?_,fun _ _ _ _ _ _ _ => trivial,fun _ _ => rfl,
    fun c scope n place here scope' carries regions => ?_⟩
  · rw [insertedBlocks]
    exact ready.blocks
  · rw [ready.insertedOld aimed (blockInside (place.block formed)) other,spliceSame]
  · obtain ⟨⟨_,-,stays⟩,-⟩ := place.formed formed
    have owner := stays.owner r region
    rw [ready.insertedOwnerOther sound mem block aimed owner other,owner]
  · cases block.symm.trans (place.block formed)
    have kept (w : Value) (visible : w ∈ scope) : w ∈ scope' := carries w visible trivial
    have anchor := ready.insertedAnchor (b := b) aimed
    have before := grown.created ready (fun t same => (aimed t same).1) here (fun v seen => seen b scope place)
      (place.fresh formed) carries regions
    refine ⟨opsFormedAppend.mpr ⟨before,⟨?_,fun v used => ?_,fun r region => ?_,fun r region => ?_⟩,trivial⟩,?_⟩
    · rw [anchor]
      exact block
    · rw [anchor] at used
      obtain ⟨w,rfl,visible⟩ := here.operands v used
      exact ⟨w,rfl,mem_append_left _ (kept w visible)⟩
    · rw [anchor] at region
      cases moved with
      | some t => cases region
      | none =>
        rw [ready.insertedOwner aimed,ready.oldBlock r (regionInside sound mem block region),here.owner r region]
        split <;> rfl
    · rw [anchor] at region
      cases moved with
      | some t => cases region
      | none => exact regions r region _ (carries.mono _)
    · intro v result _
      rw [computedAppend,computedCons,resultsOf,anchor]
      exact mem_append_right _ (mem_append_right _ (mem_append_left _ result))

end Insertion

section Removal

variable (aimed : ∀ t, moved = some t → t ∈ d.created ∧ (d.graph.op t).region = none)

include ready block aimed

include sound mem

theorem committedKeeps {c visible} (scope : g.Scope c visible) :
    ((committed d id b moved vals).block c).ops.Nodup ∧ ((committed d id b moved vals).block c).ops =
      (g.block c).ops.flatMap (fun j => if j = id then d.created else [j]) := by
  have once := scope.once sound.formed
  have whole := (@ready.insertedKeeps _ _ _ moved _ _ _ _ sound mem block _ _ scope).2
  have nodup := @ready.insertedOnce _ _ _ moved _ _ _ _ sound mem block _ _ scope
  rw [ready.committedBlock block aimed]
  by_cases here : c = b
  · subst here
    rw [if_pos rfl]
    refine ⟨nodup.erase id,?_⟩
    obtain ⟨pre,post,split⟩ := append_of_mem (sound.listed id mem c block)
    have order : pre ++ (d.created ++ [id]) ++ post = (pre ++ d.created) ++ id :: post := by simp
    rw [splicePresent split once,order] at whole
    dsimp only
    rw [whole] at nodup ⊢
    have before : id ∉ pre ++ d.created := fun mem => disjoint_of_nodup_append nodup mem (.head _)
    rw [erase_append_right _ before,erase_cons_head,splicePresent split once]
  · have absent := scope.notListed sound.formed block here
    rw [if_neg here]
    refine ⟨nodup,?_⟩
    rw [whole,spliceAbsent absent,spliceAbsent absent]

/- Blocks that are reached stay within reach when operations are inserted, so all uses in them are replaced. -/
theorem insertedReach {c visible} (scope : g.Scope c visible) :
    ∃ visible', (inserted d id b moved).Scope c visible' := by
  induction scope with
  | body => exact ⟨[],.body⟩
  | @region c visible pre post j r outer split region ih =>
    obtain ⟨visible',reach⟩ := ih
    have listed : j ∈ (g.block c).ops := by simp [split]
    have whole := (@ready.insertedKeeps _ _ _ moved _ _ _ _ sound mem block _ _ outer).2
    have carrier : ∃ k ∈ ((inserted d id b moved).block c).ops, ((inserted d id b moved).op k).region = some r := by
      rw [whole]
      by_cases other : j = id
      · subst other
        cases moved with
        | none =>
          refine ⟨j,mem_flatMap.mpr ⟨j,listed,?_⟩,?_⟩
          · rw [if_pos rfl]
            simp
          · rw [ready.insertedAnchor aimed]
            exact region
        | some t =>
          obtain ⟨new,-⟩ := aimed t rfl
          refine ⟨t,mem_flatMap.mpr ⟨j,listed,?_⟩,?_⟩
          · rw [if_pos rfl]
            exact mem_append_left _ new
          · rw [ready.insertedNew aimed (ready.new t new).1,if_pos rfl]
            exact region
      · refine ⟨j,mem_flatMap.mpr ⟨j,listed,?_⟩,?_⟩
        · rw [if_neg other]
          exact .head _
        · rw [ready.insertedOld aimed (blockInside (outer.block sound.formed listed)) other]
          exact region
    obtain ⟨k,mem,region⟩ := carrier
    obtain ⟨pre,post,split⟩ := append_of_mem mem
    exact ⟨_,.region reach split region⟩

theorem insertedWalked {c scope j} (place : g.At c scope j) (other : j ≠ id) :
    j ∈ (inserted d id b moved).walkAll := by
  obtain ⟨visible,pre,post,outer,split,-⟩ := place
  have listed : j ∈ (g.block c).ops := by simp [split]
  obtain ⟨visible',reach⟩ := ready.insertedReach sound mem block aimed outer
  have stays : j ∈ ((inserted d id b moved).block c).ops := by
    rw [(ready.insertedKeeps sound mem block outer).2]
    exact mem_flatMap.mpr ⟨j,listed,by rw [if_neg other]; exact .head _⟩
  obtain ⟨seen,place⟩ := reach.place stays
  exact place.walked ((ready.insertedSplice sound mem block aimed).wellFormed sound.formed)

theorem committedOwnerOther {c scope j} (place : g.At c scope j) (other : j ≠ id) {r}
    (region : (g.op j).region = some r) : ((committed d id b moved vals).block r).owner = (g.block r).owner := by
  obtain ⟨⟨_,-,stays⟩,-⟩ := place.formed sound.formed
  have owner := stays.owner r region
  rw [ready.committedOwner block aimed,ready.insertedOwnerOther sound mem block aimed owner other,owner]

theorem committedGrown {scope} (place : g.At b scope id) :
    Grown g (committed d id b moved vals) id b d moved (renameFrom id 0 vals) := by
  have grown := ready.insertedGrown sound mem block aimed
  have apart := ready.apart sound place
  have other {k : OpId} (new : g.ops.size ≤ k) : k ≠ id := fun same => Nat.not_lt_of_le new (same ▸ ready.within)
  have frame (k : OpId) := replaceResultsFrame (inserted d id b moved) id 0 (vals.map some) k
  refine ⟨fun k new => ?_,fun k new => ?_,fun k new => ?_,fun k new v used => ?_,fun c new => ?_,
    fun t r same region => ?_,fun v other => renameFromOther other 0 vals⟩
  · obtain ⟨_,same⟩ := frame k
    rw [ready.committedOp block aimed (other new),same]
    exact grown.results k new
  · obtain ⟨_,same⟩ := frame k
    rw [ready.committedOp block aimed (other new),same]
    exact grown.block k new
  · obtain ⟨_,same⟩ := frame k
    rw [ready.committedOp block aimed (other new),same]
    exact grown.region k new
  · rw [ready.committedOp block aimed (other new),replaceResultsOp _ _ _ _ apart,
      ready.insertedNew aimed new] at used
    split at used
    · obtain ⟨u,listed,rfl⟩ := mem_map.mp used
      exact ⟨u,listed,.inr rfl⟩
    · exact ⟨v,used,.inl rfl⟩
  · have apart : c ≠ b := fun same => Nat.not_lt_of_le new (same ▸ homeInside sound mem block)
    rw [ready.committedBlock block aimed,if_neg apart,grown.bodies c new]
  · rw [ready.committedOwner block aimed]
    exact grown.owner t r same region

theorem committedSplice {scope} (place : g.At b scope id) :
    Splice g (committed d id b moved vals) id d.created (fun _ => True) (renameFrom id 0 vals) := by
  have grown := ready.committedGrown sound mem block aimed place
  have apart := ready.apart sound place
  have formed := sound.formed
  refine ⟨?_,fun c visible scope => ?_,fun c visible scope => (ready.committedKeeps sound mem block aimed scope).2,
    fun c visible scope => (ready.committedKeeps sound mem block aimed scope).1,fun c scope j place other => ?_,
    fun c scope j place other r region => ready.committedOwnerOther sound mem block aimed place other region,
    fun _ _ _ _ _ _ _ => trivial,fun v other => renameFromOther other 0 vals,
    fun c scope n place here scope' carries regions => ?_⟩
  · rw [ready.committedErase block aimed,eraseBlocks,replaceResultsBlocks,insertedBlocks]
    exact ready.blocks
  · rw [ready.committedArgs block aimed]
    exact (ready.insertedKeeps sound mem block scope).1
  · rw [ready.committedOp block aimed other,replaceResultsOp _ _ _ _ apart,
      if_pos (ready.insertedWalked sound mem block aimed place other),
      ready.insertedOld aimed (blockInside (place.block formed)) other]
  · cases block.symm.trans (place.block formed)
    have fresh := place.fresh formed
    refine ⟨grown.created ready (fun t same => (aimed t same).1) here (fun v seen => seen b scope place) fresh carries
      regions,fun v result _ => ?_⟩
    -- What replaces a result is visible before the anchor or new.
    obtain ⟨i,lt,rfl⟩ := mem_map.mp result
    rw [mem_range,← ready.length] at lt
    have renamed : renameFrom id 0 vals (.result id i) = vals.get ⟨i,lt⟩ := by
      simp [renameFrom,lt]
    rw [renamed]
    have used : vals.get ⟨i,lt⟩ ∈ vals := get_mem ..
    generalize vals.get ⟨i,lt⟩ = v at used
    rcases ready.known v used with seen | new
    · obtain ⟨w,same,visible⟩ := seen b scope place
      cases same
      have kept := carries v visible trivial
      rw [renameFromOther (apart v used)] at kept
      exact mem_append_left _ kept
    · rw [grown.computed fun k mem => (ready.new k mem).1]
      exact mem_append_right _ new

/- Where the anchor is out of reach, nothing changes within reach. -/
theorem strayedSplice (stray : ∀ c scope, ¬ g.At c scope id) :
    Splice g (committed d id b moved vals) id d.created (fun _ => True) fun v => v := by
  have formed := sound.formed
  refine ⟨?_,fun c visible scope => ?_,fun c visible scope => (ready.committedKeeps sound mem block aimed scope).2,
    fun c visible scope => (ready.committedKeeps sound mem block aimed scope).1,fun c scope j place other => ?_,
    fun c scope j place other r region => ready.committedOwnerOther sound mem block aimed place other region,
    fun _ _ _ _ _ _ _ => trivial,fun _ _ => rfl,fun c scope n place => absurd place (stray c scope)⟩
  · rw [ready.committedErase block aimed,eraseBlocks,replaceResultsBlocks,insertedBlocks]
    exact ready.blocks
  · rw [ready.committedArgs block aimed]
    exact (ready.insertedKeeps sound mem block scope).1
  · have same := ready.insertedOld (b := b) aimed (blockInside (place.block formed)) other
    have unused (i : Nat) : some (.result id i) ∉ ((inserted d id b moved).op j).operands := by
      rw [same]
      intro used
      obtain ⟨c,seen,place⟩ := place.origin (place.sees formed used)
      exact stray c seen place
    rw [ready.committedOp block aimed other,replaceResultsUnused _ _ _ _ unused,same,spliceSame]

theorem committedSound : (committed d id b moved vals).Sound ids := by
  have formed : (committed d id b moved vals).WellFormed := by
    by_cases reached : ∃ c scope, g.At c scope id
    · obtain ⟨c,scope,place⟩ := reached
      cases block.symm.trans (place.block sound.formed)
      exact (ready.committedSplice sound mem block aimed place).wellFormed sound.formed
    · have stray (c : BlockId) (scope : List Value) : ¬ g.At c scope id := fun place => reached ⟨c,scope,place⟩
      exact (ready.strayedSplice sound mem block aimed stray).wellFormed sound.formed
  have inside {c : BlockId} {j : OpId} (listed : j ∈ (g.block c).ops) : j ∈ ((inserted d id b moved).block c).ops := by
    rw [insertedOps]
    refine insertBeforeKeeps _ _ _ _ ?_
    rwa [ready.oldBlock c (listedInside listed)]
  refine sound.after id formed ?_ ?_ (fun j old other => ?_) (fun c j listed other => ?_) (fun r j owner other => ?_)
  · rw [ready.committedErase block aimed,eraseSize,replaceResultsSize,insertedSize]
    exact ready.size
  · rw [ready.committedErase block aimed]
    refine eraseHere _ _ _ ?_
    rw [Graph.block,replaceResultsBlocks]
    exact inside (sound.listed id mem b block)
  · obtain ⟨_,same⟩ := replaceResultsFrame (inserted d id b moved) id 0 (vals.map some) j
    rw [ready.committedOp block aimed other,same,ready.insertedOld aimed old other]
    exact ⟨rfl,rfl⟩
  · rw [ready.committedBlock block aimed]
    split
    · exact (mem_erase_of_ne other).mpr (inside listed)
    · exact inside listed
  · rw [ready.committedOwner block aimed]
    exact ready.insertedOwnerOther sound mem block aimed owner other

end Removal

include ready sound mem block

omit sound mem in
theorem commitGraph (whole : (d.commit id).fault = none) : (d.commit id).graph = committed d id b target vals := by
  rcases ready.commitCases block with ⟨ran,-⟩ | ⟨broken,-⟩
  · rw [ran]
    rfl
  · rw [whole] at broken
    cases broken

omit mem block in
/- New operations do not use what they replace. -/
theorem createdUnused {scope} (place : g.At b scope id) {k} (listed : k ∈ d.created) (i : Nat) :
    some (.result id i) ∉ (d.graph.op k).operands := by
  obtain ⟨pre,post,split⟩ := append_of_mem listed
  intro used
  rcases ready.operands pre k post split _ used with seen | ⟨w,same,before⟩
  · obtain ⟨w,same,visible⟩ := seen b scope place
    cases same
    exact place.fresh sound.formed i visible
  · cases same
    exact ready.newResult (fun j mem => (ready.new j (by simp [split,mem])).1) i before

omit sound mem in
theorem madeNew (whole : (d.commit id).fault = none) {k} (new : g.ops.size ≤ k)
    (unused : ∀ i, some (.result id i) ∉ (d.graph.op k).operands) :
    (d.commit id).graph.op k = { d.graph.op k with
      block := if k ∈ d.created then some b else (d.graph.op k).block
      region := if target = some k then (g.op id).region else (d.graph.op k).region } := by
  have other : k ≠ id := Nat.ne_of_gt (ready.within.trans_le new)
  have same := ready.insertedNew (b := b) ready.aim new
  rw [ready.commitGraph block whole,ready.committedOp block ready.aim other,
    replaceResultsUnused _ _ _ _ (by rw [same]; exact unused),same]

theorem madeBlock {scope} (place : g.At b scope id) (whole : (d.commit id).fault = none) {c} (new : g.blocks.size ≤ c) :
    (d.commit id).graph.block c = d.graph.block c := by
  rw [ready.commitGraph block whole]
  exact (ready.committedGrown sound mem block ready.aim place).bodies c new

theorem replaced (name : d.graph.name = g.name) {scope} (place : g.At b scope id) (whole : (d.commit id).fault = none) :
    Replaced g (d.commit id).graph id b d.created vals := by
  have aimed := ready.aim
  have formed := sound.formed
  have grown := ready.committedGrown sound mem block aimed place
  have splice := ready.committedSplice sound mem block aimed place
  have args (c : BlockId) : ((committed d id b target vals).block c).args = (d.graph.block c).args := by
    rw [ready.committedArgs block aimed,insertedArgs]
  have frame (j : OpId) : ((committed d id b target vals).op j).results = ((inserted d id b target).op j).results := by
    obtain ⟨_,same⟩ := replaceResultsFrame (inserted d id b target) id 0 (vals.map some) j
    rw [ready.committedErase block aimed,eraseResults,same]
  have results (j : OpId) : ((committed d id b target vals).op j).results = (d.graph.op j).results := by
    rcases Nat.lt_or_ge j g.ops.size with old | new
    · by_cases anchor : j = id
      · rw [frame,anchor,ready.insertedAnchor aimed,ready.old id ready.within]
      · rw [frame,ready.insertedOld aimed old anchor,ready.old j old]
    · exact grown.results j new
  rw [ready.commitGraph block whole]
  refine ⟨?_,fun c old => ?_,fun pre post split _ => ?_,fun c old other => ?_,fun j old => ?_,splice.old,
    fun i v at_ => ?_⟩
  · rw [ready.committedErase block aimed,eraseName,replaceResultsName,insertedName,name]
  · rw [args,ready.oldBlock c old]
  · obtain ⟨visible,_,_,outer,-,-⟩ := place
    rw [(ready.committedKeeps sound mem block aimed outer).2,splicePresent split (outer.once formed),append_assoc]
  · rw [ready.committedBlock block aimed,if_neg other,insertedOps,insertBeforeOther _ _ _ _ other,ready.oldBlock c old]
  · rw [results,ready.old j old]
  · rw [← ready.types i v at_]
    cases v with
    | argument c k => simp only [Graph.typeOf,Graph.slot,args]
    | result j k => simp only [Graph.typeOf,Graph.slot,results]

theorem commitSound : (d.commit id).graph.WellFormed ∧ ((d.commit id).fault = none → (d.commit id).graph.Sound ids) := by
  rcases ready.commitCases block with ⟨whole,-⟩ | ⟨broken,-,-,graph⟩
  · rw [whole]
    have after := ready.committedSound sound mem block ready.aim
    exact ⟨after.formed,fun _ => after⟩
  · have none : ∀ t, none = some t → t ∈ d.created ∧ (d.graph.op t).region = none := nofun
    have splice := ready.insertedSplice sound mem block none
    rw [graph]
    refine ⟨splice.wellFormed sound.formed,fun whole => ?_⟩
    rw [whole] at broken
    cases broken

end Ready

end TileLower
